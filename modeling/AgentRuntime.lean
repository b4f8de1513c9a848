import AgentRuntime.Lib.MerkleTree
import AgentRuntime.Lib.Words
import AgentRuntime.Lib.PrefixCode
import AgentRuntime.Lib.Sha256
import AgentRuntime.Lib.Json
import AgentRuntime.Records.Record
import AgentRuntime.Records.Merkle
import AgentRuntime.Anchor.Tree
import AgentRuntime.Anchor.Batch
import AgentRuntime.Lib.Acceptor
import AgentRuntime.Lib.Transition
import AgentRuntime.Records.Chain
import AgentRuntime.Records.Seg
import AgentRuntime.Records.Walk
import AgentRuntime.Records.Store
import AgentRuntime.Records.Log
import AgentRuntime.Records.Step
import AgentRuntime.Records.Writer
import AgentRuntime.Records.Session
import AgentRuntime.Records.Agreement
import AgentRuntime.Records.Recovery
import AgentRuntime.Records.Crash
import AgentRuntime.Lib.HashChain
import AgentRuntime.Records.Tamper
import AgentRuntime.Anchor.Calldata
import AgentRuntime.Anchor.Ledger
import AgentRuntime.Hitl.Quorum
import AgentRuntime.Hitl.Signing
import AgentRuntime.Lib.Machine
import AgentRuntime.Hitl.Queue
import AgentRuntime.Hitl.World
import AgentRuntime.Hitl.Fifo
import AgentRuntime.Hitl.Earned
import AgentRuntime.Hitl.Binding
import AgentRuntime.Loop.Context
import AgentRuntime.Loop.Taint
import AgentRuntime.Loop.Turn
import AgentRuntime.Loop.Downgrade
import AgentRuntime.Loop.Workflow
import AgentRuntime.Loop.Readback
import AgentRuntime.Lib.JsonValue
import AgentRuntime.Loop.Toolchain
import AgentRuntime.Loop.DeployGuard
import AgentRuntime.Guard.Path
import AgentRuntime.Guard.Rules
import AgentRuntime.Guard.Resolve
import AgentRuntime.Guard.CheckPath
import AgentRuntime.Loop.Dispatch
import AgentRuntime.Loop.Transcript
import AgentRuntime.Learn.Verified
import AgentRuntime.Loop.Decide
import AgentRuntime.Loop.Decide
import AgentRuntime.Lib.SortedMap
import AgentRuntime.Lib.Juxtaposed
import AgentRuntime.Lib.Utf8Lossy
import AgentRuntime.Capsule.Archive
import AgentRuntime.Capsule.ContentHash
import AgentRuntime.Lib.Cbor
import AgentRuntime.Audit.Record
import AgentRuntime.Audit.Chain
import AgentRuntime.Audit.Integrity
import AgentRuntime.Audit.FileSink
import AgentRuntime.Audit.TornWrite
import AgentRuntime.Hitl.Affirmed
import AgentRuntime.Sidecar.Approvals
import AgentRuntime.Sidecar.Released
import AgentRuntime.Sidecar.CoreCalls
import AgentRuntime.Sidecar.Delivered
import AgentRuntime.Workers.Supervisor
import AgentRuntime.Workers.Senders
import AgentRuntime.Workers.Correlated
import AgentRuntime.Workers.Wedge
import AgentRuntime.Capsule.Manifest
import AgentRuntime.Capsule.Fleet
import AgentRuntime.Lib.Dialogue
import AgentRuntime.Mcp.Client
import AgentRuntime.Mcp.Task
import AgentRuntime.Mcp.Lines
import AgentRuntime.Mcp.Stdio
import AgentRuntime.Mcp.Answered
import AgentRuntime.Mcp.Mapping
import AgentRuntime.Mcp.Host
import AgentRuntime.Toolchain.Sources
import AgentRuntime.Toolchain.SourceDigest
import AgentRuntime.Lib.Recency
import AgentRuntime.Toolchain.DeployBlock
import AgentRuntime.Browser.SignIn
import AgentRuntime.Browser.Delivered
import AgentRuntime.Capsule.CallJson
import AgentRuntime.Lib.TextSize
import AgentRuntime.Sidecar.RecordEvents
import AgentRuntime.Sidecar.RecordBatch
import AgentRuntime.Lib.Calendar
import AgentRuntime.Metering.Day
import AgentRuntime.Lib.Distinct
import AgentRuntime.Metering.ChainReceipts
import AgentRuntime.Metering.ChainSpend
import AgentRuntime.Lib.Occurrences
import AgentRuntime.Lib.Prog
import AgentRuntime.Lib.Related
import AgentRuntime.Sidecar.FsEdit
import AgentRuntime.Sidecar.FsEditRuns
import AgentRuntime.Code.FileEdit
import AgentRuntime.Sidecar.Edits
import AgentRuntime.Code.SafeWrite
import AgentRuntime.Code.SafeWriteRuns
import AgentRuntime.Loop.Compaction
import AgentRuntime.Metering.CivilDay
import AgentRuntime.Shell.Capture
import AgentRuntime.Checkpoints.State
import AgentRuntime.Checkpoints.Store
import AgentRuntime.Checkpoints.Undo
import AgentRuntime.Checkpoints.Located
import AgentRuntime.Checkpoints.Captured
import AgentRuntime.Checkpoints.Steps
import AgentRuntime.Checkpoints.Restored
import AgentRuntime.Checkpoints.Refused
import AgentRuntime.Checkpoints.Since
import AgentRuntime.Checkpoints.GivenBack
import AgentRuntime.Lib.Walk
import AgentRuntime.Skills.Files
import AgentRuntime.Skills.Load
import AgentRuntime.Skills.Precedence
import AgentRuntime.Skills.ReadRef
import AgentRuntime.Hitl.Waiters
import AgentRuntime.Hitl.Window
import AgentRuntime.Hitl.Reported
import AgentRuntime.Anchor.Nightly
import AgentRuntime.Grants.Folder
import AgentRuntime.Grants.Store
import AgentRuntime.Grants.Reload
import AgentRuntime.Lib.Abi
import AgentRuntime.Learn.Registry
import AgentRuntime.Learn.Trajectory
import AgentRuntime.Lib.Framing
import AgentRuntime.Legacy.Grant
import AgentRuntime.Audit.Recorder
import AgentRuntime.Anchor.LedgerRuns
import AgentRuntime.Lib.Paging
import AgentRuntime.Records.Read
import AgentRuntime.Records.Rotation
import AgentRuntime.Grants.Allowed
import AgentRuntime.Lib.TextLines
import AgentRuntime.Shell.GitConfig
import AgentRuntime.Shell.ConfigLines
import AgentRuntime.Shell.ConfigRevert
import AgentRuntime.Shell.ConfigExact
import AgentRuntime.Mcp.Offered
import AgentRuntime.Mcp.Sends
import AgentRuntime.Mcp.Shutdown
