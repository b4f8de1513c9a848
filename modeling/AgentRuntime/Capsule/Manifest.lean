import AgentRuntime.Guard.Net
import AgentRuntime.Guard.Path
import AgentRuntime.Hitl.BreakGlass
import AgentRuntime.Lib.Text

/-!
# `Capsule.Manifest` — capsule manifests (`agent/core/src/capsule/manifest.rs`, `filesystem.rs`)

What a manifest declares and the checks it has to pass when it is parsed. Reading the TOML itself is a parameter, as
is how a text is shown with quotes.
-/

namespace AgentRuntime.Capsule

open Guard Text
open Hitl (Role RiskTier DataClass DataClassDecl RiskDecl)

/-! ## Errors -/

inductive AgentError where
  | capsule (msg : String)
  | capsuleSignatureInvalid (msg : String)
  | capsuleSigningTierMismatch (msg : String)
  | capsuleWitMismatch (msg : String)
deriving DecidableEq

def AgentError.show : AgentError → String
  | .capsule m => "capsule: " ++ m
  | .capsuleSignatureInvalid m => "capsule signature invalid: " ++ m
  | .capsuleSigningTierMismatch m => "capsule signing tier mismatch: " ++ m
  | .capsuleWitMismatch m => "capsule WIT mismatch: " ++ m

/-! ## The declarations -/

structure CapsuleMetadata where
  name : String
  version : String
  contentHash : String

inductive NetworkPolicy where
  | none
  | brokerOnly
  | egressAllowed
deriving DecidableEq

structure CapabilitySet where
  network : NetworkPolicy
  filesystem : List String
  subagentSpawn : Bool
  networkAllow : List String

inductive SigningTier where
  | bundled
  | managed
  | workspace
deriving DecidableEq

structure Manifest where
  capsule : CapsuleMetadata
  capability : CapabilitySet
  dataClass : DataClassDecl
  risk : RiskDecl
  signing : SigningTier

/-! ## Folders -/

inductive FilesystemAccess where
  | read
  | write
  | both
deriving DecidableEq

structure FilesystemEntry where
  access : FilesystemAccess
  path : String
deriving DecidableEq

def FilesystemEntry.parse (s : String) : Except AgentError FilesystemEntry :=
  match breakOn [':'] s.toList with
  | none =>
      .error (.capsule ("[capability].filesystem entry '" ++ s ++ "' must be of form '(read|write|both):<path>'"))
  | some (accessStr, found) => do
      let pathStr := String.ofList (found.drop 1)
      let access ←
        if accessStr = "read".toList then pure FilesystemAccess.read
        else if accessStr = "write".toList then pure FilesystemAccess.write
        else if accessStr = "both".toList then pure FilesystemAccess.both
        else
          throw (.capsule ("[capability].filesystem entry has unknown access prefix '" ++ String.ofList accessStr ++
            "'; must be one of 'read', 'write', 'both'"))
      if hasRoot pathStr = false then
        throw (.capsule ("[capability].filesystem path '" ++ pathStr ++ "' must be absolute (start with '/')"))
      if (components pathStr).any (· = .up) then
        throw (.capsule ("[capability].filesystem path '" ++ pathStr ++ "' must not contain '..'"))
      return { access, path := pathStr }

def parseAll (entries : List String) : Except AgentError (List FilesystemEntry) := entries.mapM FilesystemEntry.parse

/-! ## Addresses -/

section

variable (debug : String → String)

def parseAllowEntry (s : String) : Except AgentError SocketAddr :=
  let entry := "[capability].network_allow entry " ++ debug s
  match SocketAddr.parse s with
  | none =>
      .error (.capsule (entry ++ " must be an exact ip:port (host names are not resolved inside capsules)"))
  | some addr =>
      if addr.ip.isUnspecified = true ∨ addr.port = 0 then
        .error (.capsule (entry ++ " must name one remote address and port"))
      else if isPublicIp addr.ip = false then
        .error (.capsule (entry ++ " is not a public address; a capsule may not reach loopback, private, " ++
          "link-local or other local addresses"))
      else .ok addr

def parseNetworkAllow (entries : List String) : Except AgentError (List SocketAddr) :=
  entries.mapM (parseAllowEntry debug)

end

/-! ## Names, versions and hashes -/

def validateDnsLabel (s : String) : Except AgentError Unit :=
  if s.utf8ByteSize = 0 ∨ 63 < s.utf8ByteSize then
    .error (.capsule ("[capsule].name must be 1..=63 chars, got " ++ toString s.utf8ByteSize))
  else if (s.toList.all fun c => c.isLower || c.isDigit || c == '-') = false then
    .error (.capsule ("[capsule].name '" ++ s ++ "' must be DNS-label charset (a-z 0-9 -)"))
  else if s.toList.head? = some '-' ∨ s.toList.getLast? = some '-' then
    .error (.capsule ("[capsule].name '" ++ s ++ "' must not start or end with '-'"))
  else .ok ()

/-- The part of a version that is a number: the patch may have a suffix. -/
def versionCore (i : ℕ) (part : List Char) : List Char :=
  if i = 2 then part.takeWhile fun c => c ≠ '-' && c ≠ '+' else part

def validateSemver (s : String) : Except AgentError Unit :=
  let parts := s.toList.splitOn '.'
  if parts.length ≠ 3 then .error (.capsule ("[capsule].version '" ++ s ++ "' is not SemVer X.Y.Z"))
  else
    parts.zipIdx.forM fun (part, i) =>
      if (parseU64 (versionCore i part)).isNone then
        .error (.capsule ("[capsule].version '" ++ s ++ "' segment " ++ toString i ++ " is not a number"))
      else .ok ()

def isHexDigit (c : Char) : Bool := c.isDigit || ('a' ≤ c && c ≤ 'f') || ('A' ≤ c && c ≤ 'F')

def validateSha256Prefix (s : String) : Except AgentError Unit :=
  match strip "sha256:".toList s.toList with
  | none => .error (.capsule ("[capsule].content_hash '" ++ s ++ "' must begin with 'sha256:'"))
  | some hex =>
      let length := (String.ofList hex).utf8ByteSize
      if length ≠ 64 then
        .error (.capsule ("[capsule].content_hash hex must be 64 chars, got " ++ toString length))
      else if hex.all isHexDigit = false then
        .error (.capsule ("[capsule].content_hash '" ++ s ++ "' must be lowercase hex"))
      else .ok ()

/-! ## Manifests -/

namespace Manifest

variable (debug : String → String)

/-- The network policy and its addresses fit. -/
def validateNetwork (network : NetworkPolicy) (allow : List SocketAddr) : Except AgentError Unit :=
  match network, allow with
  | .egressAllowed, [] =>
      .error (.capsule ("[capability].network = \"egress-allowed\" needs a non-empty [capability].network_allow " ++
        "list of exact ip:port addresses"))
  | .none, _ :: _ | .brokerOnly, _ :: _ =>
      .error (.capsule "[capability].network_allow is only valid with network = \"egress-allowed\"")
  | _, _ => .ok ()

def validate (m : Manifest) : Except AgentError Unit := do
  validateDnsLabel m.capsule.name
  validateSemver m.capsule.version
  validateSha256Prefix m.capsule.contentHash
  if m.capability.subagentSpawn then
    throw (.capsule "[capability].subagent_spawn = false is required in v1 (RFC §1.3 N1)")
  if m.dataClass.reads.contains .itar && m.risk.breakGlassEligible then
    throw (.capsule ("[risk].break_glass_eligible MUST be false for capsules that read ITAR data " ++
      "(RFC §2.3 + §5.5)"))
  let _ ← parseAll m.capability.filesystem
  let allow ← parseNetworkAllow debug m.capability.networkAllow
  validateNetwork m.capability.network allow
  if m.risk.tier = .high then
    let distinct := (m.risk.requiredRoles.filter (· ≠ Role.auditor)).dedup
    if distinct.length < 2 then
      throw (.capsule ("[risk].tier = \"high\" requires at least two distinct approving roles in required_roles " ++
        "(separation of duties, PBA-L6b-012)"))

/-- Read the TOML and validate. -/
def parse (toml : String → Except String Manifest) (text : String) : Except AgentError Manifest := do
  let manifest ← (toml text).mapError fun e => .capsule ("manifest parse: " ++ e)
  manifest.validate debug
  return manifest

theorem parse_ok {debug : String → String} {toml : String → Except String Manifest} {text : String} {m : Manifest} :
    parse debug toml text = .ok m ↔ toml text = .ok m ∧ m.validate debug = .ok () := by
  unfold parse
  cases htoml : toml text with
  | error e =>
      constructor
      · intro h
        cases h
      · rintro ⟨h, -⟩
        cases h
  | ok m' =>
      show (m'.validate debug >>= fun _ => pure m') = .ok m ↔ _
      rw [Except.bind_eq_ok]
      constructor
      · rintro ⟨⟨⟩, hvalid, h⟩
        cases h
        exact ⟨rfl, hvalid⟩
      · rintro ⟨h, hvalid⟩
        cases h
        exact ⟨(), hvalid, rfl⟩

end Manifest

end AgentRuntime.Capsule
