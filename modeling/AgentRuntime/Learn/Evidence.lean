import AgentRuntime.Loop.Workflow
import AgentRuntime.Lib.Json
import AgentRuntime.Lib.Sha256

/-!
# `Learn.Evidence` — verified runs (`agent-learn/src/evidence.rs`)

The recorder keeps the verifier verdicts of a workflow run as they are emitted. When the run reports success, they
are checked against the workflow, step by step, and become the evidence of the run.
-/

namespace AgentRuntime.Learn

open Loop Words Json

/-! ## The data -/

/-- One verifier verdict, as emitted by the workflow runner. -/
structure VerifierVerdict where
  step : String
  name : String
  passed : Bool
  detail : String
deriving DecidableEq

/-- Where the run happened and a digest of what the workflow appended to the transcript. -/
structure TrajectoryRef where
  sessionId : String
  workflowId : String
  messages : ℕ
  sha256 : String
deriving DecidableEq

/-- Why a run is learnable. -/
structure Evidence where
  workflowId : String
  /-- Step ids, in order. -/
  steps : List String
  /-- The verdicts of each step's final attempt, in step order. -/
  verdicts : List VerifierVerdict
  /-- How many attempts were judged by verifiers. -/
  attempts : ℕ
  trajectory : TrajectoryRef
deriving DecidableEq

structure VerifiedRun where
  evidence : Evidence
  answers : List String
deriving DecidableEq

/-- Why a run is not learnable. -/
inductive Unverified where
  | failed (step reason : String)
  | stopped
  | evidenceMismatch (m : String)
deriving DecidableEq

/-! ## The trajectory -/

def trajectoryDomain : List UInt8 := utf8 "citrate.learn.trajectory.v1\n"

def frame (bytes : List UInt8) : List UInt8 := beBytes 8 bytes.length ++ bytes

def roleBytes : Role → List UInt8
  | .system => utf8 "system"
  | .user => utf8 "user"
  | .assistant => utf8 "assistant"
  | .tool => utf8 "tool"

def callBytes (c : ToolCall) : List UInt8 := frame (utf8 c.id) ++ frame (utf8 c.name) ++ frame (utf8 c.arguments)

def messageBytes (m : Message) : List UInt8 :=
  frame (roleBytes m.role) ++ frame (utf8 m.content) ++ beBytes 8 m.toolCalls.length ++
    m.toolCalls.flatMap callBytes ++
    match m.toolCallId with
    | some id => 1 :: frame (utf8 id)
    | none => [0]

/-- What is hashed of a transcript slice: every field of every message, framed by its length. -/
def trajectoryBytes (messages : List Message) : List UInt8 :=
  trajectoryDomain ++ beBytes 8 messages.length ++ messages.flatMap messageBytes

/-! ## The recorder -/

def verdictOf : Action → Option VerifierVerdict
  | .event (.verifier step name passed detail) => some { step, name, passed, detail }
  | _ => none

/-- The verdicts the recorder keeps of the events it forwards. -/
def recorded (log : Log) : List VerifierVerdict := log.filterMap fun x => verdictOf x.1

/-! ## The check -/

section

variable (debug : String → String)

def checkVerdict (st : Step) (v : VerifierVerdict) (want : String) : Except String Unit :=
  if v.name ≠ want then
    .error ("step " ++ st.id ++ ": expected a verdict from " ++ debug want ++ ", found " ++ debug v.name)
  else if v.passed = false then .error ("step " ++ st.id ++ ": " ++ v.name ++ " did not pass")
  else .ok ()

/-- What the verdicts show of a step: those of its last attempt, and how many attempts were judged. -/
def checkStep (log : Log) (all : List VerifierVerdict) (st : Step) : Except String (List VerifierVerdict × ℕ) := do
  let names := st.verifiers.map fun v => v.name log
  let mine := all.filter fun v => v.step == st.id
  let n := names.length
  if n = 0 ∨ mine = [] ∨ mine.length % n ≠ 0 then
    throw ("step " ++ st.id ++ " has " ++ toString mine.length ++ " verdicts for " ++ toString n ++ " verifiers")
  let last := mine.drop (mine.length - n)
  (last.zip names).forM fun x => checkVerdict debug st x.1 x.2
  return (last, min (mine.length / n) (u32Bound - 1))

/-- `u32::saturating_add`. -/
def saturatingAdd (a b : ℕ) : ℕ := min (a + b) (u32Bound - 1)

/-- Check the recorded verdicts against the workflow; verifiers are asked for their names where the log stands. -/
def check (log : Log) (wf : Workflow) (all : List VerifierVerdict) : Except String (List VerifierVerdict × ℕ) := do
  let found ← wf.steps.foldlM (fun found st => do
    let (last, judged) ← checkStep debug log all st
    return (found.1 ++ last, saturatingAdd found.2 judged)) ([], 0)
  if all.any fun v => !wf.steps.any fun s => s.id == v.step then
    throw "a verdict names a step that is not in the workflow"
  return found

variable (sha256 : List UInt8 → Digest) (sessionId : String)

def trajectoryDigest (messages : List Message) : String := hexEncode (sha256 (trajectoryBytes messages))

/-- Run the workflow exactly like `run_workflow_reviewed` and, only if every verifier of every step passed, return the
    run with its evidence. -/
def runVerifiedWorkflowReviewed (env : Env) (turn : Turn) (reviewer : Option SelfReviewer) (wf : Workflow)
    (s : Session) : Except Unverified VerifiedRun × Session :=
  match runWorkflowReviewed env turn reviewer wf s with
  | (.failed step reason, s') => (.error (.failed step reason), s')
  | (.stopped, s') => (.error .stopped, s')
  | (.succeeded answers, s') =>
      match check debug s'.log wf (recorded (s'.log.drop s.log.length)) with
      | .error m => (.error (.evidenceMismatch m), s')
      | .ok (verdicts, attempts) =>
          let appended := s'.history.drop s.history.length
          let trajectory : TrajectoryRef :=
            { sessionId, workflowId := wf.id, messages := appended.length, sha256 := trajectoryDigest sha256 appended }
          (.ok { evidence := { workflowId := wf.id, steps := wf.steps.map Step.id, verdicts, attempts, trajectory }
                 answers }, s')

end

end AgentRuntime.Learn
