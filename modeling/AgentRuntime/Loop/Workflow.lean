import AgentRuntime.Loop.Turn

/-!
# `Loop.Workflow` — workflows judged by verifiers (`run_workflow_reviewed`)

Each step is one or more turns; after each attempt every verifier judges it. What the verifiers see of the
attempt's calls is read back from the transcript (`recordsSince`). Verifiers and the reviewer are unknown and
answer as functions of the log so far, like everyone else.
-/

namespace AgentRuntime.Loop

/-! ## Records -/

/-- `str::starts_with`. -/
def startsWith (text start : String) : Bool := start.toList.isPrefixOf text.toList

/-- How a call ended, by the content of its result. -/
def contentStatus (content : String) : String :=
  if startsWith content "declined:" then "denied"
  else if startsWith content "tool error:" then "error"
  else "ok"

/-- The calls known by id, the last one of an id first. -/
abbrev KnownCalls : Type := List (String × String × String)

def KnownCalls.insertAll (known : KnownCalls) (calls : List ToolCall) : KnownCalls :=
  calls.foldl (fun known c => (c.id, c.name, c.arguments) :: known) known

/-- One message of the history: its calls become known, and a tool message becomes a record. -/
def recordStep (st : KnownCalls × List ToolRecord) (m : Message) : KnownCalls × List ToolRecord :=
  let known := st.1.insertAll m.toolCalls
  let call := if m.role = .tool then m.toolCallId.bind fun id => known.lookup id else none
  match call with
  | some (name, arguments) =>
      (known, st.2 ++ [{ name, arguments, content := m.content, status := contentStatus m.content }])
  | none => (known, st.2)

def recordsSince (history : List Message) : List ToolRecord := (history.foldl recordStep ([], [])).2

/-! ## Verifiers and reviewers -/

inductive Verdict where
  | pass
  | fail (why : String)
deriving DecidableEq

structure Verifier where
  name : Log → String
  verify : Log → VerifyContext → Verdict

/-- `ToolSucceeded`: the named tool ran and returned `ok` at least once in the attempt. -/
def toolSucceeded (tool : String) : Verifier where
  name _ := tool ++ " succeeded"
  verify _ ctx :=
    if ctx.tools.any fun t => t.name == tool && t.status == "ok" then .pass
    else if ctx.tools.any fun t => t.name == tool then .fail (tool ++ " was called but did not succeed")
    else .fail (tool ++ " was never called")

/-- Gives the model's opinion of an attempt, or why there is none. -/
abbrev SelfReviewer : Type := Log → ReviewRequest → List Message → Except String String

def selfReviewLabel : String := "opinion"

def selfReviewMaxChars : ℕ := 600

def boundedOpinion (text : String) : String :=
  let t := Text.trim text.toList
  if t.length ≤ selfReviewMaxChars then String.ofList t
  else String.ofList (t.take (selfReviewMaxChars - 1) ++ ['…'])

/-! ## Workflows -/

/-- An instruction, the verifiers that judge it, and a retry budget. -/
structure Step where
  id : String
  instruction : String
  verifiers : List Verifier
  maxAttempts : ℕ

structure Workflow where
  id : String
  steps : List Step

def Step.check (st : Step) : Except String Unit :=
  if st.verifiers.isEmpty then .error ("step " ++ st.id ++ " has no verifier, so it could never be judged")
  else if 1 ≤ st.maxAttempts ∧ st.maxAttempts ≤ 5 then .ok ()
  else .error ("step " ++ st.id ++ " needs 1–5 attempts")

/-- `Workflow::new`: valid only when every step can be judged. -/
def Workflow.new (id : String) (steps : List Step) : Except String Workflow := do
  if steps.isEmpty then throw ("workflow " ++ id ++ " has no steps")
  steps.forM Step.check
  return { id, steps }

inductive WorkflowOutcome where
  | succeeded (answers : List String)
  | failed (step reason : String)
  | stopped
deriving DecidableEq

/-! ## Running one -/

section

variable (env : Env) (turn : Turn) (reviewer : Option SelfReviewer)

/-- What an attempt asks: the instruction, and what the attempt before it did not pass. -/
def Step.prompt (st : Step) (feedback : List String) : String :=
  if feedback = [] then st.instruction
  else
    st.instruction ++ "\n\nThe previous attempt did not pass these checks:\n" ++
      "\n".intercalate (feedback.map fun f => "- " ++ f) ++ "\nFix that, then answer again."

/-- The opinion of an answered attempt is asked for and emitted. -/
def askReviewer (st : Step) (attempt : ℕ) (answer : String) (s : Session) : Session :=
  match reviewer with
  | none => s
  | some review =>
      if turn.stop s.log then s
      else
        let req : ReviewRequest := { step := st.id, attempt, instruction := st.instruction, answer }
        let text := match review s.log req s.history with
          | .ok t => boundedOpinion t
          | .error why => boundedOpinion ("no opinion: " ++ why)
        (s.act (.review req)).emit (.selfReview st.id attempt text selfReviewLabel)

/-- One verifier judges; what it holds against the attempt is added to `feedback`. -/
def judge (st : Step) (ctx : VerifyContext) (v : Verifier) (feedback : List String) (s : Session) :
    List String × Session :=
  let verdict := v.verify s.log ctx
  let detail := match verdict with
    | .pass => ""
    | .fail why => why
  let s := s.act (.verify ctx)
  let s := s.emit (.verifier st.id (v.name s.log) (verdict == .pass) detail)
  (if verdict = .pass then feedback else feedback ++ [v.name s.log ++ ": " ++ detail], s)

def judgeAll (st : Step) (ctx : VerifyContext) : List Verifier → List String → Session → List String × Session
  | [], feedback, s => (feedback, s)
  | v :: vs, feedback, s =>
      let (feedback, s) := judge st ctx v feedback s
      judgeAll st ctx vs feedback s

/-- How an attempt ended. -/
inductive AttemptEnd where
  | stopped
  | retry (feedback : List String)
  | passed (answer : String)

/-- One attempt of a step: a turn, and its judgement. -/
def runAttempt (st : Step) (attempt : ℕ) (feedback : List String) (s : Session) : AttemptEnd × Session :=
  let start := s.history.length
  let s := s.act (.attempt st.id attempt)
  match runTurnWith env { turn with user := st.prompt feedback } s with
  | (.stopped, s) => (.stopped, s)
  | (.stepLimit, s) => (.retry ["the step ran out of tool steps before finishing"], s)
  | (.failed m, s) => (.retry ["the attempt failed: " ++ m], s)
  | (.answered answer, s) =>
      let s := askReviewer turn reviewer st attempt answer s
      let ctx : VerifyContext := { step := st.id, answer, tools := recordsSince (s.history.drop start) }
      match judgeAll st ctx st.verifiers [] s with
      | ([], s) => (.passed answer, s)
      | (feedback, s) => (.retry feedback, s)

/-- The attempts of a step: `left` are still allowed. -/
def runAttempts (st : Step) : ℕ → ℕ → List String → Session → AttemptEnd × Session
  | 0, _, feedback, s => (.retry feedback, s)
  | left + 1, attempt, feedback, s =>
      if turn.stop s.log then (.stopped, s)
      else
        match runAttempt env turn reviewer st attempt feedback s with
        | (.retry feedback, s) => runAttempts st left (attempt + 1) feedback s
        | done => done

/-- The steps of a workflow, one after the other; `answers` are those of the steps that passed. -/
def runWorkflowSteps : List Step → List String → Session → WorkflowOutcome × Session
  | [], answers, s => (.succeeded answers, s)
  | st :: steps, answers, s =>
      match runAttempts env turn reviewer st st.maxAttempts 1 [] s with
      | (.stopped, s) => (.stopped, s)
      | (.retry feedback, s) => (.failed st.id ("; ".intercalate feedback), s)
      | (.passed answer, s) => runWorkflowSteps steps (answers ++ [answer]) s

/-- Run a workflow; it succeeds only when every step passed every verifier. -/
def runWorkflowReviewed (wf : Workflow) (s : Session) : WorkflowOutcome × Session :=
  runWorkflowSteps env turn reviewer wf.steps [] (s.emit (.plan (wf.steps.map Step.id)))

end

end AgentRuntime.Loop
