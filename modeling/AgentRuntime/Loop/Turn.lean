import AgentRuntime.Loop.Context
import AgentRuntime.Loop.Taint
import AgentRuntime.Lib.Text

/-!
# `Loop.Turn` — one user turn (`run_turn_with`)

The loop writes down everything it does: `Log` holds every action with the taint state right after it, so a
prefix of the log is a reachable state. The model, the hosts, the policies, the stop flag and the member are
unknown; each answers as a function of the log so far, which covers every behaviour they can have.

The member may clear the taint at any access to it (`clears`). A call counts as returned when the loop takes its
outcome in (`settled`), which is one step: the loop does nothing between the host's return and the taint but
report the result.
-/

namespace AgentRuntime.Loop

open Words Text

/-! ## What the loop does -/

inductive Action where
  | event (e : Event)
  /-- The model is asked. -/
  | complete (req : CompletionRequest)
  /-- The model's reply is appended to the transcript. -/
  | replied (reply : AssistantTurn)
  /-- A call of the reply is taken up, with the specification found for it. -/
  | takes (step : ℕ) (call : ToolCall) (spec : Option ToolSpec)
  | honorsExplicitApproval (k : HostKind) (answer : Bool)
  | beforeAnnounce (k : HostKind) (call : ToolCall)
  | execute (k : HostKind) (call : ToolCall) (spec : Option ToolSpec)
  | executeWithExplicitApproval (k : HostKind) (call : ToolCall) (reason : String)
  /-- The call's outcome is taken in; `ran` says whether a host returned it. -/
  | settled (call : ToolCall) (spec : Option ToolSpec) (ran : Bool) (outcome : ToolOutcome)
  /-- A member clears the taint. -/
  | clear
  /-- An attempt of a workflow step begins. -/
  | attempt (step : String) (n : ℕ)
  | review (req : ReviewRequest)
  /-- A verifier judges an attempt. -/
  | verify (ctx : VerifyContext)
deriving DecidableEq

abbrev Log : Type := List (Action × TaintState)

/-- An entry of a log with one more at its end is the new one, or one of the entries before. -/
theorem Log.split_concat {log before after : Log} {x y : Action × TaintState}
    (h : log ++ [x] = before ++ y :: after) :
    (before = log ∧ y = x ∧ after = []) ∨ ∃ after', after = after' ++ [x] ∧ log = before ++ y :: after' := by
  rcases List.eq_nil_or_concat after with rfl | ⟨after', z, rfl⟩
  · obtain ⟨rfl, hx⟩ := List.append_inj' h rfl
    cases hx
    exact .inl ⟨rfl, rfl, rfl⟩
  · have hsplit : log ++ [x] = (before ++ y :: after') ++ [z] := by
      rw [h]
      simp
    obtain ⟨rfl, hz⟩ := List.append_inj' hsplit rfl
    cases hz
    exact .inr ⟨after', List.concat_eq_append, rfl⟩

/-! ## Everyone else -/

/-- Executes the calls of one kind. -/
structure ToolHost where
  execute : Log → ToolCall → ToolOutcome
  honorsExplicitApproval : Log → Bool
  executeWithExplicitApproval : Log → ToolCall → String → ToolOutcome

/-- The tools on offer, the host of each kind, and the call policies. -/
structure ToolRegistry where
  specs : List ToolSpec
  host : HostKind → Option ToolHost
  policies : List (Log → ToolCall → Option String)

def ToolRegistry.spec (tools : ToolRegistry) (name : String) : Option ToolSpec :=
  tools.specs.find? fun s => s.name == name

/-- The first policy's reason to decline the call. -/
def ToolRegistry.declined (tools : ToolRegistry) (log : Log) (call : ToolCall) : Option String :=
  tools.policies.findSome? fun p => p log call

/-- What a streaming completion hands back: each piece of text, with whether it waited long enough to be
    emitted, and the reply. -/
structure Streamed where
  deltas : List (String × Bool)
  reply : Except LlmError (AssistantTurn × Option TokenUsage)

/-- Per-turn options. -/
structure TurnOptions where
  maxToolsPerRequest : Option ℕ
  budget : Option (ContextBudget × TokenCounter)
  pinnedTools : List String
  turnContext : List (Log → String → List Message → Option String)
  selector : Option (Log → String → List ToolSpec → ℕ → List ToolSpec)
  maxToolsTotal : Option ℕ

/-- The arguments of one `run_turn_with`. -/
structure Turn where
  cfg : LoopConfig
  opts : TurnOptions
  llm : Log → CompletionRequest → Streamed
  tools : ToolRegistry
  /-- The stop flag, read at each check. -/
  stop : Log → Bool
  user : String

/-- The member, and the functions of other crates the loop calls. -/
structure Env where
  /-- The member clears the taint before the loop's next access to it. -/
  clears : Log → Bool
  /-- `serde_json::from_str::<Value>` succeeds. -/
  parsesJson : String → Bool
  /-- `serde_json::to_string` of the offered tools. -/
  toolsJson : List ToolSpec → String
  toLowercase : String → String

/-! ## The state -/

/-- A session: the transcript, the shared taint, and the log. -/
structure Session where
  history : List Message
  taint : TaintState
  log : Log

namespace Session

def act (s : Session) (a : Action) : Session := { s with log := s.log ++ [(a, s.taint)] }

def emit (s : Session) (e : Event) : Session := s.act (.event e)

def emitAll (s : Session) (es : List Event) : Session := es.foldl emit s

def push (s : Session) (m : Message) : Session := { s with history := s.history ++ [m] }

def clearByMember (s : Session) : Session := { s with taint := s.taint.clearByMember }.act .clear

/-- An access to the taint state: the member may have been there first. -/
def access (env : Env) (s : Session) : Session := if env.clears s.log then s.clearByMember else s

/-- `TaintState::taint` for the call, and the outcome is taken in. -/
def ingest (s : Session) (step : ℕ) (call : ToolCall) (spec : Option ToolSpec) (outcome : ToolOutcome) :
    Session :=
  let reason := call.name ++ " returned untrusted content"
  let (flipped, taint) := s.taint.taint call.name reason
  let s := { s with taint := taint }.act (.settled call spec true outcome)
  if flipped then s.emit (.tainted step call.name reason) else s

end Session

/-! ## One call of a reply -/

section

variable (env : Env) (turn : Turn)

def skippedText (max : ℕ) : String :=
  "skipped: at most " ++ toString max ++
    " tool calls per step — call it again next step if still needed"

def unavailableText (name : String) : String := "'" ++ name ++ "' is not available in this session"

def approvalReason (r : TaintRecord) : String :=
  "this session read untrusted content (from " ++ r.source ++
    "), so this action needs your explicit approval"

/-- The host of the tool called, when there is one. -/
def hostOf (spec : Option ToolSpec) : Option ToolHost := spec.bind fun s => turn.tools.host s.host

/-- Why the loop refuses the `i`-th call of the reply, before it is announced. -/
def refusalOf (i : ℕ) (call : ToolCall) (spec : Option ToolSpec) : Option String :=
  if i % u32Bound ≥ turn.cfg.maxToolCallsPerStep then some (skippedText turn.cfg.maxToolCallsPerStep)
  else
    match spec with
    | none => some ("unknown tool '" ++ call.name ++ "'")
    | some _ =>
        let args := if call.arguments.toList.all isWhitespace then "\x7b\x7d" else call.arguments
        if env.parsesJson args = false then
          some "the arguments were not valid JSON; retry with a JSON object"
        else if (hostOf turn spec).isNone then some (unavailableText call.name)
        else none

/-- What the loop decides about a call before it announces it. -/
structure Decision where
  spec : Option ToolSpec
  refusal : Option String
  declined : Option String
  hicReason : Option String
  /-- The host cannot put the call in front of a person. -/
  refusedHic : Bool
  /-- The host the call is dispatched to. -/
  dispatch : Option (HostKind × ToolHost)

/-- Whether the call needs a member's explicit decision: the taint record is read only for an effectful call
    that nothing else stops. -/
def hicReasonOf (spec : Option ToolSpec) (refusal declined : Option String) (s : Session) :
    Option String × Session :=
  match spec with
  | some sp =>
      if refusal.isNone && declined.isNone && sp.annotations.isEffectful then
        ((s.access env).taint.record.map approvalReason, s.access env)
      else (none, s)
  | none => (none, s)

/-- Whether the host is asked and cannot honour an explicit approval. -/
def refusedHicOf (spec : Option ToolSpec) (hicReason : Option String) (s : Session) : Bool × Session :=
  match hicReason, spec, hostOf turn spec with
  | some _, some sp, some h =>
      (!h.honorsExplicitApproval s.log,
        s.act (.honorsExplicitApproval sp.host (h.honorsExplicitApproval s.log)))
  | _, _, _ => (false, s)

def dispatchOf (spec : Option ToolSpec) (refusal declined : Option String) (refusedHic : Bool) :
    Option (HostKind × ToolHost) :=
  match refusal, spec, hostOf turn spec with
  | none, some sp, some h => if !refusedHic && declined.isNone then some (sp.host, h) else none
  | _, _, _ => none

def decideCall (i : ℕ) (call : ToolCall) (s : Session) : Decision × Session :=
  let spec := turn.tools.spec call.name
  let refusal := refusalOf env turn i call spec
  let declined := if refusal.isNone then turn.tools.declined s.log call else none
  let (hicReason, s) := hicReasonOf env spec refusal declined s
  let (refusedHic, s) := refusedHicOf turn spec hicReason s
  let dispatch := dispatchOf turn spec refusal declined refusedHic
  ({ spec, refusal, declined, hicReason, refusedHic, dispatch }, s)

/-- The host is told, then the call is announced. -/
def announce (step : ℕ) (call : ToolCall) (d : Decision) (s : Session) : Session :=
  let s := match d.dispatch with
    | some (k, _) => s.act (.beforeAnnounce k call)
    | none => s
  s.emit (.toolCall step call (d.dispatch.map Prod.fst) (d.hicReason.map fun _ => "required") d.hicReason)

/-- Run the call on its host, or say why it is not run. -/
def runCall (call : ToolCall) (d : Decision) (s : Session) : (Bool × ToolOutcome) × Session :=
  match d.dispatch, d.refusal with
  | some (k, h), _ =>
      match d.hicReason with
      | some reason =>
          ((true, h.executeWithExplicitApproval s.log call reason),
            s.act (.executeWithExplicitApproval k call reason))
      | none => ((true, h.execute s.log call), s.act (.execute k call d.spec))
  | none, some why => ((false, .error why), s)
  | none, none =>
      match d.declined with
      | some why => ((false, .denied why), s)
      | none =>
          if d.refusedHic then
            ((false, .denied (cannotAskReason ((s.access env).taint.record.map TaintRecord.source))),
              s.access env)
          else ((false, .error (unavailableText call.name)), s)

/-- Whether outside content entered the context. -/
def ingestsUntrusted (spec : Option ToolSpec) (ran : Bool) : ToolOutcome → Bool
  | .untrusted _ => ran
  | .vouched _ => false
  | .ok _ | .error _ => ran && spec.any fun sp => sp.annotations.outputUntrusted
  | .denied _ => false

/-- The result is reported and taken in. -/
def settle (step : ℕ) (call : ToolCall) (spec : Option ToolSpec) (ran : Bool) (outcome : ToolOutcome)
    (s : Session) : Session :=
  let s := s.emit (.toolResult step call.id outcome.status outcome.toContent)
  let s :=
    if ingestsUntrusted spec ran outcome then (s.access env).ingest step call spec outcome
    else s.act (.settled call spec ran outcome)
  s.push (.toolResult call.id outcome.toContent)

/-- The body of the loop over a reply's calls. -/
def processCall (step i : ℕ) (call : ToolCall) (s : Session) : Session :=
  let s := s.act (.takes step call (turn.tools.spec call.name))
  let (d, s) := decideCall env turn i call s
  let s := announce step call d s
  let ((ran, outcome), s) := runCall env call d s
  settle env step call d.spec ran outcome s

/-- The calls of a reply from the `i`-th on; `none` when the stop flag ends the turn. -/
def processCalls (step : ℕ) : ℕ → List ToolCall → Session → Option Unit × Session
  | _, [], s => (some (), s)
  | i, call :: calls, s =>
      if turn.stop s.log then (none, s)
      else processCalls step (i + 1) calls (processCall env turn step i call s)

/-! ## One step -/

/-- `DeltaCoalescer`: the streamed text, in the pieces it is emitted in. -/
def coalesce (step : ℕ) : String → List (String × Bool) → List Event
  | buf, [] => if buf = "" then [] else [.assistantDelta step buf]
  | buf, (text, waited) :: deltas =>
      if text = "" then coalesce step buf deltas
      else if (buf ++ text).utf8ByteSize ≥ 64 ∨ waited = true then
        .assistantDelta step (buf ++ text) :: coalesce step "" deltas
      else coalesce step (buf ++ text) deltas

/-- The system prompt with every section of the turn's context. -/
def turnSystemPrompt (s : Session) : String :=
  turn.opts.turnContext.foldl
    (fun out ctx =>
      match ctx s.log turn.user s.history with
      | some text => if text = "" then out else out ++ "\n\n" ++ text
      | none => out) turn.cfg.systemPrompt

/-- The request of a step, when its messages fit the budget. -/
def requestOf (systemPrompt : String) (s : Session) : Except String CompletionRequest :=
  let messages := Message.system systemPrompt :: s.history
  let select := match turn.opts.selector with
    | some select => select s.log
    | none => keywordSelect env.toLowercase
  let offered := offeredTools turn.tools.specs s.history turn.user turn.opts.maxToolsPerRequest
    turn.opts.pinnedTools select turn.opts.maxToolsTotal
  let fitted : Except String (List Message) := match turn.opts.budget with
    | some (budget, counter) =>
        compactToBudget messages
          { maxContextTokens := budget.maxContextTokens - counter.count (env.toolsJson offered)
            reserveForOutput := budget.reserveForOutput } counter
    | none => .ok messages
  fitted.map fun messages =>
    { model := turn.cfg.model, messages := messages, tools := offered, maxTokens := turn.cfg.maxTokens }

/-- How a step went on. -/
inductive StepEnd where
  | next
  | finished (outcome : RunOutcome)

/-- The model's reply, reported with its usage. -/
def report (step : ℕ) (streamed : Streamed) (s : Session) : Session :=
  let s := s.emitAll (coalesce step "" streamed.deltas)
  match streamed.reply with
  | .ok (_, some usage) => s.emit (.usage step usage)
  | _ => s

/-- One step of the turn: one model call and the calls of its reply. -/
def runStep (systemPrompt : String) (step : ℕ) (s : Session) : StepEnd × Session :=
  if turn.stop s.log then (.finished .stopped, s)
  else
    let s := s.emit (.stepStart step)
    match requestOf env turn systemPrompt s with
    | .error e => (.finished (.failed e), s.emit (.error e))
    | .ok req =>
        let streamed := turn.llm s.log req
        let s := report step streamed (s.act (.complete req))
        match streamed.reply with
        | .error e => (.finished (.failed e.toText), s.emit (.error e.toText))
        | .ok (reply, _) =>
            let s := (s.act (.replied reply)).push (.assistant reply.content reply.toolCalls)
            if reply.toolCalls = [] then (.finished (.answered reply.content), s.emit (.final reply.content))
            else
              match processCalls env turn step 0 reply.toolCalls s with
              | (none, s) => (.finished .stopped, s)
              | (some (), s) => (.next, s.emit (.stepEnd step))

/-- The steps of the turn: `left` are still allowed. -/
def runSteps (systemPrompt : String) : ℕ → ℕ → Session → RunOutcome × Session
  | 0, _, s => (.stepLimit, s.emit (.error ("step budget of " ++ toString turn.cfg.maxSteps ++ " exhausted")))
  | left + 1, step, s =>
      match runStep env turn systemPrompt step s with
      | (.finished outcome, s) => (outcome, s)
      | (.next, s) => runSteps systemPrompt left (step + 1) s

def finish (outcome : RunOutcome) (s : Session) : RunOutcome × Session :=
  (outcome, s.emit (.done outcome.label))

/-- Run one user turn to completion. -/
def runTurnWith (s : Session) : RunOutcome × Session :=
  let systemPrompt := turnSystemPrompt turn s
  let s := s.push (.user turn.user)
  let (outcome, s) := runSteps env turn systemPrompt turn.cfg.maxSteps 1 s
  finish outcome s

end

end AgentRuntime.Loop
