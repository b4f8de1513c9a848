import AgentRuntime.Lib.Words

/-!
# `Loop.Message` — the transcript, tools and events (`agent-loop/src/lib.rs`)

The data the turn loop reads and writes: messages, tool specifications with their annotations, what a host
returns for a call, and the typed event stream.
-/

namespace AgentRuntime.Loop

/-! ## Messages -/

inductive Role where
  | system
  | user
  | assistant
  | tool
deriving DecidableEq

/-- One tool invocation proposed by the model, `arguments` as the raw text it emitted. -/
structure ToolCall where
  id : String
  name : String
  arguments : String
deriving DecidableEq

/-- One message in the transcript. -/
structure Message where
  role : Role
  content : String
  toolCalls : List ToolCall
  toolCallId : Option String
deriving DecidableEq

namespace Message

def system (content : String) : Message where
  role := .system
  content := content
  toolCalls := []
  toolCallId := none

def user (content : String) : Message where
  role := .user
  content := content
  toolCalls := []
  toolCallId := none

def assistant (content : String) (toolCalls : List ToolCall) : Message where
  role := .assistant
  content := content
  toolCalls := toolCalls
  toolCallId := none

def toolResult (callId content : String) : Message where
  role := .tool
  content := content
  toolCalls := []
  toolCallId := some callId

end Message

/-! ## Tools -/

/-- Where a tool's capability lives. -/
inductive HostKind where
  | core
  | sidecar
deriving DecidableEq, Repr

/-- What running a tool can change. -/
inductive Effect where
  | none
  | write
  | spend
  | sign
deriving DecidableEq

inductive Trust where
  | trusted
  | untrusted
deriving DecidableEq

/-- The annotations that drive the taint downgrade; both default to the safe side when absent. -/
structure ToolAnnotations where
  effect : Option Effect
  trust : Option Trust
deriving DecidableEq

namespace ToolAnnotations

/-- True unless the tool is annotated `effect: none`. -/
def isEffectful (a : ToolAnnotations) : Bool := a.effect != some .none

/-- True unless the tool is annotated `trust: trusted`. -/
def outputUntrusted (a : ToolAnnotations) : Bool := a.trust != some .trusted

end ToolAnnotations

/-- A tool offered to the model. -/
structure ToolSpec where
  name : String
  description : String
  host : HostKind
  annotations : ToolAnnotations
deriving DecidableEq

/-- What a host returns for one tool call. -/
inductive ToolOutcome where
  | ok (output : String)
  /-- This output is untrusted whatever the tool's annotation says. -/
  | untrusted (output : String)
  /-- The host vouches for this output whatever the tool's annotation says. -/
  | vouched (output : String)
  | denied (why : String)
  | error (e : String)
deriving DecidableEq

namespace ToolOutcome

/-- The tool message the model sees. -/
def toContent : ToolOutcome → String
  | .ok s | .untrusted s | .vouched s => s
  | .denied why => "declined: " ++ why ++ ". Nothing was done."
  | .error e => "tool error: " ++ e

def status : ToolOutcome → String
  | .ok _ | .untrusted _ | .vouched _ => "ok"
  | .denied _ => "denied"
  | .error _ => "error"

end ToolOutcome

/-- Why a tainted session's effectful call is declined when no member can be asked. -/
def cannotAskReason (source : Option String) : String :=
  let fromText := (source.map fun s => " (from " ++ s ++ ")").getD ""
  "this session read untrusted content" ++ fromText ++
    ", so this action needs a member's explicit approval, and no member can be asked in this session " ++
    "(it was not opened by an app that shows approval cards, for example a headless or scheduled run)"

/-! ## The model -/

structure TokenUsage where
  promptTokens : ℕ
  completionTokens : ℕ
  generationMs : Option ℕ
  promptMs : Option ℕ
deriving DecidableEq

/-- The assistant's reply: final text, tool calls, or both. -/
structure AssistantTurn where
  content : String
  toolCalls : List ToolCall
deriving DecidableEq

inductive LlmError where
  | transport (m : String)
  | provider (m : String)
  | badResponse (m : String)
deriving DecidableEq

def LlmError.toText : LlmError → String
  | .transport m => "model transport error: " ++ m
  | .provider m => "model provider error: " ++ m
  | .badResponse m => "model returned an unusable response: " ++ m

/-- One chat-completions request. -/
structure CompletionRequest where
  model : String
  messages : List Message
  tools : List ToolSpec
  maxTokens : ℕ
deriving DecidableEq

/-! ## Events and outcomes -/

inductive Event where
  | stepStart (step : ℕ)
  /-- `host` is `none` when the call is not dispatched to any host. -/
  | toolCall (step : ℕ) (call : ToolCall) (host : Option HostKind) (hic hicReason : Option String)
  | toolResult (step : ℕ) (callId status content : String)
  | stepEnd (step : ℕ)
  | tainted (step : ℕ) (source reason : String)
  | assistantDelta (step : ℕ) (text : String)
  | final (content : String)
  | usage (step : ℕ) (usage : TokenUsage)
  | plan (steps : List String)
  | verifier (step name : String) (passed : Bool) (detail : String)
  | selfReview (step : String) (attempt : ℕ) (text label : String)
  | error (message : String)
  | done (outcome : String)
deriving DecidableEq

structure LoopConfig where
  model : String
  systemPrompt : String
  maxSteps : ℕ
  maxToolCallsPerStep : ℕ
  maxTokens : ℕ

/-- How a turn ended. -/
inductive RunOutcome where
  | answered (content : String)
  | stopped
  | stepLimit
  | failed (message : String)
deriving DecidableEq

def RunOutcome.label : RunOutcome → String
  | .answered _ => "answered"
  | .stopped => "stopped"
  | .stepLimit => "step_limit"
  | .failed _ => "failed"

/-! ## What a step attempt is judged on -/

/-- One tool call made during a step attempt, with how it ended. -/
structure ToolRecord where
  name : String
  arguments : String
  content : String
  /-- "ok", "denied" or "error". -/
  status : String
deriving DecidableEq

/-- What a verifier sees: the step's final answer and every tool call made in the attempt. -/
structure VerifyContext where
  step : String
  answer : String
  tools : List ToolRecord
deriving DecidableEq

/-- One step attempt, as the self-reviewer sees it; a verdict is never part of it. -/
structure ReviewRequest where
  step : String
  attempt : ℕ
  instruction : String
  answer : String
deriving DecidableEq

end AgentRuntime.Loop
