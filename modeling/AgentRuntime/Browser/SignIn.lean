import AgentRuntime.Lib.Json
import AgentRuntime.Lib.JsonValue
import AgentRuntime.Lib.Machine
import AgentRuntime.Lib.Sha256

/-!
# `Browser.SignIn` — sign-in requests of a page (`agent-browser/src/signin.rs`)

A page asks for an address or a signature through a binding; the request waits here for core, and the answer goes to the
page context that asked. Contexts come and go with the browser's own events.

A label is one call of the bridge or a tick of the clock. The world also has what the code does not: every request with
the event and the context that raised it, and why a request left the queue.
-/

namespace AgentRuntime.Browser

open Json Machine

def binding : String := "__citrateHermesSignIn"

def maxPending : ℕ := 4

def maxMessageBytes : ℕ := 4096

/-- Time in nanoseconds. -/
abbrev Duration : Type := ℕ

def requestTtl : Duration := 120 * 1000000000

def maxPayloadBytes : ℕ := 16 * 1024

def codeUserRejected : ℤ := 4001

/-! ## Requests and answers -/

inductive SignInKind where
  | accounts
  | personalSign
deriving DecidableEq

structure SignInRequest where
  id : String
  kind : SignInKind
  raiseOrigin : String
  topFrame : Bool
  messageHex : Option String
  address : Option String
  createdMs : ℕ
deriving DecidableEq

inductive SignInAnswer where
  | accounts (addresses : List String)
  | signature (s : String)
  | refused (code : ℤ) (message : String)
deriving DecidableEq

def SignInAnswer.isRefusal : SignInAnswer → Bool
  | .refused _ _ => true
  | _ => false

def isHexDigit (c : Char) : Bool := c.isDigit || ('a' ≤ c && c ≤ 'f') || ('A' ≤ c && c ≤ 'F')

/-- `0x` and this many hex digits. -/
def isHex (digits : ℕ) (s : String) : Bool :=
  match s.toList with
  | '0' :: 'x' :: rest => rest.length == digits && rest.all isHexDigit
  | _ => false

def isAddress (s : String) : Bool := isHex 40 s

def isSignature (s : String) : Bool := isHex 130 s

/-- The bytes to sign: `0x`-hex is decoded, anything else is the text itself. -/
def messageBytes (data : String) : List UInt8 :=
  match data.toList with
  | '0' :: 'x' :: h => (Hex.decodeBytes? h).getD (utf8 data)
  | _ => utf8 data

def toHex (bytes : List UInt8) : String := String.ofList (Hex.encodeBytes bytes)

/-- `[data, address]`, or `[address, data]`. -/
def splitPersonalSign (params : List Value) : Option (String × Option String) := do
  let a ← (← params.head?).asStr
  match (params[1]?).bind Value.asStr with
  | some b =>
      if isAddress a ∧ ¬ isAddress b then some (b, some a)
      else some (a, if isAddress b then some b else none)
  | none => some (a, none)

/-! ## Events -/

structure CdpEvent where
  method : String
  params : Value
  sessionId : Option String

/-- A refusal that is sent at once. -/
structure Reply where
  contextId : ℤ
  pageId : ℕ
  answer : SignInAnswer
  sessionId : Option String
deriving DecidableEq

def refusalReply (session : Option String) (contextId : ℤ) (pageId : ℕ) (msg : String) : Reply where
  contextId := contextId
  pageId := pageId
  answer := .refused codeUserRejected msg
  sessionId := session

/-- An execution context, as the browser's event created it; `serial` counts the creations. -/
structure Ctx where
  frameId : String
  origin : String
  isDefault : Bool
  serial : ℕ
deriving DecidableEq

structure Waiting where
  req : SignInRequest
  contextId : ℤ
  pageId : ℕ
  at_ : Duration
deriving DecidableEq

structure Delivery where
  contextId : ℤ
  pageId : ℕ
deriving DecidableEq

def Waiting.delivery (w : Waiting) : Delivery where
  contextId := w.contextId
  pageId := w.pageId

/-- The entry of an object; `null` when there is none. -/
def field (v : Value) (key : String) : Value := (v.get key).getD .null

/-- The context that an event creates. -/
def created (ev : CdpEvent) (serial : ℕ) : Option (ℤ × Ctx) :=
  if ev.method = "Runtime.executionContextCreated" then do
    let c := field ev.params "context"
    let aux := field c "auxData"
    let id ← (field c "id").asI64
    let frame ← (field aux "frameId").asStr
    some (id, { frameId := frame, origin := (field c "origin").asStr.getD ""
                isDefault := (field aux "isDefault").asBool.getD false, serial })
  else none

/-- The context that an event destroys. -/
def destroyed (ev : CdpEvent) : Option ℤ :=
  if ev.method = "Runtime.executionContextDestroyed" then (field ev.params "executionContextId").asI64 else none

def cleared (ev : CdpEvent) : Bool := ev.method == "Runtime.executionContextsCleared"

def bindingCalled (ev : CdpEvent) : Bool :=
  ev.method == "Runtime.bindingCalled" && (field ev.params "name").asStr == some binding

/-- The context of a binding call. -/
def callContext (ev : CdpEvent) : Option ℤ := (field ev.params "executionContextId").asI64

/-- The payload of a binding call. -/
def callPayload (parse : String → Option Value) (ev : CdpEvent) : Option Value :=
  (field ev.params "payload").asStr.bind fun payload =>
    if maxPayloadBytes < payload.utf8ByteSize then none else parse payload

/-- The page's own number of a request. -/
def pageId (payload : Value) : Option ℕ := (field payload "id").asU64.filter fun n => 0 < n && n < 2 ^ 53

/-- What a payload asks for; a text when it is refused at once. -/
def asked (payload : Value) : Except String (SignInKind × Option String × Option String) :=
  match (field payload "method").asStr with
  | some "eth_requestAccounts" => .ok (.accounts, none, none)
  | some "personal_sign" =>
      match splitPersonalSign ((field payload "params").asArray.getD []) with
      | none => .error "personal_sign needs a message"
      | some (data, addr) =>
          let bytes := messageBytes data
          if bytes = [] ∨ maxMessageBytes < bytes.length then .error "the message is empty or too long"
          else .ok (.personalSign, some (toHex bytes), addr)
  | _ => .error "this request is not supported"

/-! ## The bridge -/

/-- Why a request left the queue. -/
inductive Departure where
  | taken
  | expired
  /-- Its context is gone. -/
  | ended
deriving DecidableEq

/-- A request with the binding call and the context that raised it. -/
structure Raised where
  entry : Waiting
  event : CdpEvent
  top : Option String
  ctx : Ctx

structure World where
  contexts : ℤ → Option Ctx
  waiting : List Waiting
  next : ℕ
  clock : Duration
  serial : ℕ
  raised : List Raised
  departed : List (Waiting × Departure)

inductive Label where
  /-- An event of the tab, with the tab's top frame and the time of day in milliseconds. -/
  | event (ev : CdpEvent) (top : Option String) (nowMs : ℕ)
  | pending
  | take (id : String) (answer : SignInAnswer)
  | tick (d : Duration)

namespace World

def init : World where
  contexts _ := none
  waiting := []
  next := 0
  clock := 0
  serial := 0
  raised := []
  departed := []

/-- The requests that do not satisfy `keep` leave. -/
def leave (w : World) (keep : Waiting → Bool) (why : Departure) : World :=
  { w with
    waiting := w.waiting.filter keep
    departed := w.departed ++ (w.waiting.filter fun x => !keep x).map fun x => (x, why) }

def signInId (next nowMs : ℕ) : String := "signin-" ++ toString next ++ "-" ++ toString (nowMs % 1000000000)

def onBinding (parse : String → Option Value) (w : World) (ev : CdpEvent) (top : Option String) (nowMs : ℕ) :
    World × Option Reply :=
  match callContext ev with
  | none => (w, none)
  | some contextId =>
      match callPayload parse ev with
      | none => (w, none)
      | some payload =>
          match pageId payload with
          | none => (w, none)
          | some page =>
              match asked payload with
              | .error msg => (w, some (refusalReply ev.sessionId contextId page msg))
              | .ok (kind, messageHex, address) =>
                  match w.contexts contextId with
                  | none =>
                      (w, some (refusalReply ev.sessionId contextId page "the page that asked could not be identified"))
                  | some ctx =>
                      if maxPending ≤ w.waiting.length then
                        (w, some (refusalReply ev.sessionId contextId page "too many requests are already waiting"))
                      else
                        let entry : Waiting :=
                          { req :=
                              { id := signInId (w.next + 1) nowMs, kind, raiseOrigin := ctx.origin
                                topFrame := ctx.isDefault && top == some ctx.frameId
                                messageHex, address, createdMs := nowMs }
                            contextId, pageId := page, at_ := w.clock }
                        ({ w with
                            next := w.next + 1, waiting := w.waiting ++ [entry]
                            raised := w.raised ++ [⟨entry, ev, top, ctx⟩] }, none)

def onEvent (parse : String → Option Value) (w : World) (ev : CdpEvent) (top : Option String) (nowMs : ℕ) :
    World × Option Reply :=
  match created ev w.serial with
  | some (id, ctx) => ({ w with contexts := Function.update w.contexts id (some ctx), serial := w.serial + 1 }, none)
  | none =>
      match destroyed ev with
      | some id =>
          ({ w with contexts := Function.update w.contexts id none }.leave (fun x => x.contextId != id) .ended, none)
      | none =>
          if cleared ev then ({ w with contexts := fun _ => none }.leave (fun _ => false) .ended, none)
          else if bindingCalled ev then w.onBinding parse ev top nowMs
          else (w, none)

def live (w : World) (x : Waiting) : Bool := w.clock - x.at_ < requestTtl

/-- The requests still waiting, and where the expired ones are refused. -/
def pending (w : World) : World × List SignInRequest × List Delivery :=
  (w.leave w.live .expired, (w.waiting.filter w.live).map Waiting.req,
    (w.waiting.filter fun x => !w.live x).map Waiting.delivery)

end World

/-- The answer fits what was asked. -/
def fits (kind : SignInKind) (answer : SignInAnswer) : Bool :=
  match kind, answer with
  | .accounts, .accounts a => a.length == 1 && a.all isAddress
  | .personalSign, .signature s => isSignature s
  | _, .refused code message => 1000 ≤ code && code ≤ 4999 && message.utf8ByteSize ≤ 300
  | _, _ => false

namespace World

def take (w : World) (id : String) (answer : SignInAnswer) : World × Except String Delivery :=
  match w.waiting.find? fun x => x.req.id == id with
  | none => (w, .error "no sign-in request with that id is waiting")
  | some x =>
      if fits x.req.kind answer then
        ({ w with waiting := w.waiting.erase x, departed := w.departed ++ [(x, .taken)] }, .ok x.delivery)
      else (w, .error "that answer does not fit the request")

def exec (parse : String → Option Value) (w : World) : Label → World
  | .event ev top nowMs => (w.onEvent parse ev top nowMs).1
  | .pending => w.pending.1
  | .take id answer => (w.take id answer).1
  | .tick d => { w with clock := w.clock + d }

end World

/-- Where a step hands an answer to: an answer of core, or a refusal of an expired request. -/
def handed (w : World) : Label → List (Delivery × Option SignInAnswer)
  | .take id answer =>
      match (w.take id answer).2 with
      | .ok d => [(d, some answer)]
      | .error _ => []
  | .pending => w.pending.2.2.map fun d => (d, none)
  | _ => []

end AgentRuntime.Browser
