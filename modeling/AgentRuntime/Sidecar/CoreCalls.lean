import AgentRuntime.Lib.Transition
import AgentRuntime.Loop.Message

/-!
# `Sidecar.CoreCalls` — calls that core answers (`agent-sidecar/src/sessions.rs`)

A core-hosted call is registered in the session's table under the id the model chose, announced, and waited for: core
posts its answer to the id (`deliver`), and the wait also ends by a stop or a deadline. One session runs one call at a
time; core posts whenever it likes.

A step of the world is one access of one thread. `deliver` has two, with the table unlocked in between. A post says
which call it answers, as core means it: the code sees the id only.
-/

namespace AgentRuntime.Sidecar

open Loop Transition

/-! ## The world -/

/-- A channel: what was sent and not received, by which post, and its two ends. -/
structure Channel where
  value : Option (ToolOutcome × ℕ)
  sender : Bool
  receiver : Bool

def Channel.new : Channel where
  value := none
  sender := true
  receiver := true

/-- Where the loop is in a core-hosted call. `n` is the number of the call's channel. -/
inductive CallPc where
  | idle
  | registered (id : String) (n : ℕ)
  | announced (id : String) (n : ℕ)
  | waiting (id : String) (n started : ℕ)
  /-- The last look at the channel timed out. -/
  | checking (id : String) (n started : ℕ)
  /-- The wait is over; the entry in the table is not removed yet. -/
  | ended (id : String) (n : ℕ) (outcome : ToolOutcome) (post : Option ℕ)
  | cleaned (id : String) (n : ℕ) (outcome : ToolOutcome) (post : Option ℕ)

/-- One `deliver` of core: `target` is the call it answers, `channel` the sender it took from the table. -/
structure Delivery where
  id : String
  outcome : ToolOutcome
  target : ℕ
  channel : Option ℕ
  result : Option Bool

/-- One session. `results` are the calls that returned, each with the post its outcome came from, if any. -/
structure CoreWorld where
  pending : String → Option ℕ
  armed : String → Option ℕ
  channels : ℕ → Channel
  made : ℕ
  loop : CallPc
  stopped : Bool
  now : ℕ
  results : ℕ → Option (ToolOutcome × Option ℕ)
  deliveries : ℕ → Option Delivery
  posts : ℕ

inductive CoreLabel where
  /-- `before_announce`. -/
  | register (id : String)
  /-- The `tool_call` event is emitted. -/
  | announce
  /-- `execute` takes the armed receiver. -/
  | execute
  /-- `recv_timeout`. -/
  | poll
  /-- The stop flag and the deadline are looked at. -/
  | check
  /-- The entry of the id is removed. -/
  | cleanup
  /-- The call returns; its receiver is dropped. -/
  | finish
  /-- `deliver` takes the sender of the id from the table. -/
  | post (id : String) (outcome : ToolOutcome) (target : ℕ)
  /-- `deliver` sends. -/
  | send (k : ℕ)
  | stop
  | tick (ms : ℕ)

namespace CoreWorld

def init : CoreWorld where
  pending := fun _ => none
  armed := fun _ => none
  channels := fun _ => .new
  made := 0
  loop := .idle
  stopped := false
  now := 0
  results := fun _ => none
  deliveries := fun _ => none
  posts := 0

def setChannel (w : CoreWorld) (n : ℕ) (c : Channel) : CoreWorld :=
  { w with channels := Function.update w.channels n c }

/-- The sender under `id`, if there is one, is dropped. -/
def dropSender (w : CoreWorld) (id : String) : CoreWorld :=
  match w.pending id with
  | some m => w.setChannel m { w.channels m with sender := false }
  | none => w

/-- `register`: a new channel, its sender in the table. -/
def register (w : CoreWorld) (id : String) : CoreWorld :=
  let w := w.dropSender id
  { w.setChannel w.made .new with
    pending := Function.update w.pending id (some w.made)
    made := w.made + 1 }

/-- `CoreHost::execute` up to its wait. -/
def startWait (w : CoreWorld) (id : String) : CoreWorld :=
  match w.armed id with
  | some n => { w with armed := Function.update w.armed id none, loop := .waiting id n w.now }
  | none => { w.register id with loop := .waiting id w.made w.now }

/-- One `recv_timeout` of the waiting call. -/
def recv (w : CoreWorld) (id : String) (n started : ℕ) : CoreWorld :=
  match (w.channels n).value with
  | some (o, k) => { w.setChannel n { w.channels n with value := none } with loop := .ended id n o (some k) }
  | none =>
      if (w.channels n).sender then { w with loop := .checking id n started }
      else { w with loop := .ended id n (.error "the app closed this tool call") none }

variable (deadline : ℕ)

/-- After a `recv_timeout` that timed out. -/
def lookAround (w : CoreWorld) (id : String) (n started : ℕ) : CoreWorld :=
  if w.stopped then { w with loop := .ended id n (.error "stopped before the app answered") none }
  else if deadline ≤ w.now - started then
    { w with
      loop := .ended id n (.error ("the app did not answer within " ++ toString (deadline / 1000) ++ "s")) none }
  else { w with loop := .waiting id n started }

/-- `deliver`, after it took the sender. -/
def sendTo (w : CoreWorld) (k : ℕ) (d : Delivery) (n : ℕ) : CoreWorld :=
  let arrived := (w.channels n).receiver
  { w.setChannel n { w.channels n with
      sender := false
      value := if arrived then some (d.outcome, k) else (w.channels n).value } with
    deliveries := Function.update w.deliveries k (some { d with result := some arrived }) }

/-- One access of one thread. -/
def exec (w : CoreWorld) : CoreLabel → CoreWorld
  | .register id =>
      match w.loop with
      | .idle =>
          { w.register id with
            armed := Function.update w.armed id (some w.made)
            loop := .registered id w.made }
      | _ => w
  | .announce =>
      match w.loop with
      | .registered id n => { w with loop := .announced id n }
      | _ => w
  | .execute =>
      match w.loop with
      | .announced id _ => w.startWait id
      | _ => w
  | .poll =>
      match w.loop with
      | .waiting id n started => w.recv id n started
      | _ => w
  | .check =>
      match w.loop with
      | .checking id n started => w.lookAround deadline id n started
      | _ => w
  | .cleanup =>
      match w.loop with
      | .ended id n o post =>
          { w.dropSender id with
            pending := Function.update w.pending id none
            loop := .cleaned id n o post }
      | _ => w
  | .finish =>
      match w.loop with
      | .cleaned _ n o post =>
          { w.setChannel n { w.channels n with receiver := false } with
            loop := .idle
            results := Function.update w.results n (some (o, post)) }
      | _ => w
  | .post id outcome target =>
      let result := if (w.pending id).isSome then none else some false
      { w with
        pending := Function.update w.pending id none
        deliveries := Function.update w.deliveries w.posts
          (some { id, outcome, target, channel := w.pending id, result })
        posts := w.posts + 1 }
  | .send k =>
      match w.deliveries k with
      | some d =>
          match d.channel, d.result with
          | some n, none => w.sendTo k d n
          | _, _ => w
      | none => w
  | .stop => { w with stopped := true }
  | .tick ms => { w with now := w.now + ms }

end CoreWorld

/-! ## Runs -/

/-- The call of channel `n` still waits for its answer. -/
def CallPc.Attends (n : ℕ) : CallPc → Prop
  | .registered _ m => m = n
  | .announced _ m => m = n
  | .waiting _ m _ => m = n
  | .checking _ m _ => m = n
  | _ => False

/-- **No answer crosses the end of a call.** A post that finds an entry finds the one of the call it answers; what is
    sent reaches a call that still waits, or none; and a wait is not given up while an answer is there. -/
def NotCrossed (deadline : ℕ) (w : CoreWorld) : CoreLabel → Prop
  | .post id _ target => ∀ n, w.pending id = some n → n = target
  | .send k => ∀ d n, w.deliveries k = some d → d.channel = some n → d.result = none →
      (w.channels n).receiver = true → w.loop.Attends n
  | .check => ∀ id n started, w.loop = .checking id n started → (w.stopped = true ∨ deadline ≤ w.now - started) →
      (w.channels n).value = none
  | _ => True

def CoreWorld.Reachable (deadline : ℕ) : CoreWorld → Prop :=
  Reach (· = CoreWorld.init) fun w l w' => NotCrossed deadline w l ∧ w' = w.exec deadline l

end AgentRuntime.Sidecar
