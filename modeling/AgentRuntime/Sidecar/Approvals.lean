import AgentRuntime.Lib.Transition

/-!
# `Sidecar.Approvals` — approval cards (`agent-sidecar/src/action_approvals.rs`, `mcp_approvals.rs`)

A call that needs the member's decision is parked as a card; it is released by an explicit allow, and declined by a
decline, a stop of the session, or the card's deadline. The two queues of a session are one algorithm (`QueueKind`).

`request` waits on a condition variable and gives up the lock while it sleeps. A step of the world is one critical
section of one thread: taking the lock and parking the card with the first look at it, one look after a wake-up, one
`decide`. The host looks at the stop flag once more when the call is released (`settle`).
-/

namespace AgentRuntime.Sidecar

open Transition

/-! ## Cards -/

structure Hints where
  readOnly : Bool
  destructive : Bool
  idempotent : Bool
  openWorld : Bool

/-- What an MCP card shows. -/
structure McpPending where
  id : String
  kind : String
  callId : String
  server : String
  remoteTool : String
  tool : String
  hic : String
  subject : String
  arguments : Option String
  hints : Option Hints
  reason : String
  url : Option String
  urlHost : Option String
  warnings : List String
  expiresInSecs : ℕ

/-- What the two queues differ in: their cards, the start of their ids and their messages. -/
structure QueueKind (α : Type) where
  idOf : α → String
  subjectOf : α → String
  /-- The card as it is queued: with its id and the seconds it waits. -/
  queued : α → String → ℕ → α
  idStart : String
  gone : String
  mismatch : String
  full : String
  declined : String
  noDecision : ℕ → String
  idOf_queued : ∀ view id secs, idOf (queued view id secs) = id
  subjectOf_queued : ∀ view id secs, subjectOf (queued view id secs) = subjectOf view

def mcpApprovals : QueueKind McpPending where
  idOf := McpPending.id
  subjectOf := McpPending.subject
  queued view id secs := { view with id := id, expiresInSecs := secs }
  idStart := "mcp-"
  gone := "that request is no longer waiting for a decision"
  mismatch := "the decision does not match what is waiting; nothing was decided"
  full := "too many requests are already waiting for the member"
  declined := "the member declined this request"
  noDecision secs := "no decision within " ++ toString secs ++ "s, so it was declined"
  idOf_queued _ _ _ := rfl
  subjectOf_queued _ _ _ := rfl

/-! ## The queue -/

/-- At most this many cards wait at once. -/
def maxWaiting : ℕ := 8

structure Waiting (α : Type) where
  view : α
  deadline : ℕ
  answer : Option Bool

/-- `next` counts the cards, in 64 bits. -/
structure Inner (α : Type) where
  next : ℕ
  waiting : List (Waiting α)

namespace Inner

variable {α : Type} (k : QueueKind α)

def unanswered (q : Inner α) : ℕ := q.waiting.countP fun e => e.answer.isNone

/-- The first card of that id without an answer gets one, when the subject is the one it shows. -/
def answerFirst (id : String) (allow : Bool) (subject : String) : List (Waiting α) → Except String (List (Waiting α))
  | [] => .error k.gone
  | e :: es =>
      if k.idOf e.view = id ∧ e.answer = none then
        if k.subjectOf e.view ≠ subject then .error k.mismatch
        else .ok ({ e with answer := some allow } :: es)
      else (answerFirst id allow subject es).map fun es' => e :: es'

/-- The member's decision on a card. -/
def decide (q : Inner α) (id : String) (allow : Bool) (subject : String) : Except String Unit × Inner α :=
  match answerFirst k id allow subject q.waiting with
  | .error e => (.error e, q)
  | .ok waiting => (.ok (), { q with waiting })

/-- The locked part of `request` before it waits: the card is queued under a new id. -/
def park (q : Inner α) (timeout : ℕ) (view : α) (deadline : ℕ) : Except String (α × Inner α) :=
  if maxWaiting ≤ q.unanswered then .error k.full
  else
    let next := (q.next + 1) % 2 ^ 64
    let card := k.queued view (k.idStart ++ toString next) (timeout / 1000)
    .ok (card, { next, waiting := q.waiting ++ [{ view := card, deadline, answer := none }] })

/-- One look of the waiting call at its card: how it ends, if it ends. -/
def outcome (q : Inner α) (timeout : ℕ) (id : String) (deadline : ℕ) (stopped : Bool) (now : ℕ) :
    Option (Except String Unit) :=
  match (q.waiting.find? fun e => k.idOf e.view == id).bind Waiting.answer with
  | some true => some (.ok ())
  | some false => some (.error k.declined)
  | none =>
      if stopped then some (.error "the session was stopped before the member decided")
      else if deadline ≤ now then some (.error (k.noDecision (timeout / 1000)))
      else none

/-- `waiting.retain`. -/
def release (q : Inner α) (id : String) : Inner α :=
  { q with waiting := q.waiting.filter fun e => k.idOf e.view != id }

end Inner

/-! ## The world -/

/-- What became of a call the member was asked about. -/
inductive Settled where
  | ran
  | denied (why : String)
deriving DecidableEq

/-- Where a request is. `stoppedBefore` is what the stop flag was when it returned. -/
inductive Request (α : Type) where
  | absent
  /-- The deadline is set; the lock is not taken yet. -/
  | entering (view : α) (deadline : ℕ)
  | waiting (card : α) (deadline : ℕ)
  /-- It returned; `card` is what it had queued. -/
  | returned (card : Option (α × ℕ)) (result : Except String Unit) (stoppedBefore : Bool)
  | settled (card : Option (α × ℕ)) (result : Except String Unit) (stoppedBefore : Bool) (what : Settled)

/-- The card a request queued, with its deadline. -/
def Request.card? {α : Type} : Request α → Option (α × ℕ)
  | .waiting card deadline => some (card, deadline)
  | .returned card _ _ => card
  | .settled card _ _ _ => card
  | _ => none

def Request.result? {α : Type} : Request α → Option (Except String Unit)
  | .returned _ result _ => some result
  | .settled _ result _ _ => some result
  | _ => none

/-- A decision that returned `Ok`. -/
structure Decision where
  id : String
  allow : Bool
  subject : String
  time : ℕ
deriving DecidableEq

/-- One session's queue, its clock, the stop flag, every request by number, and the accepted decisions. -/
structure ApprovalWorld (α : Type) where
  inner : Inner α
  now : ℕ
  stopped : Bool
  requests : ℕ → Request α
  made : ℕ
  accepted : List Decision

inductive ApprovalLabel (α : Type) where
  /-- A call asks: its deadline is set. -/
  | request (view : α)
  /-- The request takes the lock, queues its card and looks at it. -/
  | enter (i : ℕ)
  /-- The waiting request wakes up and looks at its card. -/
  | wake (i : ℕ)
  | decide (id : String) (allow : Bool) (subject : String)
  | stop
  | tick (ms : ℕ)
  /-- The host goes on with what the request returned. -/
  | settle (i : ℕ)

namespace ApprovalWorld

variable {α : Type} (k : QueueKind α) (timeout : ℕ)

def init : ApprovalWorld α where
  inner := { next := 0, waiting := [] }
  now := 0
  stopped := false
  requests := fun _ => .absent
  made := 0
  accepted := []

def setRequest (w : ApprovalWorld α) (i : ℕ) (r : Request α) : ApprovalWorld α :=
  { w with requests := Function.update w.requests i r }

/-- The request `i` looks at its card. -/
def look (w : ApprovalWorld α) (i : ℕ) (card : α) (deadline : ℕ) : ApprovalWorld α :=
  match w.inner.outcome k timeout (k.idOf card) deadline w.stopped w.now with
  | some result =>
      { w with inner := w.inner.release k (k.idOf card) }.setRequest i
        (.returned (some (card, deadline)) result w.stopped)
  | none => w.setRequest i (.waiting card deadline)

/-- `SidecarHost::execute_with_explicit_approval` after `request` returned; the MCP host does the same. -/
def settle (w : ApprovalWorld α) (i : ℕ) : ApprovalWorld α :=
  match w.requests i with
  | .returned card result stoppedBefore =>
      w.setRequest i <| .settled card result stoppedBefore <|
        match result with
        | .ok () => if w.stopped then .denied "the session was stopped; nothing was done" else .ran
        | .error why => .denied why
  | _ => w

/-- One critical section of one thread. -/
def exec (w : ApprovalWorld α) : ApprovalLabel α → ApprovalWorld α
  | .request view => { w.setRequest w.made (.entering view (w.now + timeout)) with made := w.made + 1 }
  | .enter i =>
      match w.requests i with
      | .entering view deadline =>
          match w.inner.park k timeout view deadline with
          | .error e => w.setRequest i (.returned none (.error e) w.stopped)
          | .ok (card, inner) => { w with inner }.look k timeout i card deadline
      | _ => w
  | .wake i =>
      match w.requests i with
      | .waiting card deadline => w.look k timeout i card deadline
      | _ => w
  | .decide id allow subject =>
      match w.inner.decide k id allow subject with
      | (.error _, _) => w
      | (.ok (), inner) => { w with inner, accepted := w.accepted ++ [{ id, allow, subject, time := w.now }] }
  | .stop => { w with stopped := true }
  | .tick ms => { w with now := w.now + ms }
  | .settle i => w.settle i

end ApprovalWorld

end AgentRuntime.Sidecar
