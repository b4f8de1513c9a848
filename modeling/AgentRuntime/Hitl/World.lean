import AgentRuntime.Hitl.Queue
import AgentRuntime.Lib.Machine

/-!
# `Hitl.World` — the queue and everyone who calls it

A submission is a future: it runs to its one await point, waits on its channel, and its guard cleans up when
it is resolved, times out or is dropped. A freeze is three separate accesses. `World.exec` runs one access of
one caller, so a list of labels is one interleaving of them; a label that is not enabled does nothing.

Reading the freeze flag inside a critical section is one step with the section: nobody else can see the queue
between the two.
-/

namespace AgentRuntime.Hitl

/-! ## Channels -/

/-- A `oneshot` channel, from both ends. -/
structure Oneshot where
  value : Option ApprovalOutcome
  senderAlive : Bool
  receiverAlive : Bool
deriving DecidableEq

def Oneshot.channel : Oneshot where
  value := none
  senderAlive := true
  receiverAlive := true

/-- `Sender::send` consumes the sender; the value arrives when the receiver is still there. -/
def Oneshot.send (c : Oneshot) (o : ApprovalOutcome) : Oneshot :=
  if c.receiverAlive then { c with value := some o, senderAlive := false }
  else { c with senderAlive := false }

/-! ## Submissions -/

/-- How a submission's future ended: resolved, or dropped while it waited. -/
inductive Ending (ρ : Type) where
  | resolved (r : ρ)
  | dropped
deriving DecidableEq

/-- Where a FIFO submission is. -/
inductive FifoPc where
  | absent
  /-- Before the first freeze check. -/
  | entered (call : ToolCall)
  /-- Before `is_trusted`. -/
  | trusting (call : ToolCall)
  /-- Trusted; before `prior_unknown_outcome`. -/
  | recalling (call : ToolCall)
  /-- Before the nonce is drawn. -/
  | drawing (call : ToolCall)
  /-- Before the locked section. -/
  | pushing (call : ToolCall) (draw : ℕ)
  /-- Awaiting its channel, the guard in place. -/
  | waiting (call : ToolCall) (draw : ℕ)
  /-- The channel is dropped; the guard has not run yet. -/
  | leaving (call : ToolCall) (draw : ℕ) (result : Ending Resolution)
  | done (result : Ending Resolution)
deriving DecidableEq

/-- What `submit_for_action` is called with. -/
structure RoleSubmission where
  call : ToolCall
  payload : List UInt8
  quorum : Quorum
  proposer : Signer
deriving DecidableEq

/-- Where a role-aware submission is. -/
inductive RolePc where
  | absent
  | entered (sub : RoleSubmission)
  | drawing (sub : RoleSubmission)
  | inserting (sub : RoleSubmission) (draw : ℕ)
  | waiting (sub : RoleSubmission) (draw : ℕ)
  | leaving (sub : RoleSubmission) (draw : ℕ) (result : Ending ApprovalOutcomePublic)
  | done (result : Ending ApprovalOutcomePublic)
deriving DecidableEq

/-- Where a `freeze_and_drain` call is, after it set the flag. -/
inductive FreezePc where
  | absent
  | drainingFifo
  | drainingRole (drained : ℕ)
  | returned (drained : ℕ)
deriving DecidableEq

/-- The queue, its clock, and every call made on it, numbered in the order they were made. -/
structure World where
  queue : ApprovalQueue
  now : ℕ
  fifo : ℕ → FifoPc
  fifoChan : ℕ → Oneshot
  fifoNext : ℕ
  role : ℕ → RolePc
  roleChan : ℕ → Oneshot
  roleNext : ℕ
  freezes : ℕ → FreezePc
  freezeNext : ℕ
  /-- `approve_by_id_outcome_unknown` calls between their two accesses. -/
  unknowns : List (String × UnknownOutcome)

def World.init : World where
  queue := .new
  now := 0
  fifo := fun _ => .absent
  fifoChan := fun _ => .channel
  fifoNext := 0
  role := fun _ => .absent
  roleChan := fun _ => .channel
  roleNext := 0
  freezes := fun _ => .absent
  freezeNext := 0
  unknowns := []

/-- One access by one caller. -/
inductive Label where
  | submit (call : ToolCall)
  /-- The FIFO submission's next access before it waits. -/
  | advance (i : ℕ)
  | poll (i : ℕ)
  | timeOut (i : ℕ)
  /-- The waiting future is dropped. -/
  | cancel (i : ℕ)
  /-- The guard of a submission that stopped waiting. -/
  | cleanup (i : ℕ)
  | approveById (callId : String)
  | rejectById (callId : String)
  | rememberUnknown (callId : String) (outcome : UnknownOutcome)
  /-- The second access of the `k`-th such call under way. -/
  | approveUnknown (k : ℕ)
  | addGrant (toolName : String)
  | tick (seconds : ℕ)
  | submitForAction (sub : RoleSubmission)
  | advanceRole (i : ℕ)
  | pollRole (i : ℕ)
  | timeOutRole (i : ℕ)
  | cancelRole (i : ℕ)
  | cleanupRole (i : ℕ)
  | addSignature (callId : String) (sig : Signature)
  | rejectAction (callId : String)
  | freeze
  | advanceFreeze (f : ℕ)
  | thaw

namespace World

/-! ## The FIFO track -/

def setFifo (w : World) (i : ℕ) (pc : FifoPc) : World := { w with fifo := Function.update w.fifo i pc }

def setFifoChan (w : World) (i : ℕ) (c : Oneshot) : World :=
  { w with fifoChan := Function.update w.fifoChan i c }

def setQueue (w : World) (q : ApprovalQueue) : World := { w with queue := q }

/-- `submit_with_resolution`, one access at a time. -/
def advanceFifo (w : World) (i : ℕ) : World :=
  match w.fifo i with
  | .entered call =>
      if w.queue.frozen then w.setFifo i (.done (.resolved (.decided .rejected)))
      else w.setFifo i (.trusting call)
  | .trusting call =>
      let (trusted, q) := w.queue.isTrusted w.now call.name
      (w.setQueue q).setFifo i (if trusted then .recalling call else .drawing call)
  | .recalling call =>
      if (w.queue.priorUnknownOutcome call.callId).isNone then
        w.setFifo i (.done (.resolved (.decided .autoApproved)))
      else w.setFifo i (.drawing call)
  | .drawing call =>
      (w.setQueue { w.queue with nextNonce := w.queue.nextNonce + 1 }).setFifo i
        (.pushing call w.queue.nextNonce)
  | .pushing call draw =>
      match w.queue.enqueue call i (nonceOf draw) with
      | none => w.setFifo i (.done (.resolved (.decided .rejected)))
      | some q => (w.setQueue q).setFifo i (.waiting call draw)
  | _ => w

def resolutionOf : ApprovalOutcome → Resolution
  | .approved => .decided .approved
  | .rejected => .decided .rejected
  | .submittedOutcomeUnknown u => .submittedOutcomeUnknown u

/-- The future stops waiting: its receiver is dropped, its guard runs next. -/
def leaveFifo (w : World) (i : ℕ) (result : Ending Resolution) : World :=
  match w.fifo i with
  | .waiting call draw =>
      (w.setFifoChan i { w.fifoChan i with receiverAlive := false }).setFifo i (.leaving call draw result)
  | _ => w

/-- The future is polled: a value, or a sender that is gone, ends the wait. -/
def pollFifo (w : World) (i : ℕ) : World :=
  match (w.fifoChan i).value with
  | some o => w.leaveFifo i (.resolved (resolutionOf o))
  | none =>
      if (w.fifoChan i).senderAlive then w
      else w.leaveFifo i (.resolved (.decided .rejected))

/-- The entry `evict_exact` takes out, whose sender is dropped with it. -/
def evicted (w : World) (callId : String) (nonce : ℕ) : Option PendingEntry :=
  w.queue.pending.find? (ApprovalQueue.isEntryOf callId nonce)

/-- `FifoEvictGuard::drop`. -/
def cleanupFifo (w : World) (i : ℕ) : World :=
  match w.fifo i with
  | .leaving call draw result =>
      let w' := (w.setQueue (w.queue.evictExact call.callId (nonceOf draw))).setFifo i (.done result)
      match w.evicted call.callId (nonceOf draw) with
      | some e => w'.setFifoChan e.resolver { w'.fifoChan e.resolver with senderAlive := false }
      | none => w'
  | _ => w

/-- `resolve_head_by_id`. -/
def resolveHeadById (w : World) (callId : String) (outcome : ApprovalOutcome) :
    Except SignatureError Unit × World :=
  match w.queue.popHead callId with
  | none => (.error .unknownCallId, w)
  | some (entry, q) =>
      (if (w.fifoChan entry.resolver).receiverAlive then .ok () else .error .resolverGone,
        (w.setQueue q).setFifoChan entry.resolver ((w.fifoChan entry.resolver).send outcome))

/-! ## The role-aware track -/

def setRole (w : World) (i : ℕ) (pc : RolePc) : World := { w with role := Function.update w.role i pc }

def setRoleChan (w : World) (i : ℕ) (c : Oneshot) : World :=
  { w with roleChan := Function.update w.roleChan i c }

/-- `submit_for_action`, one access at a time. -/
def advanceRole (w : World) (i : ℕ) : World :=
  match w.role i with
  | .entered sub =>
      if w.queue.frozen then w.setRole i (.done (.resolved .rejected))
      else if sub.quorum = .autoApprove then w.setRole i (.done (.resolved .autoApproved))
      else w.setRole i (.drawing sub)
  | .drawing sub =>
      (w.setQueue { w.queue with nextNonce := w.queue.nextNonce + 1 }).setRole i
        (.inserting sub w.queue.nextNonce)
  | .inserting sub draw =>
      let entry : RoleAwareEntry :=
        { quorum := sub.quorum
          proposer := sub.proposer
          payload := sub.payload
          signatures := []
          resolver := i
          nonce := nonceOf draw }
      match w.queue.insertRole sub.call.callId entry with
      | none => w.setRole i (.done (.resolved .rejected))
      | some q => (w.setQueue q).setRole i (.waiting sub draw)
  | _ => w

def publicOf : ApprovalOutcome → ApprovalOutcomePublic
  | .approved => .approved
  | .rejected => .rejected
  | .submittedOutcomeUnknown _ => .submittedOutcomeUnknown

def leaveRole (w : World) (i : ℕ) (result : Ending ApprovalOutcomePublic) : World :=
  match w.role i with
  | .waiting sub draw =>
      (w.setRoleChan i { w.roleChan i with receiverAlive := false }).setRole i (.leaving sub draw result)
  | _ => w

def pollRole (w : World) (i : ℕ) : World :=
  match (w.roleChan i).value with
  | some o => w.leaveRole i (.resolved (publicOf o))
  | none =>
      if (w.roleChan i).senderAlive then w
      else w.leaveRole i (.resolved .rejected)

/-- The sender of the entry under `callId` is dropped. -/
def dropRoleSender (w : World) (callId : String) (nonce : ℕ) : World :=
  match w.queue.rolePending.lookup callId with
  | some e =>
      if e.nonce = nonce then
        w.setRoleChan e.resolver { w.roleChan e.resolver with senderAlive := false }
      else w
  | none => w

/-- `RoleEvictGuard::drop`. -/
def cleanupRole (w : World) (i : ℕ) : World :=
  match w.role i with
  | .leaving sub draw result =>
      ((w.dropRoleSender sub.call.callId (nonceOf draw)).setQueue
        (w.queue.evictRole sub.call.callId (nonceOf draw))).setRole i (.done result)
  | _ => w

/-- `add_signature`. -/
def addSignature (ctx : SigningContext) (w : World) (callId : String) (sig : Signature) :
    Except SignatureError Unit × World :=
  match w.queue.addSignature ctx callId sig with
  | .error e => (.error e, w)
  | .ok (.kept q) => (.ok (), w.setQueue q)
  | .ok (.satisfied resolver q) =>
      (.ok (), (w.setQueue q).setRoleChan resolver ((w.roleChan resolver).send .approved))

/-- `reject_action`. -/
def rejectAction (w : World) (callId : String) : Except SignatureError Unit × World :=
  match w.queue.rolePending.lookup callId with
  | none => (.error .unknownCallId, w)
  | some e =>
      (.ok (), (w.setQueue (w.queue.removeRole callId)).setRoleChan e.resolver
        ((w.roleChan e.resolver).send .rejected))

/-! ## Freezing -/

/-- Drain the FIFO track: every entry is sent a rejection. -/
def drainFifo (w : World) : World :=
  { w with
    queue := { w.queue with pending := [] }
    fifoChan := fun i =>
      if w.queue.pending.any fun e => e.resolver == i then (w.fifoChan i).send .rejected
      else w.fifoChan i }

/-- Drain the role-aware track. -/
def drainRole (w : World) : World :=
  { w with
    queue := { w.queue with rolePending := [] }
    roleChan := fun i =>
      if w.queue.rolePending.any fun e => e.2.resolver == i then (w.roleChan i).send .rejected
      else w.roleChan i }

def setFreeze (w : World) (f : ℕ) (pc : FreezePc) : World :=
  { w with freezes := Function.update w.freezes f pc }

/-- `freeze_and_drain`, one access at a time. -/
def advanceFreeze (w : World) (f : ℕ) : World :=
  match w.freezes f with
  | .drainingFifo => w.drainFifo.setFreeze f (.drainingRole w.queue.pending.length)
  | .drainingRole drained => w.drainRole.setFreeze f (.returned (drained + w.queue.rolePending.length))
  | _ => w

/-! ## The machine -/

/-- Execute one access. -/
def exec (ctx : SigningContext) (w : World) : Label → World
  | .submit call => { w.setFifo w.fifoNext (.entered call) with fifoNext := w.fifoNext + 1 }
  | .advance i => w.advanceFifo i
  | .poll i => w.pollFifo i
  | .timeOut i => w.leaveFifo i (.resolved (.decided .timedOut))
  | .cancel i => w.leaveFifo i .dropped
  | .cleanup i => w.cleanupFifo i
  | .approveById callId => (w.resolveHeadById callId .approved).2
  | .rejectById callId => (w.resolveHeadById callId .rejected).2
  | .rememberUnknown callId outcome =>
      { w.setQueue (w.queue.rememberUnknownOutcome callId outcome) with
        unknowns := w.unknowns ++ [(callId, outcome)] }
  | .approveUnknown k =>
      match w.unknowns[k]? with
      | some (callId, outcome) =>
          ({ w with unknowns := w.unknowns.eraseIdx k }.resolveHeadById callId
            (.submittedOutcomeUnknown outcome)).2
      | none => w
  | .addGrant toolName => w.setQueue (w.queue.addGrant w.now toolName)
  | .tick seconds => { w with now := w.now + seconds }
  | .submitForAction sub => { w.setRole w.roleNext (.entered sub) with roleNext := w.roleNext + 1 }
  | .advanceRole i => w.advanceRole i
  | .pollRole i => w.pollRole i
  | .timeOutRole i => w.leaveRole i (.resolved .timedOut)
  | .cancelRole i => w.leaveRole i .dropped
  | .cleanupRole i => w.cleanupRole i
  | .addSignature callId sig => (w.addSignature ctx callId sig).2
  | .rejectAction callId => (w.rejectAction callId).2
  | .freeze =>
      { (w.setQueue { w.queue with frozen := true }).setFreeze w.freezeNext .drainingFifo with
        freezeNext := w.freezeNext + 1 }
  | .advanceFreeze f => w.advanceFreeze f
  | .thaw => w.setQueue { w.queue with frozen := false }

/-- The world after an interleaving. -/
abbrev run (ctx : SigningContext) (ls : List Label) : World := Machine.run (exec ctx) init ls

end World

end AgentRuntime.Hitl
