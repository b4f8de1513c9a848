import AgentRuntime.Hitl.World

/-!
# `Hitl.Fifo` — FIFO approvals bind to the reviewed call

`fifo_step` says once what an access can do to the FIFO track; every invariant is read off its cases. The
invariant `FifoOk` ties each pending entry to the one submission that pushed it: call ids and owners are
pairwise distinct, and an owner is waiting or on its way out.

Two clauses hold only with a proviso. The nonce counter is an `AtomicU64`, so a cleanup names an entry by its
call id and a number that comes back after `2^64` draws; and `freeze_and_drain` sets its flag in an access of
its own, so a thaw can undo the freeze before it returns.
-/

namespace AgentRuntime.Hitl

open Words

/-! ## Program points -/

namespace FifoPc

/-- The call of a submission under way. -/
def call? : FifoPc → Option ToolCall
  | .entered call | .trusting call | .recalling call | .drawing call => some call
  | .pushing call _ | .waiting call _ | .leaving call _ _ => some call
  | _ => none

/-- Which draw of the nonce counter the submission got. -/
def draw? : FifoPc → Option ℕ
  | .pushing _ draw | .waiting _ draw | .leaving _ draw _ => some draw
  | _ => none

def result? : FifoPc → Option (Ending Resolution)
  | .leaving _ _ result | .done result => some result
  | _ => none

/-- Before its entry is pushed. -/
def early : FifoPc → Bool
  | .absent | .entered _ | .trusting _ | .recalling _ | .drawing _ | .pushing _ _ => true
  | _ => false

/-- Its entry was pushed and its guard has not run. -/
def guarded : FifoPc → Bool
  | .waiting _ _ | .leaving _ _ _ => true
  | _ => false

end FifoPc

/-! ## What one access does to the track -/

/-- Everything an access can do to the FIFO track. -/
inductive FifoStep (w w' : World) : Label → Prop where
  | elsewhere {l : Label} (pending : w'.queue.pending = w.queue.pending) (fifo : w'.fifo = w.fifo)
      (chan : w'.fifoChan = w.fifoChan) (next : w'.fifoNext = w.fifoNext)
      (nonce : w.queue.nextNonce ≤ w'.queue.nextNonce) (label : ∀ call, l ≠ .submit call) : FifoStep w w' l
  | submitted {call : ToolCall} (pending : w'.queue.pending = w.queue.pending)
      (fifo : w'.fifo = Function.update w.fifo w.fifoNext (.entered call))
      (chan : w'.fifoChan = w.fifoChan) (next : w'.fifoNext = w.fifoNext + 1)
      (nonce : w.queue.nextNonce ≤ w'.queue.nextNonce) : FifoStep w w' (.submit call)
  /-- A step before the nonce is drawn, or a way out that pushes nothing and approves nothing. -/
  | moved {i : ℕ} {call : ToolCall} {pc : FifoPc} (before : (w.fifo i).early)
      (callBefore : (w.fifo i).call? = some call) (callAfter : ∀ c, pc.call? = some c → c = call)
      (draw : pc.draw? = none) (unguarded : pc.guarded = false)
      (result : pc.result? ≠ some (.resolved (.decided .approved)))
      (pending : w'.queue.pending = w.queue.pending) (fifo : w'.fifo = Function.update w.fifo i pc)
      (chan : w'.fifoChan = w.fifoChan) (next : w'.fifoNext = w.fifoNext)
      (nonce : w.queue.nextNonce ≤ w'.queue.nextNonce) : FifoStep w w' (.advance i)
  | drew {i : ℕ} {call : ToolCall} (before : w.fifo i = .drawing call)
      (nonce : w'.queue.nextNonce = w.queue.nextNonce + 1) (pending : w'.queue.pending = w.queue.pending)
      (fifo : w'.fifo = Function.update w.fifo i (.pushing call w.queue.nextNonce))
      (chan : w'.fifoChan = w.fifoChan) (next : w'.fifoNext = w.fifoNext) : FifoStep w w' (.advance i)
  | pushed {i draw : ℕ} {call : ToolCall} (before : w.fifo i = .pushing call draw)
      (thawed : w.queue.frozen = false)
      (unused : ∀ e ∈ w.queue.pending, e.call.callId ≠ call.callId)
      (pending : w'.queue.pending
        = w.queue.pending ++ [{ call := call, resolver := i, nonce := nonceOf draw }])
      (fifo : w'.fifo = Function.update w.fifo i (.waiting call draw))
      (chan : w'.fifoChan = w.fifoChan) (next : w'.fifoNext = w.fifoNext)
      (nonce : w.queue.nextNonce ≤ w'.queue.nextNonce) : FifoStep w w' (.advance i)
  | left {l : Label} {i draw : ℕ} {call : ToolCall} {result : Ending Resolution}
      (before : w.fifo i = .waiting call draw)
      (approved : result = .resolved (.decided .approved) → (w.fifoChan i).value = some .approved)
      (pending : w'.queue.pending = w.queue.pending)
      (fifo : w'.fifo = Function.update w.fifo i (.leaving call draw result))
      (chan : w'.fifoChan = Function.update w.fifoChan i { w.fifoChan i with receiverAlive := false })
      (next : w'.fifoNext = w.fifoNext) (nonce : w.queue.nextNonce ≤ w'.queue.nextNonce)
      (label : ∀ call, l ≠ .submit call) : FifoStep w w' l
  | cleaned {i draw : ℕ} {call : ToolCall} {result : Ending Resolution}
      (before : w.fifo i = .leaving call draw result)
      (pending : w'.queue.pending
        = w.queue.pending.eraseP (ApprovalQueue.isEntryOf call.callId (nonceOf draw)))
      (fifo : w'.fifo = Function.update w.fifo i (.done result))
      (chan : ∀ j, (w'.fifoChan j).value = (w.fifoChan j).value)
      (next : w'.fifoNext = w.fifoNext) (nonce : w.queue.nextNonce ≤ w'.queue.nextNonce) :
      FifoStep w w' (.cleanup i)
  | resolved {l : Label} {e : PendingEntry} {outcome : ApprovalOutcome}
      (label : l = .approveById e.call.callId ∧ outcome = .approved ∨
        l = .rejectById e.call.callId ∧ outcome = .rejected ∨
        ∃ k u, l = .approveUnknown k ∧ w.unknowns[k]? = some (e.call.callId, u) ∧
          outcome = .submittedOutcomeUnknown u)
      (pending : w.queue.pending = e :: w'.queue.pending) (fifo : w'.fifo = w.fifo)
      (chan : w'.fifoChan
        = Function.update w.fifoChan e.resolver ((w.fifoChan e.resolver).send outcome))
      (next : w'.fifoNext = w.fifoNext) (nonce : w.queue.nextNonce ≤ w'.queue.nextNonce) : FifoStep w w' l
  | drained {f : ℕ} (before : w.freezes f = .drainingFifo) (pending : w'.queue.pending = [])
      (fifo : w'.fifo = w.fifo)
      (chan : ∀ j, w'.fifoChan j = w.fifoChan j ∨ w'.fifoChan j = (w.fifoChan j).send .rejected)
      (next : w'.fifoNext = w.fifoNext) (nonce : w.queue.nextNonce ≤ w'.queue.nextNonce) :
      FifoStep w w' (.advanceFreeze f)

variable {ctx : SigningContext}

namespace FifoStep

variable {w w' : World} {i : ℕ} {call : ToolCall}

/-- The submission goes on with its call. -/
theorem goesOn {pc : FifoPc} (before : (w.fifo i).early = true) (callBefore : (w.fifo i).call? = some call)
    (callAfter : pc.call? = some call) (draw : pc.draw? = none)
    (pending : w'.queue.pending = w.queue.pending) (fifo : w'.fifo = Function.update w.fifo i pc)
    (chan : w'.fifoChan = w.fifoChan) (next : w'.fifoNext = w.fifoNext)
    (nonce : w.queue.nextNonce ≤ w'.queue.nextNonce) : FifoStep w w' (.advance i) := by
  have hunguarded : pc.guarded = false := by
    cases pc with
    | waiting _ _ => cases draw
    | leaving _ _ _ => cases draw
    | _ => rfl
  have hresult : pc.result? = none := by
    cases pc with
    | leaving _ _ _ => cases draw
    | done _ => cases callAfter
    | _ => rfl
  refine .moved before callBefore ?_ draw hunguarded ?_ pending fifo chan next nonce
  · intro c hc
    rw [callAfter] at hc
    exact (Option.some.inj hc).symm
  · rw [hresult]
    exact nofun

/-- The submission ends before it is queued, refused or trusted. -/
theorem ends {result : Ending Resolution} (before : (w.fifo i).early = true)
    (callBefore : (w.fifo i).call? = some call) (hresult : result ≠ .resolved (.decided .approved))
    (pending : w'.queue.pending = w.queue.pending)
    (fifo : w'.fifo = Function.update w.fifo i (.done result)) (chan : w'.fifoChan = w.fifoChan)
    (next : w'.fifoNext = w.fifoNext) (nonce : w.queue.nextNonce ≤ w'.queue.nextNonce) :
    FifoStep w w' (.advance i) := by
  refine .moved before callBefore ?_ rfl rfl ?_ pending fifo chan next nonce
  · intro c hc
    cases hc
  · intro h
    exact hresult (Option.some.inj h)

end FifoStep

/-- The access of a submission before it waits. -/
theorem advanceFifo_step (w : World) (i : ℕ) : FifoStep w (w.advanceFifo i) (.advance i) := by
  have hbefore : ∀ {pc}, w.fifo i = pc → pc.early = true → (w.fifo i).early = true := by
    intro pc hpc hearly
    rw [hpc, hearly]
  have hcall : ∀ {pc call}, w.fifo i = pc → pc.call? = some call → (w.fifo i).call? = some call := by
    intro pc call hpc hc
    rw [hpc, hc]
  unfold World.advanceFifo
  cases hpc : w.fifo i with
  | entered call =>
      simp only
      split
      · exact .ends (hbefore hpc rfl) (hcall hpc rfl) (by decide) rfl rfl rfl rfl le_rfl
      · exact .goesOn (hbefore hpc rfl) (hcall hpc rfl) rfl rfl rfl rfl rfl rfl le_rfl
  | trusting call =>
      simp only
      split
      · exact .goesOn (hbefore hpc rfl) (hcall hpc rfl) rfl rfl rfl rfl rfl rfl le_rfl
      · exact .goesOn (hbefore hpc rfl) (hcall hpc rfl) rfl rfl rfl rfl rfl rfl le_rfl
  | recalling call =>
      simp only
      split
      · exact .ends (hbefore hpc rfl) (hcall hpc rfl) (by decide) rfl rfl rfl rfl le_rfl
      · exact .goesOn (hbefore hpc rfl) (hcall hpc rfl) rfl rfl rfl rfl rfl rfl le_rfl
  | drawing call => exact .drew hpc rfl rfl rfl rfl rfl
  | pushing call draw =>
      simp only
      cases henqueue : w.queue.enqueue call i (nonceOf draw) with
      | none => exact .ends (hbefore hpc rfl) (hcall hpc rfl) (by decide) rfl rfl rfl rfl le_rfl
      | some q =>
          obtain ⟨hthawed, hunused, rfl⟩ := enqueue_eq_some henqueue
          exact .pushed hpc hthawed hunused rfl rfl rfl rfl le_rfl
  | absent => exact .elsewhere rfl rfl rfl rfl le_rfl nofun
  | waiting call draw => exact .elsewhere rfl rfl rfl rfl le_rfl nofun
  | leaving call draw result => exact .elsewhere rfl rfl rfl rfl le_rfl nofun
  | done result => exact .elsewhere rfl rfl rfl rfl le_rfl nofun

/-- A wait that ends. -/
theorem leaveFifo_step (w : World) (i : ℕ) {result : Ending Resolution} {l : Label}
    (happroved : result = .resolved (.decided .approved) → (w.fifoChan i).value = some .approved)
    (hlabel : ∀ call, l ≠ .submit call) : FifoStep w (w.leaveFifo i result) l := by
  unfold World.leaveFifo
  split
  · rename_i call draw hpc
    exact .left hpc happroved rfl rfl rfl rfl le_rfl hlabel
  · exact .elsewhere rfl rfl rfl rfl le_rfl hlabel

theorem pollFifo_step (w : World) (i : ℕ) : FifoStep w (w.pollFifo i) (.poll i) := by
  unfold World.pollFifo
  split
  · rename_i o hvalue
    refine leaveFifo_step w i ?_ nofun
    intro happroved
    cases o with
    | approved => exact hvalue
    | rejected => cases happroved
    | submittedOutcomeUnknown u => cases happroved
  · split
    · exact .elsewhere rfl rfl rfl rfl le_rfl nofun
    · exact leaveFifo_step w i nofun nofun

theorem cleanupFifo_step (w : World) (i : ℕ) : FifoStep w (w.cleanupFifo i) (.cleanup i) := by
  unfold World.cleanupFifo
  split
  · rename_i call draw result hpc
    simp only
    split
    · rename_i e he
      refine .cleaned hpc rfl rfl ?_ rfl le_rfl
      intro j
      show (Function.update w.fifoChan e.resolver { w.fifoChan e.resolver with senderAlive := false } j).value
        = _
      by_cases hj : j = e.resolver
      · subst hj
        rw [Function.update_self]
      · rw [Function.update_of_ne hj]
    · exact .cleaned hpc rfl rfl (fun _ => rfl) rfl le_rfl
  · exact .elsewhere rfl rfl rfl rfl le_rfl nofun

/-- An access that leaves the FIFO track alone. -/
structure SameFifo (w w' : World) : Prop where
  pending : w'.queue.pending = w.queue.pending
  fifo : w'.fifo = w.fifo
  chan : w'.fifoChan = w.fifoChan
  next : w'.fifoNext = w.fifoNext
  nonce : w.queue.nextNonce ≤ w'.queue.nextNonce

theorem SameFifo.refl (w : World) : SameFifo w w := ⟨rfl, rfl, rfl, rfl, le_rfl⟩

theorem SameFifo.step {w w' : World} {l : Label} (h : SameFifo w w') (hlabel : ∀ call, l ≠ .submit call) :
    FifoStep w w' l := .elsewhere h.pending h.fifo h.chan h.next h.nonce hlabel

/-- The head is resolved, or nothing happens. -/
theorem resolveHeadById_step {w v : World} (hv : SameFifo w v) (callId : String) (outcome : ApprovalOutcome)
    {l : Label} (hlabel : ∀ call, l ≠ .submit call)
    (hnames : l = .approveById callId ∧ outcome = .approved ∨ l = .rejectById callId ∧ outcome = .rejected ∨
      ∃ k u, l = .approveUnknown k ∧ w.unknowns[k]? = some (callId, u) ∧
        outcome = .submittedOutcomeUnknown u) : FifoStep w (v.resolveHeadById callId outcome).2 l := by
  unfold World.resolveHeadById
  cases hpop : v.queue.popHead callId with
  | none => exact hv.step hlabel
  | some popped =>
      obtain ⟨e, q⟩ := popped
      obtain ⟨rfl, hpending, hq⟩ := popHead_eq_some hpop
      rw [hv.pending] at hpending
      refine .resolved hnames hpending hv.fifo ?_ hv.next ?_
      · rw [← hv.chan]
        rfl
      · exact hv.nonce.trans (le_of_eq (congrArg ApprovalQueue.nextNonce hq).symm)

theorem advanceFreeze_fifo_step (w : World) (f : ℕ) : FifoStep w (w.advanceFreeze f) (.advanceFreeze f) := by
  unfold World.advanceFreeze
  split
  · rename_i hpc
    refine .drained hpc rfl rfl ?_ rfl le_rfl
    intro j
    by_cases hj : (w.queue.pending.any fun e => e.resolver == j) = true
    · exact .inr (if_pos hj)
    · exact .inl (if_neg hj)
  · exact .elsewhere rfl rfl rfl rfl le_rfl nofun
  · exact .elsewhere rfl rfl rfl rfl le_rfl nofun

theorem advanceRole_sameFifo (w : World) (i : ℕ) : SameFifo w (w.advanceRole i) := by
  unfold World.advanceRole
  split
  · split
    · exact ⟨rfl, rfl, rfl, rfl, le_rfl⟩
    · split
      · exact ⟨rfl, rfl, rfl, rfl, le_rfl⟩
      · exact ⟨rfl, rfl, rfl, rfl, le_rfl⟩
  · exact ⟨rfl, rfl, rfl, rfl, Nat.le_succ _⟩
  · rename_i sub draw _
    simp only
    cases hinsert : w.queue.insertRole sub.call.callId _ with
    | none => exact ⟨rfl, rfl, rfl, rfl, le_rfl⟩
    | some q =>
        obtain ⟨-, -, rfl⟩ := insertRole_eq_some hinsert
        exact ⟨rfl, rfl, rfl, rfl, le_rfl⟩
  · exact SameFifo.refl w

theorem leaveRole_sameFifo (w : World) (i : ℕ) (result : Ending ApprovalOutcomePublic) :
    SameFifo w (w.leaveRole i result) := by
  unfold World.leaveRole
  split
  · exact ⟨rfl, rfl, rfl, rfl, le_rfl⟩
  · exact SameFifo.refl w

theorem pollRole_sameFifo (w : World) (i : ℕ) : SameFifo w (w.pollRole i) := by
  unfold World.pollRole
  split
  · exact leaveRole_sameFifo w i _
  · split
    · exact SameFifo.refl w
    · exact leaveRole_sameFifo w i _

theorem cleanupRole_sameFifo (w : World) (i : ℕ) : SameFifo w (w.cleanupRole i) := by
  unfold World.cleanupRole World.dropRoleSender ApprovalQueue.evictRole
  split
  · split
    · split
      · split
        · exact ⟨rfl, rfl, rfl, rfl, le_rfl⟩
        · exact ⟨rfl, rfl, rfl, rfl, le_rfl⟩
      · split
        · exact ⟨rfl, rfl, rfl, rfl, le_rfl⟩
        · exact ⟨rfl, rfl, rfl, rfl, le_rfl⟩
    · split
      · exact ⟨rfl, rfl, rfl, rfl, le_rfl⟩
      · exact ⟨rfl, rfl, rfl, rfl, le_rfl⟩
  · exact SameFifo.refl w

theorem addSignature_sameFifo (w : World) (callId : String) (sig : Signature) :
    SameFifo w (w.addSignature ctx callId sig).2 := by
  unfold World.addSignature
  split
  · exact SameFifo.refl w
  · rename_i q hq
    obtain ⟨-, entry, -, -, ⟨-, hsigned⟩ | ⟨-, hsigned⟩⟩ := addSignature_eq_ok hq
    · cases hsigned
    · cases hsigned
      exact ⟨rfl, rfl, rfl, rfl, le_rfl⟩
  · rename_i resolver q hq
    obtain ⟨-, entry, -, -, ⟨-, hsigned⟩ | ⟨-, hsigned⟩⟩ := addSignature_eq_ok hq
    · cases hsigned
      exact ⟨rfl, rfl, rfl, rfl, le_rfl⟩
    · cases hsigned

theorem rejectAction_sameFifo (w : World) (callId : String) : SameFifo w (w.rejectAction callId).2 := by
  unfold World.rejectAction
  split
  · exact SameFifo.refl w
  · exact ⟨rfl, rfl, rfl, rfl, le_rfl⟩

/-- **What an access does to the FIFO track.** -/
theorem fifo_step (ctx : SigningContext) (w : World) (l : Label) : FifoStep w (w.exec ctx l) l := by
  cases l with
  | submit call => exact .submitted rfl rfl rfl rfl le_rfl
  | advance i => exact advanceFifo_step w i
  | poll i => exact pollFifo_step w i
  | timeOut i => exact leaveFifo_step w i (fun h => absurd h (by decide)) nofun
  | cancel i => exact leaveFifo_step w i nofun nofun
  | cleanup i => exact cleanupFifo_step w i
  | approveById callId => exact resolveHeadById_step (.refl w) callId _ nofun (.inl ⟨rfl, rfl⟩)
  | rejectById callId => exact resolveHeadById_step (.refl w) callId _ nofun (.inr (.inl ⟨rfl, rfl⟩))
  | approveUnknown k =>
      unfold World.exec
      simp only
      split
      · rename_i callId u hk
        exact resolveHeadById_step (w := w) (v := { w with unknowns := w.unknowns.eraseIdx k })
          ⟨rfl, rfl, rfl, rfl, le_rfl⟩ callId (.submittedOutcomeUnknown u) (fun _ h => by cases h) (.inr (.inr ⟨k, u, rfl, hk, rfl⟩))
      · exact (SameFifo.refl w).step nofun
  | addSignature callId sig => exact (addSignature_sameFifo w callId sig).step fun _ h => by cases h
  | rejectAction callId => exact (rejectAction_sameFifo w callId).step nofun
  | advanceRole i => exact (advanceRole_sameFifo w i).step nofun
  | pollRole i => exact (pollRole_sameFifo w i).step nofun
  | timeOutRole i => exact (leaveRole_sameFifo w i _).step nofun
  | cancelRole i => exact (leaveRole_sameFifo w i _).step nofun
  | cleanupRole i => exact (cleanupRole_sameFifo w i).step nofun
  | advanceFreeze f => exact advanceFreeze_fifo_step w f
  | rememberUnknown callId outcome =>
      unfold World.exec World.setQueue
      refine .elsewhere ?_ rfl rfl rfl ?_ nofun
      · dsimp only [ApprovalQueue.rememberUnknownOutcome]
      · dsimp only [ApprovalQueue.rememberUnknownOutcome]
        exact le_refl _
  | addGrant toolName => exact .elsewhere rfl rfl rfl rfl le_rfl nofun
  | tick seconds => exact .elsewhere rfl rfl rfl rfl le_rfl nofun
  | submitForAction sub => exact .elsewhere rfl rfl rfl rfl le_rfl nofun
  | freeze => exact .elsewhere rfl rfl rfl rfl le_rfl nofun
  | thaw => exact .elsewhere rfl rfl rfl rfl le_rfl nofun

/-! ## What a step does to one submission -/

/-- The same steps, seen from submission `i`. -/
inductive FifoMove (w w' : World) (l : Label) (i : ℕ) : Prop where
  | stays (fifo : w'.fifo i = w.fifo i)
  | enters (call : ToolCall) (label : l = .submit call) (index : i = w.fifoNext)
      (fifo : w'.fifo i = .entered call)
  | moves (call : ToolCall) (label : l = .advance i) (before : (w.fifo i).early = true)
      (callBefore : (w.fifo i).call? = some call)
      (callAfter : ∀ c, (w'.fifo i).call? = some c → c = call) (draw : (w'.fifo i).draw? = none)
      (unguarded : (w'.fifo i).guarded = false)
      (result : (w'.fifo i).result? ≠ some (.resolved (.decided .approved)))
      (pending : w'.queue.pending = w.queue.pending)
  | draws (call : ToolCall) (label : l = .advance i) (before : w.fifo i = .drawing call)
      (nonce : w'.queue.nextNonce = w.queue.nextNonce + 1)
      (fifo : w'.fifo i = .pushing call w.queue.nextNonce)
  | pushes (call : ToolCall) (draw : ℕ) (before : w.fifo i = .pushing call draw)
      (fifo : w'.fifo i = .waiting call draw)
  | leaves (call : ToolCall) (draw : ℕ) (result : Ending Resolution) (before : w.fifo i = .waiting call draw)
      (approved : result = .resolved (.decided .approved) → (w.fifoChan i).value = some .approved)
      (fifo : w'.fifo i = .leaving call draw result)
  | cleans (call : ToolCall) (draw : ℕ) (result : Ending Resolution)
      (before : w.fifo i = .leaving call draw result) (label : l = .cleanup i)
      (fifo : w'.fifo i = .done result)

section

variable {w w' : World} {l : Label}

theorem FifoStep.move (h : FifoStep w w' l) (i : ℕ) : FifoMove w w' l i := by
  -- A step of another submission leaves this one where it is.
  have hother : ∀ {j : ℕ} {pc : FifoPc}, w'.fifo = Function.update w.fifo j pc → i ≠ j →
      w'.fifo i = w.fifo i := by
    intro j pc hfifo hi
    rw [hfifo, Function.update_of_ne hi]
  have hself : ∀ {pc : FifoPc}, w'.fifo = Function.update w.fifo i pc → w'.fifo i = pc := by
    intro pc hfifo
    rw [hfifo, Function.update_self]
  cases h with
  | elsewhere _ fifo => exact .stays (congrFun fifo i)
  | resolved _ _ fifo => exact .stays (congrFun fifo i)
  | drained _ _ fifo => exact .stays (congrFun fifo i)
  | @submitted call _ fifo =>
      by_cases hi : i = w.fifoNext
      · subst hi
        exact .enters call rfl rfl (hself fifo)
      · exact .stays (hother fifo hi)
  | @moved j call pc before callBefore callAfter draw unguarded result pending fifo =>
      by_cases hi : i = j
      · subst hi
        have hpc := hself fifo
        subst hpc
        exact .moves call rfl before callBefore callAfter draw unguarded result pending
      · exact .stays (hother fifo hi)
  | @drew j call before nonce _ fifo =>
      by_cases hi : i = j
      · subst hi
        exact .draws call rfl before nonce (hself fifo)
      · exact .stays (hother fifo hi)
  | @pushed j draw call before _ _ _ fifo =>
      by_cases hi : i = j
      · subst hi
        exact .pushes call draw before (hself fifo)
      · exact .stays (hother fifo hi)
  | @left _ j draw call result before approved _ fifo =>
      by_cases hi : i = j
      · subst hi
        exact .leaves call draw result before approved (hself fifo)
      · exact .stays (hother fifo hi)
  | @cleaned j draw call result before _ fifo =>
      by_cases hi : i = j
      · subst hi
        exact .cleans call draw result before rfl (hself fifo)
      · exact .stays (hother fifo hi)

namespace FifoMove

variable {i : ℕ}

/-- A submission keeps its call; a new one gets the call it was made with. -/
theorem call?_eq (h : FifoMove w w' l i) {call : ToolCall} (hcall : (w'.fifo i).call? = some call) :
    (w.fifo i).call? = some call ∨ l = .submit call ∧ i = w.fifoNext := by
  cases h with
  | stays fifo =>
      rw [fifo] at hcall
      exact .inl hcall
  | enters call' label index fifo =>
      rw [fifo] at hcall
      cases hcall
      exact .inr ⟨label, index⟩
  | moves call' _ _ callBefore callAfter =>
      rw [callAfter call hcall]
      exact .inl callBefore
  | draws call' _ before _ fifo =>
      rw [fifo] at hcall
      rw [before]
      exact .inl hcall
  | pushes call' draw before fifo =>
      rw [fifo] at hcall
      rw [before]
      exact .inl hcall
  | leaves call' draw result before _ fifo =>
      rw [fifo] at hcall
      rw [before]
      exact .inl hcall
  | cleans call' draw result _ _ fifo =>
      rw [fifo] at hcall
      cases hcall

/-- A submission keeps its draw; a new one is the next of the counter. -/
theorem draw?_eq (h : FifoMove w w' l i) {draw : ℕ} (hdraw : (w'.fifo i).draw? = some draw) :
    (w.fifo i).draw? = some draw ∨
      l = .advance i ∧ draw = w.queue.nextNonce ∧ w'.queue.nextNonce = w.queue.nextNonce + 1 := by
  cases h with
  | stays fifo =>
      rw [fifo] at hdraw
      exact .inl hdraw
  | enters call label index fifo =>
      rw [fifo] at hdraw
      cases hdraw
  | moves call _ _ _ _ hnone =>
      rw [hnone] at hdraw
      cases hdraw
  | draws call label before nonce fifo =>
      rw [fifo] at hdraw
      exact .inr ⟨label, (Option.some.inj hdraw).symm, nonce⟩
  | pushes call draw' before fifo =>
      rw [fifo] at hdraw
      rw [before]
      exact .inl hdraw
  | leaves call draw' result before _ fifo =>
      rw [fifo] at hdraw
      rw [before]
      exact .inl hdraw
  | cleans call draw' result _ _ fifo =>
      rw [fifo] at hdraw
      cases hdraw

/-- Whoever has pushed stays guarded, with its call and its draw, until its own cleanup. -/
theorem guarded_eq (h : FifoMove w w' l i) (hnext : i ≠ w.fifoNext) (hguarded : (w.fifo i).guarded = true) :
    ((w'.fifo i).guarded = true ∧ (w'.fifo i).call? = (w.fifo i).call? ∧
        (w'.fifo i).draw? = (w.fifo i).draw?) ∨
      ∃ call draw result, w.fifo i = .leaving call draw result ∧ w'.fifo i = .done result := by
  cases h with
  | stays fifo =>
      rw [fifo]
      exact .inl ⟨hguarded, rfl, rfl⟩
  | enters call label index => exact absurd index hnext
  | moves call _ before =>
      cases hpc : w.fifo i with
      | waiting _ _ =>
          rw [hpc] at before
          cases before
      | leaving _ _ _ =>
          rw [hpc] at before
          cases before
      | _ =>
          rw [hpc] at hguarded
          cases hguarded
  | draws call _ before =>
      rw [before] at hguarded
      cases hguarded
  | pushes call draw before =>
      rw [before] at hguarded
      cases hguarded
  | leaves call draw result before _ fifo =>
      rw [fifo, before]
      exact .inl ⟨rfl, rfl, rfl⟩
  | cleans call draw result before label fifo => exact .inr ⟨call, draw, result, before, fifo⟩

/-- Nothing goes back behind the push. -/
theorem not_early (h : FifoMove w w' l i) (hnext : i ≠ w.fifoNext) (hlate : (w.fifo i).early = false) :
    (w'.fifo i).early = false := by
  cases h with
  | stays fifo =>
      rw [fifo]
      exact hlate
  | enters call label index => exact absurd index hnext
  | moves call _ before =>
      rw [hlate] at before
      cases before
  | draws call _ before =>
      rw [before] at hlate
      cases hlate
  | pushes call draw before =>
      rw [before] at hlate
      cases hlate
  | leaves call draw result _ _ fifo =>
      rw [fifo]
      rfl
  | cleans call draw result _ _ fifo =>
      rw [fifo]
      rfl

end FifoMove

/-! ## What a step does to the entries -/

/-- Why an entry leaves the queue. -/
inductive Exit (w : World) (l : Label) (e : PendingEntry) : Prop where
  /-- A decision that names its call id, while it is the head. -/
  | decided (head : w.queue.pending.head? = some e)
      (label : l = .approveById e.call.callId ∨ l = .rejectById e.call.callId ∨
        ∃ k u, l = .approveUnknown k ∧ w.unknowns[k]? = some (e.call.callId, u))
  /-- The guard of a submission with its call id and its nonce. -/
  | cleaned (i : ℕ) (call : ToolCall) (draw : ℕ) (result : Ending Resolution) (label : l = .cleanup i)
      (before : w.fifo i = .leaving call draw result) (callId : call.callId = e.call.callId)
      (nonce : e.nonce = nonceOf draw)
  | drained (f : ℕ) (label : l = .advanceFreeze f) (before : w.freezes f = .drainingFifo)

/-- An entry of the next state was there, or its submission has just pushed it. -/
theorem FifoStep.mem_pending (h : FifoStep w w' l) {e : PendingEntry} (he : e ∈ w'.queue.pending) :
    e ∈ w.queue.pending ∨ ∃ draw, w.fifo e.resolver = .pushing e.call draw ∧
      w'.fifo e.resolver = .waiting e.call draw ∧ e.nonce = nonceOf draw := by
  cases h with
  | elsewhere pending =>
      rw [pending] at he
      exact .inl he
  | submitted pending =>
      rw [pending] at he
      exact .inl he
  | moved _ _ _ _ _ _ pending =>
      rw [pending] at he
      exact .inl he
  | drew _ _ pending =>
      rw [pending] at he
      exact .inl he
  | @pushed i draw call before _ _ pending fifo =>
      rw [pending, List.mem_append, List.mem_singleton] at he
      rcases he with he | rfl
      · exact .inl he
      · refine .inr ⟨draw, before, ?_, rfl⟩
        rw [fifo, Function.update_self]
  | left _ _ pending =>
      rw [pending] at he
      exact .inl he
  | cleaned _ pending =>
      rw [pending] at he
      exact .inl (List.mem_of_mem_eraseP he)
  | resolved _ pending =>
      rw [pending]
      exact .inl (List.mem_cons_of_mem _ he)
  | drained _ pending =>
      rw [pending] at he
      cases he

/-- The call ids of the pending entries. -/
def ApprovalQueue.callIds (q : ApprovalQueue) : List String :=
  q.pending.map fun e => e.call.callId

/-- A push refuses a call id that is pending; nothing else adds one. -/
theorem FifoStep.nodup_callIds (h : FifoStep w w' l) (hnodup : w.queue.callIds.Nodup) :
    w'.queue.callIds.Nodup := by
  unfold ApprovalQueue.callIds at hnodup ⊢
  cases h with
  | elsewhere pending =>
      rw [pending]
      exact hnodup
  | submitted pending =>
      rw [pending]
      exact hnodup
  | moved _ _ _ _ _ _ pending =>
      rw [pending]
      exact hnodup
  | drew _ _ pending =>
      rw [pending]
      exact hnodup
  | @pushed i draw call _ _ unused pending =>
      rw [pending, List.map_append, List.map_singleton]
      apply hnodup.append (List.nodup_singleton _)
      rw [List.disjoint_singleton]
      intro hmem
      obtain ⟨e, he, hid⟩ := List.mem_map.mp hmem
      exact unused e he hid
  | left _ _ pending =>
      rw [pending]
      exact hnodup
  | cleaned _ pending =>
      rw [pending]
      exact hnodup.sublist (List.eraseP_sublist.map _)
  | resolved _ pending =>
      rw [pending, List.map_cons] at hnodup
      exact (List.nodup_cons.mp hnodup).2
  | drained _ pending =>
      rw [pending]
      exact List.nodup_nil

/-- An entry that is gone left for one of three reasons. -/
theorem FifoStep.exit (h : FifoStep w w' l) {e : PendingEntry} (he : e ∈ w.queue.pending)
    (hgone : e ∉ w'.queue.pending) : Exit w l e := by
  cases h with
  | elsewhere pending =>
      rw [pending] at hgone
      exact absurd he hgone
  | submitted pending =>
      rw [pending] at hgone
      exact absurd he hgone
  | moved _ _ _ _ _ _ pending =>
      rw [pending] at hgone
      exact absurd he hgone
  | drew _ _ pending =>
      rw [pending] at hgone
      exact absurd he hgone
  | pushed _ _ _ pending =>
      rw [pending] at hgone
      exact absurd (List.mem_append_left _ he) hgone
  | left _ _ pending =>
      rw [pending] at hgone
      exact absurd he hgone
  | @cleaned i draw call result before pending =>
      rw [pending] at hgone
      cases hentry : ApprovalQueue.isEntryOf call.callId (nonceOf draw) e with
      | true =>
          obtain ⟨hnonce, hid⟩ := Bool.and_eq_true_iff.mp hentry
          exact .cleaned i call draw result rfl before (beq_iff_eq.mp hid).symm (beq_iff_eq.mp hnonce)
      | false =>
          exfalso
          apply hgone
          rw [List.mem_eraseP_of_neg (by rw [hentry]; decide)]
          exact he
  | @resolved _ e' outcome label pending =>
      rw [pending, List.mem_cons] at he
      rcases he with rfl | he
      · refine .decided (by rw [pending]; rfl) ?_
        rcases label with ⟨label, -⟩ | ⟨label, -⟩ | ⟨k, u, label, hk, -⟩
        · exact .inl label
        · exact .inr (.inl label)
        · exact .inr (.inr ⟨k, u, label, hk⟩)
      · exact absurd he hgone
  | @drained f before => exact .drained f rfl before

/-- A submission's own cleanup takes its entry with it. -/
theorem FifoStep.not_mem_of_done (h : FifoStep w w' l) {e : PendingEntry} {i draw : ℕ}
    {result result' : Ending Resolution} (hpc : w.fifo i = .leaving e.call draw result)
    (hdone : w'.fifo i = .done result') (hnonce : e.nonce = nonceOf draw) (hnodup : w.queue.callIds.Nodup) :
    e ∉ w'.queue.pending := by
  -- Only a step of `i` itself can end it.
  have hchanged : w'.fifo i ≠ w.fifo i := by
    rw [hpc, hdone]
    exact nofun
  have hown : ∀ {j : ℕ} {pc : FifoPc}, w'.fifo = Function.update w.fifo j pc → j = i := by
    intro j pc hfifo
    by_contra hj
    apply hchanged
    rw [hfifo, Function.update_of_ne (Ne.symm hj)]
  cases h with
  | elsewhere _ fifo => exact absurd (congrFun fifo i) hchanged
  | resolved _ _ fifo => exact absurd (congrFun fifo i) hchanged
  | drained _ _ fifo => exact absurd (congrFun fifo i) hchanged
  | submitted _ fifo =>
      have hi := hown fifo
      rw [fifo, hi, Function.update_self] at hdone
      cases hdone
  | @moved j call pc before _ _ _ _ _ _ fifo =>
      rw [hown fifo, hpc] at before
      cases before
  | @drew j call before _ _ fifo =>
      rw [hown fifo, hpc] at before
      cases before
  | @pushed j draw' call before _ _ _ fifo =>
      rw [hown fifo, hpc] at before
      cases before
  | @left _ j draw' call result'' before _ _ fifo =>
      rw [hown fifo, hpc] at before
      cases before
  | @cleaned j draw' call result'' before pending fifo =>
      rw [hown fifo, hpc] at before
      cases before
      rw [pending]
      intro hmem
      -- The entry matches, and with distinct call ids it is the only one that can.
      have hmatch : ∀ e' ∈ w.queue.pending,
          ApprovalQueue.isEntryOf e.call.callId (nonceOf draw) e' = true → e' = e := by
        intro e' he' hentry
        obtain ⟨-, hid⟩ := Bool.and_eq_true_iff.mp hentry
        exact List.inj_on_of_nodup_map hnodup he' (List.mem_of_mem_eraseP hmem) (beq_iff_eq.mp hid)
      have hself : ApprovalQueue.isEntryOf e.call.callId (nonceOf draw) e = true := by
        unfold ApprovalQueue.isEntryOf
        rw [hnonce, beq_self_eq_true, beq_self_eq_true]
        rfl
      obtain ⟨e', before, after, -, hentry, hsplit, herase⟩ :=
        List.exists_of_eraseP (List.mem_of_mem_eraseP hmem) hself
      have he' : e' = e := hmatch e' (by rw [hsplit]; simp) hentry
      subst he'
      have hnodup' : w.queue.pending.Nodup := List.Nodup.of_map _ hnodup
      rw [hsplit] at hnodup'
      rw [herase] at hmem
      exact (List.nodup_middle.mp hnodup' |> List.nodup_cons.mp).1 hmem

end

/-! ## The invariant -/

/-- The calls submitted to the FIFO track: the `i`-th one is submission `i`'s. -/
def fifoCalls (ls : List Label) : List ToolCall :=
  ls.filterMap fun
    | .submit call => some call
    | _ => none

/-- Each pending entry belongs to the one submission that pushed it. -/
structure FifoOk (w : World) (calls : List ToolCall) : Prop where
  next : w.fifoNext = calls.length
  fresh : ∀ i, w.fifoNext ≤ i → w.fifo i = .absent
  calls : ∀ i call, (w.fifo i).call? = some call → calls[i]? = some call
  callIds : w.queue.callIds.Nodup
  owned : ∀ e ∈ w.queue.pending, (w.fifo e.resolver).guarded = true ∧
    (w.fifo e.resolver).call? = some e.call ∧
    ∃ draw, (w.fifo e.resolver).draw? = some draw ∧ e.nonce = nonceOf draw
  drawn : ∀ i draw, (w.fifo i).draw? = some draw → draw < w.queue.nextNonce
  draws : ∀ i j draw, (w.fifo i).draw? = some draw → (w.fifo j).draw? = some draw → i = j

namespace FifoOk

variable {w w' : World} {l : Label} {calls : List ToolCall}

theorem init : FifoOk .init [] where
  next := rfl
  fresh _ _ := rfl
  calls _ _ h := nomatch h
  callIds := List.nodup_nil
  owned _ he := nomatch he
  drawn _ _ h := nomatch h
  draws _ _ _ h := nomatch h

theorem ne_next (h : FifoOk w calls) {i : ℕ} (hi : w.fifo i ≠ .absent) : i ≠ w.fifoNext := by
  intro heq
  exact hi (h.fresh i (le_of_eq heq.symm))

theorem nextNonce_le (hstep : FifoStep w w' l) : w.queue.nextNonce ≤ w'.queue.nextNonce := by
  cases hstep with
  | elsewhere _ _ _ _ nonce => exact nonce
  | submitted _ _ _ _ nonce => exact nonce
  | moved _ _ _ _ _ _ _ _ _ _ nonce => exact nonce
  | drew _ nonce => exact nonce ▸ Nat.le_succ _
  | pushed _ _ _ _ _ _ _ nonce => exact nonce
  | left _ _ _ _ _ _ nonce => exact nonce
  | cleaned _ _ _ _ _ nonce => exact nonce
  | resolved _ _ _ _ _ nonce => exact nonce
  | drained _ _ _ _ _ nonce => exact nonce

/-- The submission counter follows the calls. -/
theorem step_next (h : FifoOk w calls) (hstep : FifoStep w w' l) :
    w'.fifoNext = (calls ++ fifoCalls [l]).length ∧ (∀ i, w'.fifoNext ≤ i → w'.fifo i = .absent) := by
  have hquiet : (∀ call, l ≠ .submit call) → fifoCalls [l] = [] := by
    intro hl
    cases l with
    | submit call => exact absurd rfl (hl call)
    | _ => rfl
  have habsent : ∀ i, w'.fifoNext = w.fifoNext → (∀ call, l ≠ .submit call) → w.fifoNext ≤ i →
      w'.fifo i = .absent := by
    intro i hnext hl hi
    have hbefore := h.fresh i hi
    cases hstep.move i with
    | stays fifo => rw [fifo, hbefore]
    | enters call label => exact absurd label (hl call)
    | moves call _ _ callBefore =>
        rw [hbefore] at callBefore
        cases callBefore
    | draws call _ before =>
        rw [hbefore] at before
        cases before
    | pushes call draw before =>
        rw [hbefore] at before
        cases before
    | leaves call draw result before =>
        rw [hbefore] at before
        cases before
    | cleans call draw result before =>
        rw [hbefore] at before
        cases before
  have hsame : w'.fifoNext = w.fifoNext → (∀ call, l ≠ .submit call) →
      w'.fifoNext = (calls ++ fifoCalls [l]).length ∧ (∀ i, w'.fifoNext ≤ i → w'.fifo i = .absent) := by
    intro hnext hl
    refine ⟨?_, ?_⟩
    · rw [hquiet hl, List.append_nil, hnext, h.next]
    · intro i hi
      rw [hnext] at hi
      exact habsent i hnext hl hi
  cases hstep with
  | elsewhere _ _ _ next _ label => exact hsame next label
  | @submitted call _ fifo _ next =>
      refine ⟨?_, ?_⟩
      · rw [next, h.next, List.length_append]
        rfl
      · intro i hi
        rw [next] at hi
        rw [fifo, Function.update_of_ne (by omega)]
        exact h.fresh i (by omega)
  | moved _ _ _ _ _ _ _ _ _ next => exact hsame next nofun
  | drew _ _ _ _ _ next => exact hsame next nofun
  | pushed _ _ _ _ _ _ next => exact hsame next nofun
  | left _ _ _ _ _ next _ label => exact hsame next label
  | cleaned _ _ _ _ next => exact hsame next nofun
  | resolved label _ _ _ next =>
      refine hsame next ?_
      intro call hl
      subst hl
      rcases label with ⟨hl, -⟩ | ⟨hl, -⟩ | ⟨k, u, hl, -⟩
      · cases hl
      · cases hl
      · cases hl
  | drained _ _ _ _ next => exact hsame next nofun

theorem step (h : FifoOk w calls) (hstep : FifoStep w w' l) : FifoOk w' (calls ++ fifoCalls [l]) where
  next := (h.step_next hstep).1
  fresh := (h.step_next hstep).2
  calls := by
    intro i call hcall
    rcases (hstep.move i).call?_eq hcall with hbefore | ⟨rfl, rfl⟩
    · have hi := h.calls i call hbefore
      rw [List.getElem?_append_left (List.getElem?_eq_some_iff.mp hi).1]
      exact hi
    · rw [h.next, List.getElem?_append_right (le_refl _), Nat.sub_self]
      rfl
  callIds := hstep.nodup_callIds h.callIds
  owned := by
    intro e he
    rcases hstep.mem_pending he with hbefore | ⟨draw, -, hafter, hnonce⟩
    · obtain ⟨hguarded, hcall, draw, hdraw, hnonce⟩ := h.owned e hbefore
      have hnext : e.resolver ≠ w.fifoNext := by
        apply h.ne_next
        intro habsent
        rw [habsent] at hcall
        cases hcall
      rcases (hstep.move e.resolver).guarded_eq hnext hguarded with
        ⟨hg, hc, hd⟩ | ⟨call, draw', result, hbefore, hdone⟩
      · exact ⟨hg, hc.trans hcall, draw, hd.trans hdraw, hnonce⟩
      · -- Its cleanup has run, and took the entry with it.
        rw [hbefore] at hcall hdraw
        cases hcall
        cases hdraw
        exact absurd he (hstep.not_mem_of_done hbefore hdone hnonce h.callIds)
    · rw [hafter]
      exact ⟨rfl, rfl, draw, rfl, hnonce⟩
  drawn := by
    intro i draw hdraw
    rcases (hstep.move i).draw?_eq hdraw with hbefore | ⟨-, rfl, hnonce⟩
    · exact lt_of_lt_of_le (h.drawn i draw hbefore) (nextNonce_le hstep)
    · rw [hnonce]
      exact Nat.lt_succ_self _
  draws := by
    intro i j draw hi hj
    -- A draw that was there before is not the counter's next.
    have hold : ∀ {i'}, (w.fifo i').draw? = some draw → draw ≠ w.queue.nextNonce := by
      intro i' hi'
      exact ne_of_lt (h.drawn i' draw hi')
    rcases (hstep.move i).draw?_eq hi with hi' | ⟨hlabel, hdraw, -⟩
    · rcases (hstep.move j).draw?_eq hj with hj' | ⟨-, hdraw, -⟩
      · exact h.draws i j draw hi' hj'
      · exact absurd hdraw (hold hi')
    · rcases (hstep.move j).draw?_eq hj with hj' | ⟨hlabel', -⟩
      · exact absurd hdraw (hold hj')
      · rw [hlabel] at hlabel'
        cases hlabel'
        rfl

end FifoOk

theorem fifoCalls_concat (ls : List Label) (l : Label) : fifoCalls (ls ++ [l]) = fifoCalls ls ++ fifoCalls [l] :=
  List.filterMap_append

/-- The invariant holds after every interleaving. -/
theorem fifoOk (ctx : SigningContext) (ls : List Label) : FifoOk (World.run ctx ls) (fifoCalls ls) := by
  induction ls using List.reverseRecOn with
  | nil => exact .init
  | append_singleton ls l ih =>
      rw [fifoCalls_concat, World.run, Machine.run_concat]
      exact ih.step (fifo_step ctx _ l)

end AgentRuntime.Hitl
