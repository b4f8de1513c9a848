import AgentRuntime.Hitl.Earned
import AgentRuntime.Hitl.Fifo
import AgentRuntime.Lib.Handoff

/-!
# `Hitl.Waiters` — submissions as waiters

A submission on either track is a waiter of `Lib.Handoff`: `World.view` is what that library sees of it, and every
access is one of its steps (`view_step`). A decision that settles an entry gives its outcome to the entry's submission
(`popHead_give`, `settleRole_give`).
-/

namespace AgentRuntime.Hitl

open Handoff

/-! ## Submissions as waiters -/

inductive Track where
  | fifo
  | role
deriving DecidableEq

def FifoPc.stage : FifoPc → Stage (Ending Resolution)
  | .waiting _ _ => .waiting
  | .leaving _ _ result | .done result => .ended result
  | _ => .early

def Ending.map {ρ σ : Type} (f : ρ → σ) : Ending ρ → Ending σ
  | .resolved r => .resolved (f r)
  | .dropped => .dropped

def RolePc.stage : RolePc → Stage (Ending Resolution)
  | .waiting _ _ => .waiting
  | .leaving _ _ result | .done result => .ended (result.map .decided)
  | _ => .early

/-- How a submission ends that reads `o` from its channel. -/
def readOutcome : Track → ApprovalOutcome → Ending Resolution
  | .fifo, o => .resolved (World.resolutionOf o)
  | .role, o => .resolved (.decided (World.publicOf o))

namespace World

def fifoView (w : World) (i : ℕ) : State ApprovalOutcome (Ending Resolution) where
  stage := (w.fifo i).stage
  value := (w.fifoChan i).value
  listening := (w.fifoChan i).receiverAlive
  queued := w.queue.pending.any fun e => e.resolver == i

def roleView (w : World) (i : ℕ) : State ApprovalOutcome (Ending Resolution) where
  stage := (w.role i).stage
  value := (w.roleChan i).value
  listening := (w.roleChan i).receiverAlive
  queued := w.queue.rolePending.any fun e => e.2.resolver == i

/-- What a submission and its entry look like from outside. -/
def view (w : World) : Track → ℕ → State ApprovalOutcome (Ending Resolution)
  | .fifo, i => w.fifoView i
  | .role, i => w.roleView i

end World

/-- The submission stops waiting without reading: its timeout fires, or its future is dropped. -/
def Label.Abandons (l : Label) : Track → ℕ → Prop
  | .fifo, i => l = .timeOut i ∨ l = .cancel i
  | .role, i => l = .timeOutRole i ∨ l = .cancelRole i

/-! ## The FIFO track -/

section

variable {ctx : SigningContext} {w v : World} {i : ℕ} {Quit : Prop}

theorem SameFifo.handoff (h : SameFifo w v) : Step (readOutcome .fifo) Quit (w.fifoView i) (v.fifoView i) := by
  refine .of_same ?_ ?_ ?_ ?_
  · exact congrArg FifoPc.stage (congrFun h.fifo i)
  · exact congrArg Oneshot.value (congrFun h.chan i)
  · exact congrArg Oneshot.receiverAlive (congrFun h.chan i)
  · intro hqueued
    rwa [World.fifoView, h.pending] at hqueued

/-- A submission moves before it waits. -/
theorem setFifo_handoff {j : ℕ} {pc : FifoPc} (h : SameFifo w v) (before : (w.fifo j).stage = .early)
    (after : pc.stage ≠ .waiting) :
    Step (readOutcome .fifo) Quit (w.fifoView i) ((v.setFifo j pc).fifoView i) := by
  by_cases hi : i = j
  · subst hi
    have hpc : (v.setFifo i pc).fifo i = pc := Function.update_self ..
    cases hafter : pc.stage with
    | waiting => exact absurd hafter after
    | early =>
        refine .of_same ?_ (congrArg Oneshot.value (congrFun h.chan i))
          (congrArg Oneshot.receiverAlive (congrFun h.chan i)) ?_
        · show ((v.setFifo i pc).fifo i).stage = (w.fifo i).stage
          rw [hpc, hafter, before]
        · intro hqueued
          rwa [World.fifoView, World.setFifo, h.pending] at hqueued
    | ended r =>
        have heq : (v.setFifo i pc).fifoView i = { w.fifoView i with stage := .ended r } := by
          unfold World.fifoView
          rw [hpc, hafter]
          unfold World.setFifo
          rw [h.chan, h.pending]
        rw [heq]
        exact .refused before
  · have hkept : (v.setFifo j pc).fifo i = v.fifo i := Function.update_of_ne hi ..
    refine .of_same ?_ (congrArg Oneshot.value (congrFun h.chan i))
      (congrArg Oneshot.receiverAlive (congrFun h.chan i)) ?_
    · show ((v.setFifo j pc).fifo i).stage = (w.fifo i).stage
      rw [hkept, h.fifo]
    · intro hqueued
      rwa [World.fifoView, World.setFifo, h.pending] at hqueued

theorem fifoView_congr (hfifo : v.fifo i = w.fifo i) (hchan : v.fifoChan i = w.fifoChan i)
    (hpending : (v.queue.pending.any fun e => e.resolver == i) = w.queue.pending.any fun e => e.resolver == i) :
    v.fifoView i = w.fifoView i := by
  unfold World.fifoView
  rw [hfifo, hchan, hpending]

/-- An access of another submission leaves this one alone. -/
theorem fifo_elsewhere (hfifo : v.fifo i = w.fifo i) (hchan : v.fifoChan i = w.fifoChan i)
    (hpending : (v.queue.pending.any fun e => e.resolver == i) = w.queue.pending.any fun e => e.resolver == i) :
    Step (readOutcome .fifo) Quit (w.fifoView i) (v.fifoView i) := by
  rw [fifoView_congr hfifo hchan hpending]
  exact .refl _

theorem pushed_view {q : ApprovalQueue} {call : ToolCall} {draw : ℕ}
    (hqueued : (q.pending.any fun e => e.resolver == i) = true) :
    ((w.setQueue q).setFifo i (.waiting call draw)).fifoView i =
      { w.fifoView i with stage := .waiting, queued := true } := by
  have hself : ((w.setQueue q).setFifo i (.waiting call draw)).fifo i = .waiting call draw := Function.update_self ..
  unfold World.fifoView
  rw [hself]
  unfold World.setFifo World.setQueue
  simp only [hqueued]
  rfl

theorem advanceFifo_handoff (w : World) (j : ℕ) :
    Step (readOutcome .fifo) Quit (w.fifoView i) ((w.advanceFifo j).fifoView i) := by
  have hearly {pc : FifoPc} (hpc : w.fifo j = pc) (h : pc.stage = .early) : (w.fifo j).stage = .early := by
    rw [hpc, h]
  unfold World.advanceFifo
  cases hpc : w.fifo j with
  | entered call =>
      simp only
      split
      · exact setFifo_handoff (.refl w) (hearly hpc rfl) nofun
      · exact setFifo_handoff (.refl w) (hearly hpc rfl) nofun
  | trusting call =>
      simp only
      refine setFifo_handoff ⟨rfl, rfl, rfl, rfl, le_rfl⟩ (hearly hpc rfl) ?_
      split
      · exact nofun
      · exact nofun
  | recalling call =>
      simp only
      split
      · exact setFifo_handoff (.refl w) (hearly hpc rfl) nofun
      · exact setFifo_handoff (.refl w) (hearly hpc rfl) nofun
  | drawing call => exact setFifo_handoff ⟨rfl, rfl, rfl, rfl, Nat.le_succ _⟩ (hearly hpc rfl) nofun
  | pushing call draw =>
      simp only
      cases henqueue : w.queue.enqueue call j (nonceOf draw) with
      | none => exact setFifo_handoff (.refl w) (hearly hpc rfl) nofun
      | some q =>
          obtain ⟨-, -, rfl⟩ := enqueue_eq_some henqueue
          by_cases hi : i = j
          · subst hi
            have hqueued : ((w.queue.pending ++
                [({ call := call, resolver := i, nonce := nonceOf draw } : PendingEntry)]).any
                  fun e => e.resolver == i) = true := by
              rw [List.any_append, List.any_cons, beq_self_eq_true, Bool.true_or, Bool.or_true]
            simp only
            rw [pushed_view hqueued]
            exact .enters (hearly hpc rfl)
          · refine fifo_elsewhere (Function.update_of_ne hi ..) rfl ?_
            show ((w.queue.pending ++ [_]).any _) = _
            rw [List.any_append, List.any_cons, beq_false_of_ne (Ne.symm hi), Bool.false_or, List.any_nil,
              Bool.or_false]
  | absent => exact .refl _
  | waiting call draw => exact .refl _
  | leaving call draw result => exact .refl _
  | done result => exact .refl _

/-- A wait that ends without reading. -/
theorem leaveFifo_quits {result : Ending Resolution} (hwaiting : (w.fifo i).stage = .waiting) :
    (w.leaveFifo i result).fifoView i = { w.fifoView i with stage := .ended result, listening := false } := by
  unfold World.leaveFifo
  cases hpc : w.fifo i with
  | waiting call draw =>
      simp only
      unfold World.fifoView World.setFifo World.setFifoChan
      simp only [Function.update_self]
      rfl
  | _ =>
      rw [hpc] at hwaiting
      cases hwaiting

theorem leaveFifo_other {j : ℕ} {result : Ending Resolution} (h : i ≠ j ∨ (w.fifo j).stage ≠ .waiting) :
    (w.leaveFifo j result).fifoView i = w.fifoView i := by
  unfold World.leaveFifo
  cases hpc : w.fifo j with
  | waiting call draw =>
      rcases h with h | h
      · exact fifoView_congr (Function.update_of_ne h ..) (Function.update_of_ne h ..) rfl
      · exact absurd (by rw [hpc]; rfl) h
  | _ => rfl

/-- A submission that times out or is dropped gives up. -/
theorem leaveFifo_handoff (w : World) (j : ℕ) (result : Ending Resolution)
    (hquit : i = j → (w.fifoChan i).value = none ∨ Quit) :
    Step (readOutcome .fifo) Quit (w.fifoView i) ((w.leaveFifo j result).fifoView i) := by
  by_cases h : i ≠ j ∨ (w.fifo j).stage ≠ .waiting
  · rw [leaveFifo_other h]
    exact .refl _
  · rw [not_or, not_not, not_not] at h
    obtain ⟨rfl, hwaiting⟩ := h
    rw [leaveFifo_quits hwaiting]
    exact .quits hwaiting (hquit rfl)

theorem pollFifo_handoff (w : World) (j : ℕ) :
    Step (readOutcome .fifo) Quit (w.fifoView i) ((w.pollFifo j).fifoView i) := by
  unfold World.pollFifo
  cases hvalue : (w.fifoChan j).value with
  | none =>
      simp only
      split
      · exact .refl _
      · refine leaveFifo_handoff w j _ ?_
        rintro rfl
        exact .inl hvalue
  | some o =>
      by_cases h : i ≠ j ∨ (w.fifo j).stage ≠ .waiting
      · rw [leaveFifo_other h]
        exact .refl _
      · rw [not_or, not_not, not_not] at h
        obtain ⟨rfl, hwaiting⟩ := h
        rw [leaveFifo_quits hwaiting]
        exact .reads hwaiting hvalue

theorem cleanupFifo_handoff (w : World) (j : ℕ) :
    Step (readOutcome .fifo) Quit (w.fifoView i) ((w.cleanupFifo j).fifoView i) := by
  unfold World.cleanupFifo
  cases hpc : w.fifo j with
  | leaving call draw result =>
      have hstage : ((Function.update w.fifo j (.done result)) i).stage = (w.fifo i).stage := by
        by_cases hi : i = j
        · subst hi
          rw [Function.update_self, hpc]
          rfl
        · rw [Function.update_of_ne hi]
      have hqueued : ((w.queue.pending.eraseP (ApprovalQueue.isEntryOf call.callId (nonceOf draw))).any
          fun e => e.resolver == i) = true → (w.queue.pending.any fun e => e.resolver == i) = true := by
        rw [List.any_eq_true, List.any_eq_true]
        rintro ⟨e, he, heq⟩
        exact ⟨e, List.mem_of_mem_eraseP he, heq⟩
      simp only
      split
      · rename_i e _
        -- only the sender of the evicted entry is dropped
        refine .of_same hstage ?_ ?_ hqueued
        · show (Function.update w.fifoChan e.resolver _ i).value = _
          by_cases hi : i = e.resolver
          · subst hi
            rw [Function.update_self]
            rfl
          · rw [Function.update_of_ne hi]
            rfl
        · show (Function.update w.fifoChan e.resolver _ i).receiverAlive = _
          by_cases hi : i = e.resolver
          · subst hi
            rw [Function.update_self]
            rfl
          · rw [Function.update_of_ne hi]
            rfl
      · exact .of_same hstage rfl rfl hqueued
  | _ => exact .refl _

/-- Two pending entries belong to two submissions. -/
theorem FifoOk.notMem {calls : List ToolCall} (h : FifoOk w calls) {e : PendingEntry} {rest : List PendingEntry}
    (hpending : w.queue.pending = e :: rest) : (rest.any fun e' => e'.resolver == e.resolver) = false := by
  rw [List.any_eq_false]
  intro e' he' heq
  have hsame : e'.resolver = e.resolver := beq_iff_eq.mp heq
  obtain ⟨-, hcall, -⟩ := h.owned e (by rw [hpending]; exact List.mem_cons_self)
  obtain ⟨-, hcall', -⟩ := h.owned e' (by rw [hpending]; exact List.mem_cons_of_mem _ he')
  rw [hsame, hcall] at hcall'
  have hids := h.callIds
  unfold ApprovalQueue.callIds at hids
  rw [hpending, List.map_cons, List.nodup_cons] at hids
  apply hids.1
  rw [Option.some.inj hcall']
  exact List.mem_map_of_mem he'

theorem send_fields (c : Oneshot) (o : ApprovalOutcome) :
    (c.send o).value = (if c.receiverAlive then some o else c.value) ∧ (c.send o).receiverAlive = c.receiverAlive := by
  unfold Oneshot.send
  split
  · exact ⟨rfl, rfl⟩
  · exact ⟨rfl, rfl⟩

/-- **A decision about the head** is given to its submission. -/
theorem popHead_give {calls : List ToolCall} (hok : FifoOk w calls) {callId : String} {e : PendingEntry}
    {q : ApprovalQueue} (hpop : w.queue.popHead callId = some (e, q)) (o : ApprovalOutcome) :
    (w.fifoView e.resolver).queued = true ∧
      (w.resolveHeadById callId o).2.fifoView e.resolver = (w.fifoView e.resolver).give o := by
  obtain ⟨-, hpending, hq⟩ := popHead_eq_some hpop
  have hrest := hok.notMem hpending
  obtain ⟨hvalue, halive⟩ := send_fields (w.fifoChan e.resolver) o
  constructor
  · show (w.queue.pending.any fun e' => e'.resolver == e.resolver) = true
    rw [hpending, List.any_cons, beq_self_eq_true, Bool.true_or]
  · unfold World.resolveHeadById
    simp only [hpop]
    unfold World.fifoView State.give World.setQueue World.setFifoChan
    simp only [Function.update_self, hvalue, halive, hrest]

theorem resolveHeadById_handoff {calls : List ToolCall} (hok : FifoOk w calls) (callId : String)
    (o : ApprovalOutcome) :
    Step (readOutcome .fifo) Quit (w.fifoView i) ((w.resolveHeadById callId o).2.fifoView i) := by
  cases hpop : w.queue.popHead callId with
  | none =>
      unfold World.resolveHeadById
      simp only [hpop]
      exact .refl _
  | some popped =>
      obtain ⟨e, q⟩ := popped
      by_cases hi : i = e.resolver
      · subst hi
        obtain ⟨hqueued, hgive⟩ := popHead_give hok hpop o
        rw [hgive]
        exact .given hqueued
      · obtain ⟨-, hpending, -⟩ := popHead_eq_some hpop
        unfold World.resolveHeadById
        simp only [hpop]
        refine fifo_elsewhere rfl (Function.update_of_ne hi ..) ?_
        rw [hpending, List.any_cons, beq_false_of_ne (Ne.symm hi), Bool.false_or]
        rfl

theorem drainFifo_handoff (w : World) :
    Step (readOutcome .fifo) Quit (w.fifoView i) (w.drainFifo.fifoView i) := by
  cases hqueued : w.queue.pending.any fun e => e.resolver == i with
  | true =>
      obtain ⟨hvalue, halive⟩ := send_fields (w.fifoChan i) .rejected
      have heq : w.drainFifo.fifoView i = (w.fifoView i).give .rejected := by
        unfold World.drainFifo World.fifoView State.give
        simp only [hqueued, if_true, hvalue, halive, List.any_nil]
      rw [heq]
      exact .given hqueued
  | false =>
      refine .of_same rfl ?_ ?_ nofun
      · unfold World.drainFifo World.fifoView
        simp only [hqueued, Bool.false_eq_true, if_false]
      · unfold World.drainFifo World.fifoView
        simp only [hqueued, Bool.false_eq_true, if_false]

/-- **Every access, seen from a FIFO submission.** -/
theorem fifoView_step {calls : List ToolCall} (hok : FifoOk w calls) (l : Label) (i : ℕ) :
    Step (readOutcome .fifo) (l.Abandons .fifo i) (w.fifoView i) ((w.exec ctx l).fifoView i) := by
  cases l with
  | submit call =>
      refine .of_same ?_ rfl rfl id
      show (Function.update w.fifo w.fifoNext (.entered call) i).stage = (w.fifo i).stage
      by_cases hi : i = w.fifoNext
      · rw [hi, Function.update_self, hok.fresh _ (le_refl _)]
        rfl
      · rw [Function.update_of_ne hi]
  | advance j => exact advanceFifo_handoff w j
  | poll j => exact pollFifo_handoff w j
  | timeOut j =>
      refine leaveFifo_handoff w j _ ?_
      rintro rfl
      exact .inr (.inl rfl)
  | cancel j =>
      refine leaveFifo_handoff w j _ ?_
      rintro rfl
      exact .inr (.inr rfl)
  | cleanup j => exact cleanupFifo_handoff w j
  | approveById callId => exact resolveHeadById_handoff hok callId .approved
  | rejectById callId => exact resolveHeadById_handoff hok callId .rejected
  | rememberUnknown callId outcome =>
      unfold World.exec World.setQueue World.fifoView
      dsimp only [ApprovalQueue.rememberUnknownOutcome]
      exact .refl _
  | approveUnknown k =>
      dsimp only [World.exec]
      cases w.unknowns[k]? with
      | none => exact .refl _
      | some u =>
          have hok' : FifoOk { w with unknowns := w.unknowns.eraseIdx k } calls :=
            ⟨hok.next, hok.fresh, hok.calls, hok.callIds, hok.owned, hok.drawn, hok.draws⟩
          exact resolveHeadById_handoff hok' u.1 (.submittedOutcomeUnknown u.2)
  | addGrant toolName => exact .refl _
  | tick seconds => exact .refl _
  | submitForAction sub => exact .refl _
  | advanceRole j => exact (advanceRole_sameFifo w j).handoff
  | pollRole j => exact (pollRole_sameFifo w j).handoff
  | timeOutRole j => exact (leaveRole_sameFifo w j _).handoff
  | cancelRole j => exact (leaveRole_sameFifo w j _).handoff
  | cleanupRole j => exact (cleanupRole_sameFifo w j).handoff
  | addSignature callId sig =>
      have hsame : SameFifo w (w.addSignature ctx callId sig).2 := addSignature_sameFifo w callId sig
      exact hsame.handoff
  | rejectAction callId => exact (rejectAction_sameFifo w callId).handoff
  | freeze => exact .refl _
  | advanceFreeze f =>
      show Step _ _ _ ((w.advanceFreeze f).fifoView i)
      unfold World.advanceFreeze
      cases w.freezes f with
      | drainingFifo => exact drainFifo_handoff w
      | drainingRole drained => exact .refl _
      | absent => exact .refl _
      | returned drained => exact .refl _
  | thaw => exact .refl _

end

/-! ## The role-aware track -/

section

variable {ctx : SigningContext} {w v : World} {i : ℕ} {Quit : Prop}

theorem SameRole.handoff (h : SameRole w v) : Step (readOutcome .role) Quit (w.roleView i) (v.roleView i) := by
  refine .of_same ?_ ?_ ?_ ?_
  · exact congrArg RolePc.stage (congrFun h.role i)
  · exact congrArg Oneshot.value (congrFun h.chan i)
  · exact congrArg Oneshot.receiverAlive (congrFun h.chan i)
  · intro hqueued
    rwa [World.roleView, h.pending] at hqueued

/-- A submission moves before it waits. -/
theorem setRole_handoff {j : ℕ} {pc : RolePc} (h : SameRole w v) (before : (w.role j).stage = .early)
    (after : pc.stage ≠ .waiting) :
    Step (readOutcome .role) Quit (w.roleView i) ((v.setRole j pc).roleView i) := by
  by_cases hi : i = j
  · subst hi
    have hpc : (v.setRole i pc).role i = pc := Function.update_self ..
    cases hafter : pc.stage with
    | waiting => exact absurd hafter after
    | early =>
        refine .of_same ?_ (congrArg Oneshot.value (congrFun h.chan i))
          (congrArg Oneshot.receiverAlive (congrFun h.chan i)) ?_
        · show ((v.setRole i pc).role i).stage = (w.role i).stage
          rw [hpc, hafter, before]
        · intro hqueued
          rwa [World.roleView, World.setRole, h.pending] at hqueued
    | ended r =>
        have heq : (v.setRole i pc).roleView i = { w.roleView i with stage := .ended r } := by
          unfold World.roleView
          rw [hpc, hafter]
          unfold World.setRole
          rw [h.chan, h.pending]
        rw [heq]
        exact .refused before
  · have hkept : (v.setRole j pc).role i = v.role i := Function.update_of_ne hi ..
    refine .of_same ?_ (congrArg Oneshot.value (congrFun h.chan i))
      (congrArg Oneshot.receiverAlive (congrFun h.chan i)) ?_
    · show ((v.setRole j pc).role i).stage = (w.role i).stage
      rw [hkept, h.role]
    · intro hqueued
      rwa [World.roleView, World.setRole, h.pending] at hqueued

theorem roleView_congr (hrole : v.role i = w.role i) (hchan : v.roleChan i = w.roleChan i)
    (hpending : (v.queue.rolePending.any fun e => e.2.resolver == i)
      = w.queue.rolePending.any fun e => e.2.resolver == i) :
    v.roleView i = w.roleView i := by
  unfold World.roleView
  rw [hrole, hchan, hpending]

/-- An access of another submission leaves this one alone. -/
theorem role_elsewhere (hrole : v.role i = w.role i) (hchan : v.roleChan i = w.roleChan i)
    (hpending : (v.queue.rolePending.any fun e => e.2.resolver == i)
      = w.queue.rolePending.any fun e => e.2.resolver == i) :
    Step (readOutcome .role) Quit (w.roleView i) (v.roleView i) := by
  rw [roleView_congr hrole hchan hpending]
  exact .refl _

theorem inserted_view {q : ApprovalQueue} {sub : RoleSubmission} {draw : ℕ}
    (hqueued : (q.rolePending.any fun e => e.2.resolver == i) = true) :
    ((w.setQueue q).setRole i (.waiting sub draw)).roleView i =
      { w.roleView i with stage := .waiting, queued := true } := by
  have hself : ((w.setQueue q).setRole i (.waiting sub draw)).role i = .waiting sub draw := Function.update_self ..
  unfold World.roleView
  rw [hself]
  unfold World.setRole World.setQueue
  simp only [hqueued]
  rfl

theorem advanceRole_handoff (w : World) (j : ℕ) :
    Step (readOutcome .role) Quit (w.roleView i) ((w.advanceRole j).roleView i) := by
  have hearly {pc : RolePc} (hpc : w.role j = pc) (h : pc.stage = .early) : (w.role j).stage = .early := by
    rw [hpc, h]
  unfold World.advanceRole
  cases hpc : w.role j with
  | entered sub =>
      simp only
      split
      · exact setRole_handoff (.refl w) (hearly hpc rfl) nofun
      · split
        · exact setRole_handoff (.refl w) (hearly hpc rfl) nofun
        · exact setRole_handoff (.refl w) (hearly hpc rfl) nofun
  | drawing sub => exact setRole_handoff ⟨rfl, rfl, rfl, rfl⟩ (hearly hpc rfl) nofun
  | inserting sub draw =>
      simp only
      cases hinsert : w.queue.insertRole sub.call.callId _ with
      | none => exact setRole_handoff (.refl w) (hearly hpc rfl) nofun
      | some q =>
          obtain ⟨-, -, rfl⟩ := insertRole_eq_some hinsert
          simp only
          by_cases hi : i = j
          · subst hi
            rw [inserted_view]
            · exact .enters (hearly hpc rfl)
            · show ((_ :: w.queue.rolePending).any _) = true
              rw [List.any_cons, beq_self_eq_true, Bool.true_or]
          · refine role_elsewhere (Function.update_of_ne hi ..) rfl ?_
            show ((_ :: w.queue.rolePending).any _) = _
            rw [List.any_cons, beq_false_of_ne (Ne.symm hi), Bool.false_or]
  | absent => exact .refl _
  | waiting sub draw => exact .refl _
  | leaving sub draw result => exact .refl _
  | done result => exact .refl _

/-- A wait that ends without reading. -/
theorem leaveRole_quits {result : Ending ApprovalOutcomePublic} (hwaiting : (w.role i).stage = .waiting) :
    (w.leaveRole i result).roleView i =
      { w.roleView i with stage := .ended (result.map .decided), listening := false } := by
  unfold World.leaveRole
  cases hpc : w.role i with
  | waiting sub draw =>
      simp only
      unfold World.roleView World.setRole World.setRoleChan
      simp only [Function.update_self]
      rfl
  | _ =>
      rw [hpc] at hwaiting
      cases hwaiting

theorem leaveRole_other {j : ℕ} {result : Ending ApprovalOutcomePublic}
    (h : i ≠ j ∨ (w.role j).stage ≠ .waiting) : (w.leaveRole j result).roleView i = w.roleView i := by
  unfold World.leaveRole
  cases hpc : w.role j with
  | waiting sub draw =>
      rcases h with h | h
      · exact roleView_congr (Function.update_of_ne h ..) (Function.update_of_ne h ..) rfl
      · exact absurd (by rw [hpc]; rfl) h
  | _ => rfl

/-- A submission that times out or is dropped gives up. -/
theorem leaveRole_handoff (w : World) (j : ℕ) (result : Ending ApprovalOutcomePublic)
    (hquit : i = j → (w.roleChan i).value = none ∨ Quit) :
    Step (readOutcome .role) Quit (w.roleView i) ((w.leaveRole j result).roleView i) := by
  by_cases h : i ≠ j ∨ (w.role j).stage ≠ .waiting
  · rw [leaveRole_other h]
    exact .refl _
  · rw [not_or, not_not, not_not] at h
    obtain ⟨rfl, hwaiting⟩ := h
    rw [leaveRole_quits hwaiting]
    exact .quits hwaiting (hquit rfl)

theorem pollRole_handoff (w : World) (j : ℕ) :
    Step (readOutcome .role) Quit (w.roleView i) ((w.pollRole j).roleView i) := by
  unfold World.pollRole
  cases hvalue : (w.roleChan j).value with
  | none =>
      simp only
      split
      · exact .refl _
      · refine leaveRole_handoff w j _ ?_
        rintro rfl
        exact .inl hvalue
  | some o =>
      by_cases h : i ≠ j ∨ (w.role j).stage ≠ .waiting
      · rw [leaveRole_other h]
        exact .refl _
      · rw [not_or, not_not, not_not] at h
        obtain ⟨rfl, hwaiting⟩ := h
        rw [leaveRole_quits hwaiting]
        exact .reads hwaiting hvalue

/-- A dropped sender is not seen at the other end. -/
theorem dropRoleSender_sees (w : World) (callId : String) (nonce : ℕ) :
    ∃ chan, w.dropRoleSender callId nonce = { w with roleChan := chan } ∧
      ∀ j, (chan j).value = (w.roleChan j).value ∧ (chan j).receiverAlive = (w.roleChan j).receiverAlive := by
  unfold World.dropRoleSender
  split
  · rename_i e _
    split
    · refine ⟨_, rfl, ?_⟩
      intro j
      by_cases hj : j = e.resolver
      · rw [hj, Function.update_self]
        exact ⟨rfl, rfl⟩
      · rw [Function.update_of_ne hj]
        exact ⟨rfl, rfl⟩
    · exact ⟨w.roleChan, rfl, fun _ => ⟨rfl, rfl⟩⟩
  · exact ⟨w.roleChan, rfl, fun _ => ⟨rfl, rfl⟩⟩

theorem cleanupRole_handoff (w : World) (j : ℕ) :
    Step (readOutcome .role) Quit (w.roleView i) ((w.cleanupRole j).roleView i) := by
  unfold World.cleanupRole
  cases hpc : w.role j with
  | leaving sub draw result =>
      simp only
      obtain ⟨chan, hdrop, hsees⟩ := dropRoleSender_sees w sub.call.callId (nonceOf draw)
      rw [hdrop]
      refine .of_same ?_ (hsees i).1 (hsees i).2 ?_
      · show ((Function.update w.role j (.done result)) i).stage = (w.role i).stage
        by_cases hi : i = j
        · subst hi
          rw [Function.update_self, hpc]
          rfl
        · rw [Function.update_of_ne hi]
      · show ((w.queue.evictRole sub.call.callId (nonceOf draw)).rolePending.any _) = true → _
        rw [List.any_eq_true]
        rintro ⟨e, he, heq⟩
        exact List.any_eq_true.mpr ⟨e, mem_evictRole he, heq⟩
  | _ => exact .refl _

/-- The entry found under a call id is settled with `o`. -/
def settleRole (w : World) (callId : String) (entry : RoleAwareEntry) (o : ApprovalOutcome) : World :=
  (w.setQueue (w.queue.removeRole callId)).setRoleChan entry.resolver ((w.roleChan entry.resolver).send o)

section

variable {subs : List RoleSubmission} {acc : ℕ → List Signature} {sent : ℕ → List ApprovalOutcome}
  {callId : String} {entry : RoleAwareEntry}

/-- **A decision on the role-aware track** is given to the submission of the entry. -/
theorem settleRole_give (hok : RoleOk ctx w subs acc sent) (hfound : w.queue.rolePending.lookup callId = some entry)
    (o : ApprovalOutcome) :
    (w.roleView entry.resolver).queued = true ∧
      (settleRole w callId entry o).roleView entry.resolver = (w.roleView entry.resolver).give o := by
  obtain ⟨hmem, -⟩ := hok.found hfound
  obtain ⟨hvalue, halive⟩ := send_fields (w.roleChan entry.resolver) o
  have hrest : ((w.queue.removeRole callId).rolePending.any fun e => e.2.resolver == entry.resolver) = false := by
    rw [List.any_eq_false]
    intro e he heq
    obtain ⟨he, hkey⟩ := mem_removeRole.mp he
    have hsame := hok.eq_of_resolver he hmem (beq_iff_eq.mp heq)
    exact hkey (congrArg Prod.fst hsame)
  constructor
  · exact List.any_eq_true.mpr ⟨_, hmem, beq_self_eq_true _⟩
  · unfold settleRole World.roleView State.give World.setQueue World.setRoleChan
    simp only [Function.update_self, hvalue, halive, hrest]

theorem settleRole_handoff (hok : RoleOk ctx w subs acc sent)
    (hfound : w.queue.rolePending.lookup callId = some entry) (o : ApprovalOutcome) :
    Step (readOutcome .role) Quit (w.roleView i) ((settleRole w callId entry o).roleView i) := by
  by_cases hi : i = entry.resolver
  · subst hi
    obtain ⟨hqueued, hgive⟩ := settleRole_give hok hfound o
    rw [hgive]
    exact .given hqueued
  · have hchan : (settleRole w callId entry o).roleChan i = w.roleChan i := Function.update_of_ne hi ..
    refine .of_same rfl (congrArg Oneshot.value hchan) (congrArg Oneshot.receiverAlive hchan) ?_
    show ((w.queue.removeRole callId).rolePending.any _) = true → _
    rw [List.any_eq_true]
    rintro ⟨e, he, heq⟩
    exact List.any_eq_true.mpr ⟨e, (mem_removeRole.mp he).1, heq⟩

/-- What `add_signature` does to the world: refused, kept, or the entry is settled. -/
theorem addSignature_cases (ctx : SigningContext) (w : World) (callId : String) (sig : Signature) :
    (∃ e, w.queue.addSignature ctx callId sig = .error e ∧ w.addSignature ctx callId sig = (.error e, w)) ∨
      (∃ sigs, w.queue.addSignature ctx callId sig = .ok (.kept (w.queue.setSignatures callId sigs)) ∧
        w.addSignature ctx callId sig = (.ok (), w.setQueue (w.queue.setSignatures callId sigs))) ∨
      ∃ entry, w.queue.rolePending.lookup callId = some entry ∧
        w.queue.addSignature ctx callId sig = .ok (.satisfied entry.resolver (w.queue.removeRole callId)) ∧
        w.addSignature ctx callId sig = (.ok (), settleRole w callId entry .approved) := by
  unfold World.addSignature
  cases hadd : w.queue.addSignature ctx callId sig with
  | error e => exact .inl ⟨e, rfl, rfl⟩
  | ok out =>
      obtain ⟨-, entry, hfound, -, ⟨-, rfl⟩ | ⟨-, rfl⟩⟩ := addSignature_eq_ok hadd
      · exact .inr (.inr ⟨entry, hfound, rfl, rfl⟩)
      · exact .inr (.inl ⟨_, rfl, rfl⟩)

theorem addSignature_handoff (hok : RoleOk ctx w subs acc sent) (callId : String) (sig : Signature) :
    Step (readOutcome .role) Quit (w.roleView i) ((w.addSignature ctx callId sig).2.roleView i) := by
  rcases addSignature_cases ctx w callId sig with
    ⟨e, -, h⟩ | ⟨sigs, -, h⟩ | ⟨entry, hfound, -, h⟩
  · rw [h]
    exact .refl _
  · rw [h]
    refine .of_same rfl rfl rfl ?_
    show ((w.queue.setSignatures callId sigs).rolePending.any _) = true → _
    rw [List.any_eq_true]
    rintro ⟨e, he, heq⟩
    rcases RoleOk.mem_setSignatures he with ⟨hmem, -⟩ | ⟨entry, hmem, rfl⟩
    · exact List.any_eq_true.mpr ⟨e, hmem, heq⟩
    · exact List.any_eq_true.mpr ⟨_, hmem, heq⟩
  · rw [h]
    exact settleRole_handoff hok hfound .approved

theorem rejectAction_handoff (hok : RoleOk ctx w subs acc sent) (callId : String) :
    Step (readOutcome .role) Quit (w.roleView i) ((w.rejectAction callId).2.roleView i) := by
  unfold World.rejectAction
  cases hfound : w.queue.rolePending.lookup callId with
  | none => exact .refl _
  | some entry => exact settleRole_handoff hok hfound .rejected

end

theorem drainRole_handoff (w : World) :
    Step (readOutcome .role) Quit (w.roleView i) (w.drainRole.roleView i) := by
  cases hqueued : w.queue.rolePending.any fun e => e.2.resolver == i with
  | true =>
      obtain ⟨hvalue, halive⟩ := send_fields (w.roleChan i) .rejected
      have heq : w.drainRole.roleView i = (w.roleView i).give .rejected := by
        unfold World.drainRole World.roleView State.give
        simp only [hqueued, if_true, hvalue, halive, List.any_nil]
      rw [heq]
      exact .given hqueued
  | false =>
      refine .of_same rfl ?_ ?_ nofun
      · unfold World.drainRole World.roleView
        simp only [hqueued, Bool.false_eq_true, if_false]
      · unfold World.drainRole World.roleView
        simp only [hqueued, Bool.false_eq_true, if_false]

/-- **Every access, seen from a role-aware submission.** -/
theorem roleView_step {subs : List RoleSubmission} {acc : ℕ → List Signature} {sent : ℕ → List ApprovalOutcome}
    (hok : RoleOk ctx w subs acc sent) (l : Label) (i : ℕ) :
    Step (readOutcome .role) (l.Abandons .role i) (w.roleView i) ((w.exec ctx l).roleView i) := by
  cases l with
  | submit call => exact .refl _
  | advance j => exact (advanceFifo_sameRole w j).handoff
  | poll j => exact (pollFifo_sameRole w j).handoff
  | timeOut j => exact (leaveFifo_sameRole w j _).handoff
  | cancel j => exact (leaveFifo_sameRole w j _).handoff
  | cleanup j => exact (cleanupFifo_sameRole w j).handoff
  | approveById callId => exact (resolveHeadById_sameRole (.refl w) callId .approved).handoff
  | rejectById callId => exact (resolveHeadById_sameRole (.refl w) callId .rejected).handoff
  | rememberUnknown callId outcome =>
      unfold World.exec World.setQueue World.roleView
      dsimp only [ApprovalQueue.rememberUnknownOutcome]
      exact .refl _
  | approveUnknown k =>
      dsimp only [World.exec]
      cases w.unknowns[k]? with
      | none => exact .refl _
      | some u =>
          have hsame : SameRole w { w with unknowns := w.unknowns.eraseIdx k } := ⟨rfl, rfl, rfl, rfl⟩
          exact (resolveHeadById_sameRole hsame u.1 (.submittedOutcomeUnknown u.2)).handoff
  | addGrant toolName => exact .refl _
  | tick seconds => exact .refl _
  | submitForAction sub =>
      refine .of_same ?_ rfl rfl id
      show (Function.update w.role w.roleNext (.entered sub) i).stage = (w.role i).stage
      by_cases hi : i = w.roleNext
      · rw [hi, Function.update_self, hok.fresh_next]
        rfl
      · rw [Function.update_of_ne hi]
  | advanceRole j => exact advanceRole_handoff w j
  | pollRole j => exact pollRole_handoff w j
  | timeOutRole j =>
      refine leaveRole_handoff w j _ ?_
      rintro rfl
      exact .inr (.inl rfl)
  | cancelRole j =>
      refine leaveRole_handoff w j _ ?_
      rintro rfl
      exact .inr (.inr rfl)
  | cleanupRole j => exact cleanupRole_handoff w j
  | addSignature callId sig => exact addSignature_handoff hok callId sig
  | rejectAction callId => exact rejectAction_handoff hok callId
  | freeze => exact .refl _
  | advanceFreeze f =>
      show Step _ _ _ ((w.advanceFreeze f).roleView i)
      unfold World.advanceFreeze
      cases w.freezes f with
      | drainingFifo => exact .refl _
      | drainingRole drained => exact drainRole_handoff w
      | absent => exact .refl _
      | returned drained => exact .refl _
  | thaw => exact .refl _

end

/-! ## Both tracks -/

/-- **Every access is a step of every waiter.** -/
theorem view_step (ctx : SigningContext) (ls : List Label) (l : Label) (t : Track) (i : ℕ) :
    Step (readOutcome t) (l.Abandons t i) ((World.run ctx ls).view t i) (((World.run ctx ls).exec ctx l).view t i) := by
  cases t with
  | fifo => exact fifoView_step (fifoOk ctx ls) l i
  | role => exact roleView_step (roleOk ctx ls) l i

/-- In every interleaving, whoever is queued and still listens is waiting. -/
theorem view_sound (ctx : SigningContext) (ls : List Label) (t : Track) (i : ℕ) :
    Sound ((World.run ctx ls).view t i) := by
  induction ls using List.reverseRecOn with
  | nil =>
      cases t with
      | fifo => exact ⟨fun _ => ⟨rfl, rfl, rfl⟩, nofun, nofun⟩
      | role => exact ⟨fun _ => ⟨rfl, rfl, rfl⟩, nofun, nofun⟩
  | append_singleton ls l ih =>
      rw [World.run, Machine.run_concat]
      exact ih.step (view_step ctx ls l t i)

end AgentRuntime.Hitl
