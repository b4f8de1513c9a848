import AgentRuntime.Hitl.Earned
import AgentRuntime.Hitl.Fifo

/-!
# `Hitl.Binding` — what an approval is bound to, and what a freeze guarantees

The results about whole interleavings of the FIFO track, read off `FifoOk`, and about the freeze, which needs
both tracks: a frozen queue takes no entry, so what a drain emptied stays empty, and a submission that starts
afterwards is rejected at its first access.
-/

namespace AgentRuntime.Hitl

open Words

variable {ctx : SigningContext} {w w' : World} {l : Label}

/-! ## Where an approval comes from -/

/-- An approval of submission `i` by its call id, while its entry is the head. -/
def ApprovesHead (i : ℕ) (w : World) (l : Label) : Prop :=
  ∃ e, w.queue.pending.head? = some e ∧ e.resolver = i ∧ l = .approveById e.call.callId

/-- Submission `i` is approved, or its channel holds an approval. -/
def Approved (i : ℕ) (w : World) : Prop :=
  (w.fifoChan i).value = some .approved ∨ (w.fifo i).result? = some (.resolved (.decided .approved))

theorem send_value {c : Oneshot} {o o' : ApprovalOutcome} (h : (c.send o').value = some o) :
    c.value = some o ∨ o = o' := by
  unfold Oneshot.send at h
  split at h
  · exact .inr (Option.some.inj h).symm
  · exact .inl h

/-- Only the approval of the head puts an approval into a channel. -/
theorem FifoStep.approved_value (h : FifoStep w w' l) {i : ℕ} (hvalue : (w'.fifoChan i).value = some .approved) :
    (w.fifoChan i).value = some .approved ∨ ApprovesHead i w l := by
  cases h with
  | elsewhere _ _ chan =>
      rw [chan] at hvalue
      exact .inl hvalue
  | submitted _ _ chan =>
      rw [chan] at hvalue
      exact .inl hvalue
  | moved _ _ _ _ _ _ _ _ chan =>
      rw [chan] at hvalue
      exact .inl hvalue
  | drew _ _ _ _ chan =>
      rw [chan] at hvalue
      exact .inl hvalue
  | pushed _ _ _ _ _ chan =>
      rw [chan] at hvalue
      exact .inl hvalue
  | @left _ j _ _ _ _ _ _ _ chan =>
      rw [chan] at hvalue
      by_cases hi : i = j
      · rw [hi, Function.update_self] at hvalue
        rw [hi]
        exact .inl hvalue
      · rw [Function.update_of_ne hi] at hvalue
        exact .inl hvalue
  | cleaned _ _ _ chan =>
      rw [chan] at hvalue
      exact .inl hvalue
  | @resolved _ e outcome label pending _ chan =>
      rw [chan] at hvalue
      by_cases hi : i = e.resolver
      · rw [hi, Function.update_self] at hvalue
        rw [hi]
        rcases send_value hvalue with hbefore | rfl
        · exact .inl hbefore
        · refine .inr ⟨e, by rw [pending]; rfl, rfl, ?_⟩
          rcases label with ⟨hl, -⟩ | ⟨-, ho⟩ | ⟨k, u, -, -, ho⟩
          · exact hl
          · cases ho
          · cases ho
      · rw [Function.update_of_ne hi] at hvalue
        exact .inl hvalue
  | drained _ _ _ chan =>
      rcases chan i with hchan | hchan
      · rw [hchan] at hvalue
        exact .inl hvalue
      · rw [hchan] at hvalue
        rcases send_value hvalue with hbefore | ho
        · exact .inl hbefore
        · cases ho

/-- A wait that ends approved found the approval in its channel. -/
theorem FifoMove.approved_result {i : ℕ} (h : FifoMove w w' l i)
    (hresult : (w'.fifo i).result? = some (.resolved (.decided .approved))) : Approved i w := by
  cases h with
  | stays fifo =>
      rw [fifo] at hresult
      exact .inr hresult
  | enters call label index fifo =>
      rw [fifo] at hresult
      cases hresult
  | moves call _ _ _ _ _ _ result => exact absurd hresult result
  | draws call _ _ _ fifo =>
      rw [fifo] at hresult
      cases hresult
  | pushes call draw _ fifo =>
      rw [fifo] at hresult
      cases hresult
  | leaves call draw result _ approved fifo =>
      rw [fifo] at hresult
      exact .inl (approved (Option.some.inj hresult))
  | cleans call draw result before _ fifo =>
      rw [fifo] at hresult
      right
      rw [before]
      exact hresult

/-- **An approved waiter** was approved by its own call id while its own entry was the head. -/
theorem approved_by_id (ctx : SigningContext) (ls : List Label) {i : ℕ}
    (h : ((World.run ctx ls).fifo i).result? = some (.resolved (.decided .approved))) :
    ∃ call before after e, (fifoCalls ls)[i]? = some call ∧
      ls = before ++ .approveById call.callId :: after ∧
      (World.run ctx before).queue.pending.head? = some e ∧ e.resolver = i ∧ e.call = call := by
  have hcause : ∀ w l, True → Approved i (w.exec ctx l) → Approved i w ∨ ApprovesHead i w l := by
    intro w l _ happroved
    have hstep := fifo_step ctx w l
    rcases happroved with hvalue | hresult
    · rcases hstep.approved_value hvalue with hbefore | hnow
      · exact .inl (.inl hbefore)
      · exact .inr hnow
    · exact .inl ((hstep.move i).approved_result hresult)
  have hinit : ¬ Approved i .init := by
    rintro (hvalue | hresult)
    · cases hvalue
    · cases hresult
  have happroved : Approved i (World.run ctx ls) := .inr h
  obtain ⟨before, l, after, rfl, e, hhead, rfl, rfl⟩ :=
    Machine.exists_cause (I := fun _ => True) (fun _ => trivial) hcause hinit happroved
  have hok := fifoOk ctx before
  obtain ⟨-, hcall, -⟩ := hok.owned e (List.mem_of_head? hhead)
  have hbefore := hok.calls _ _ hcall
  refine ⟨e.call, before, after, e, ?_, rfl, hhead, rfl, rfl⟩
  unfold fifoCalls at hbefore ⊢
  rw [List.filterMap_append, List.getElem?_append_left (List.getElem?_eq_some_iff.mp hbefore).1]
  exact hbefore

/-! ## Leaving the queue -/

/-- Submission `i` has pushed, and its entry is gone. -/
structure Gone (i : ℕ) (w : World) : Prop where
  made : i < w.fifoNext
  late : (w.fifo i).early = false
  absent : ∀ e ∈ w.queue.pending, e.resolver ≠ i

theorem FifoStep.fifoNext_le (h : FifoStep w w' l) : w.fifoNext ≤ w'.fifoNext := by
  cases h with
  | elsewhere _ _ _ next => exact le_of_eq next.symm
  | submitted _ _ _ next => rw [next]; exact Nat.le_succ _
  | moved _ _ _ _ _ _ _ _ _ next => exact le_of_eq next.symm
  | drew _ _ _ _ _ next => exact le_of_eq next.symm
  | pushed _ _ _ _ _ _ next => exact le_of_eq next.symm
  | left _ _ _ _ _ next => exact le_of_eq next.symm
  | cleaned _ _ _ _ next => exact le_of_eq next.symm
  | resolved _ _ _ _ next => exact le_of_eq next.symm
  | drained _ _ _ _ next => exact le_of_eq next.symm

/-- An entry that is gone does not come back: its submission pushes once. -/
theorem Gone.step {i : ℕ} (h : Gone i w) (hstep : FifoStep w w' l) : Gone i w' where
  made := h.made.trans_le hstep.fifoNext_le
  late := (hstep.move i).not_early (ne_of_lt h.made) h.late
  absent := by
    intro e he hresolver
    rcases hstep.mem_pending he with hbefore | ⟨draw, hpc, -⟩
    · exact h.absent e hbefore hresolver
    · rw [hresolver] at hpc
      have hlate := h.late
      rw [hpc] at hlate
      cases hlate

/-- A submission whose guard has run has no entry. -/
theorem absent_of_done {calls : List ToolCall} (h : FifoOk w calls) {i : ℕ} {result : Ending Resolution}
    (hdone : w.fifo i = .done result) : ∀ e ∈ w.queue.pending, e.resolver ≠ i := by
  intro e he hresolver
  obtain ⟨hguarded, -⟩ := h.owned e he
  rw [hresolver, hdone] at hguarded
  cases hguarded

/-- An entry that leaves is gone for good. -/
theorem gone_of_exit {calls : List ToolCall} (h : FifoOk w calls) (hstep : FifoStep w w' l)
    {e : PendingEntry} (he : e ∈ w.queue.pending) (hgone : e ∉ w'.queue.pending) : Gone e.resolver w' := by
  obtain ⟨hguarded, hcall, -⟩ := h.owned e he
  have hpc : w.fifo e.resolver ≠ .absent := by
    intro habsent
    rw [habsent] at hcall
    cases hcall
  have hmade : e.resolver < w.fifoNext := by
    by_contra hle
    exact hpc (h.fresh _ (not_lt.mp hle))
  have hlate : (w.fifo e.resolver).early = false := by
    cases hw : w.fifo e.resolver with
    | waiting _ _ => rfl
    | leaving _ _ _ => rfl
    | done _ => rfl
    | _ =>
        rw [hw] at hguarded
        cases hguarded
  refine ⟨hmade.trans_le hstep.fifoNext_le, (hstep.move _).not_early (ne_of_lt hmade) hlate, ?_⟩
  intro e' he' hresolver
  rcases hstep.mem_pending he' with hbefore | ⟨draw, hpushing, -⟩
  · -- Entries of one submission are one entry.
    obtain ⟨-, hcall', -⟩ := h.owned e' hbefore
    rw [hresolver, hcall] at hcall'
    have heq : e = e' :=
      List.inj_on_of_nodup_map h.callIds he hbefore (by rw [Option.some.inj hcall'])
    subst heq
    exact hgone he'
  · rw [hresolver] at hpushing
    rw [hpushing] at hlate
    cases hlate

/-- **An entry leaves once**, for one of three reasons, and never comes back. -/
theorem leaves_once (ctx : SigningContext) (before after : List Label) (l : Label) {e : PendingEntry}
    (he : e ∈ (World.run ctx before).queue.pending)
    (hgone : e ∉ (World.run ctx (before ++ [l])).queue.pending) :
    Exit (World.run ctx before) l e ∧
      ∀ e' ∈ (World.run ctx (before ++ l :: after)).queue.pending, e'.resolver ≠ e.resolver := by
  rw [World.run, Machine.run_concat] at hgone
  have hstep := fifo_step ctx (World.run ctx before) l
  refine ⟨hstep.exit he hgone, ?_⟩
  have hnow : Gone e.resolver (Machine.run (World.exec ctx) .init (before ++ [l])) := by
    rw [Machine.run_concat]
    exact gone_of_exit (fifoOk ctx before) hstep he hgone
  have hafter := Machine.stable hnow (fun w l h => h.step (fifo_step ctx w l)) after
  rw [List.append_assoc, List.singleton_append] at hafter
  exact hafter.absent

/-- The counter comes back to a nonce after a multiple of `2^64` draws. -/
theorem far_of_lt {d d' : ℕ} (hlt : d < d') (h : nonceOf d = nonceOf d') : d + u64Bound ≤ d' := by
  obtain ⟨k, hk⟩ := (Nat.modEq_iff_dvd' hlt.le).mp h
  have hpos : 0 < k := by
    rcases Nat.eq_zero_or_pos k with hzero | hpos
    · rw [hzero] at hk
      omega
    · exact hpos
  have hle : u64Bound * 1 ≤ u64Bound * k := Nat.mul_le_mul_left _ hpos
  omega

/-- Two draws that left the same nonce are one draw, or at least `2^64` apart. -/
theorem nonce_collision {d d' : ℕ} (h : nonceOf d = nonceOf d') :
    d = d' ∨ d + u64Bound ≤ d' ∨ d' + u64Bound ≤ d := by
  rcases lt_trichotomy d d' with hlt | heq | hlt
  · exact .inr (.inl (far_of_lt hlt h))
  · exact .inl heq
  · exact .inr (.inr (far_of_lt hlt h.symm))

/-- **A cleanup takes its own submission's entry**, unless the two drew their nonces at least `2^64` draws
    apart. -/
theorem cleanup_own (ctx : SigningContext) (before : List Label) {i : ℕ} {e : PendingEntry}
    (he : e ∈ (World.run ctx before).queue.pending)
    (hgone : e ∉ (World.run ctx (before ++ [.cleanup i])).queue.pending) :
    e.resolver = i ∨ ∃ d d', ((World.run ctx before).fifo i).draw? = some d ∧
      ((World.run ctx before).fifo e.resolver).draw? = some d' ∧
      (d + u64Bound ≤ d' ∨ d' + u64Bound ≤ d) := by
  have hok := fifoOk ctx before
  rw [World.run, Machine.run_concat] at hgone
  cases (fifo_step ctx (World.run ctx before) (.cleanup i)).exit he hgone with
  | decided head label =>
      rcases label with hl | hl | ⟨k, u, hl, -⟩
      · cases hl
      · cases hl
      · cases hl
  | drained f label => cases label
  | cleaned j call draw result label hpc hid hnonce =>
      cases label
      obtain ⟨-, -, draw', hdraw', hnonce'⟩ := hok.owned e he
      have hdraw : ((World.run ctx before).fifo i).draw? = some draw := by rw [hpc]; rfl
      rcases nonce_collision (hnonce.symm.trans hnonce') with heq | hfar
      · subst heq
        exact .inl (hok.draws _ _ draw hdraw' hdraw)
      · exact .inr ⟨draw, draw', hdraw, hdraw', hfar⟩

/-! ## Freezing -/

/-- An access that leaves the flag and the freezes under way alone. -/
structure SameFreeze (w w' : World) : Prop where
  frozen : w'.queue.frozen = w.queue.frozen
  freezes : w'.freezes = w.freezes
  freezeNext : w'.freezeNext = w.freezeNext

theorem SameFreeze.refl (w : World) : SameFreeze w w := ⟨rfl, rfl, rfl⟩

theorem advanceFifo_sameFreeze (w : World) (i : ℕ) : SameFreeze w (w.advanceFifo i) := by
  unfold World.advanceFifo
  split
  · split
    · exact ⟨rfl, rfl, rfl⟩
    · exact ⟨rfl, rfl, rfl⟩
  · exact ⟨rfl, rfl, rfl⟩
  · split
    · exact ⟨rfl, rfl, rfl⟩
    · exact ⟨rfl, rfl, rfl⟩
  · exact ⟨rfl, rfl, rfl⟩
  · rename_i call draw _
    cases henqueue : w.queue.enqueue call i (nonceOf draw) with
    | none => exact ⟨rfl, rfl, rfl⟩
    | some q =>
        obtain ⟨-, -, rfl⟩ := enqueue_eq_some henqueue
        exact ⟨rfl, rfl, rfl⟩
  · exact .refl w

theorem leaveFifo_sameFreeze (w : World) (i : ℕ) (result : Ending Resolution) :
    SameFreeze w (w.leaveFifo i result) := by
  unfold World.leaveFifo
  split
  · exact ⟨rfl, rfl, rfl⟩
  · exact .refl w

theorem pollFifo_sameFreeze (w : World) (i : ℕ) : SameFreeze w (w.pollFifo i) := by
  unfold World.pollFifo
  split
  · exact leaveFifo_sameFreeze w i _
  · split
    · exact .refl w
    · exact leaveFifo_sameFreeze w i _

theorem cleanupFifo_sameFreeze (w : World) (i : ℕ) : SameFreeze w (w.cleanupFifo i) := by
  unfold World.cleanupFifo
  split
  · simp only
    split
    · exact ⟨rfl, rfl, rfl⟩
    · exact ⟨rfl, rfl, rfl⟩
  · exact .refl w

theorem resolveHeadById_sameFreeze {w v : World} (hv : SameFreeze w v) (callId : String)
    (outcome : ApprovalOutcome) : SameFreeze w (v.resolveHeadById callId outcome).2 := by
  unfold World.resolveHeadById
  cases hpop : v.queue.popHead callId with
  | none => exact hv
  | some popped =>
      obtain ⟨e, q⟩ := popped
      obtain ⟨-, -, hq⟩ := popHead_eq_some hpop
      exact ⟨(congrArg ApprovalQueue.frozen hq).trans hv.frozen, hv.freezes, hv.freezeNext⟩

theorem advanceRole_sameFreeze (w : World) (i : ℕ) : SameFreeze w (w.advanceRole i) := by
  unfold World.advanceRole
  split
  · split
    · exact ⟨rfl, rfl, rfl⟩
    · split
      · exact ⟨rfl, rfl, rfl⟩
      · exact ⟨rfl, rfl, rfl⟩
  · exact ⟨rfl, rfl, rfl⟩
  · rename_i sub draw _
    simp only
    cases hinsert : w.queue.insertRole sub.call.callId _ with
    | none => exact ⟨rfl, rfl, rfl⟩
    | some q =>
        obtain ⟨-, -, rfl⟩ := insertRole_eq_some hinsert
        exact ⟨rfl, rfl, rfl⟩
  · exact .refl w

theorem leaveRole_sameFreeze (w : World) (i : ℕ) (result : Ending ApprovalOutcomePublic) :
    SameFreeze w (w.leaveRole i result) := by
  unfold World.leaveRole
  split
  · exact ⟨rfl, rfl, rfl⟩
  · exact .refl w

theorem pollRole_sameFreeze (w : World) (i : ℕ) : SameFreeze w (w.pollRole i) := by
  unfold World.pollRole
  split
  · exact leaveRole_sameFreeze w i _
  · split
    · exact .refl w
    · exact leaveRole_sameFreeze w i _

theorem cleanupRole_sameFreeze (w : World) (i : ℕ) : SameFreeze w (w.cleanupRole i) := by
  unfold World.cleanupRole
  split
  · rename_i sub draw result _
    obtain ⟨chan, hdrop, -⟩ := dropRoleSender_eq w sub.call.callId (nonceOf draw)
    rw [hdrop]
    refine ⟨?_, rfl, rfl⟩
    show (w.queue.evictRole sub.call.callId (nonceOf draw)).frozen = w.queue.frozen
    unfold ApprovalQueue.evictRole
    split
    · rfl
    · rfl
  · exact .refl w

theorem addSignature_sameFreeze (w : World) (callId : String) (sig : Signature) :
    SameFreeze w (w.addSignature ctx callId sig).2 := by
  unfold World.addSignature
  cases hadd : w.queue.addSignature ctx callId sig with
  | error e => exact .refl w
  | ok out =>
      obtain ⟨-, entry, -, -, ⟨-, rfl⟩ | ⟨-, rfl⟩⟩ := addSignature_eq_ok hadd
      · exact ⟨rfl, rfl, rfl⟩
      · exact ⟨rfl, rfl, rfl⟩

theorem rejectAction_sameFreeze (w : World) (callId : String) : SameFreeze w (w.rejectAction callId).2 := by
  unfold World.rejectAction
  split
  · exact .refl w
  · exact ⟨rfl, rfl, rfl⟩

/-- Only a freeze and a thaw touch the flag; a freeze under way is moved by its own accesses. -/
theorem freeze_cases (ctx : SigningContext) (w : World) (l : Label) :
    SameFreeze w (w.exec ctx l) ∨ l = .thaw ∨ l = .freeze ∨ ∃ f, l = .advanceFreeze f := by
  cases l with
  | advance i => exact .inl (advanceFifo_sameFreeze w i)
  | poll i => exact .inl (pollFifo_sameFreeze w i)
  | timeOut i => exact .inl (leaveFifo_sameFreeze w i _)
  | cancel i => exact .inl (leaveFifo_sameFreeze w i _)
  | cleanup i => exact .inl (cleanupFifo_sameFreeze w i)
  | approveById callId => exact .inl (resolveHeadById_sameFreeze (.refl w) callId _)
  | rejectById callId => exact .inl (resolveHeadById_sameFreeze (.refl w) callId _)
  | approveUnknown k =>
      left
      unfold World.exec
      simp only
      split
      · rename_i callId u _
        exact resolveHeadById_sameFreeze (w := w) (v := { w with unknowns := w.unknowns.eraseIdx k })
          ⟨rfl, rfl, rfl⟩ callId (.submittedOutcomeUnknown u)
      · exact .refl w
  | rememberUnknown callId outcome =>
      left
      unfold World.exec World.setQueue
      refine ⟨?_, rfl, rfl⟩
      dsimp only [ApprovalQueue.rememberUnknownOutcome]
  | advanceRole i => exact .inl (advanceRole_sameFreeze w i)
  | pollRole i => exact .inl (pollRole_sameFreeze w i)
  | timeOutRole i => exact .inl (leaveRole_sameFreeze w i _)
  | cancelRole i => exact .inl (leaveRole_sameFreeze w i _)
  | cleanupRole i => exact .inl (cleanupRole_sameFreeze w i)
  | addSignature callId sig => exact .inl (addSignature_sameFreeze w callId sig)
  | rejectAction callId => exact .inl (rejectAction_sameFreeze w callId)
  | submit call => exact .inl ⟨rfl, rfl, rfl⟩
  | submitForAction sub => exact .inl ⟨rfl, rfl, rfl⟩
  | addGrant toolName => exact .inl ⟨rfl, rfl, rfl⟩
  | tick seconds => exact .inl ⟨rfl, rfl, rfl⟩
  | thaw => exact .inr (.inl rfl)
  | freeze => exact .inr (.inr (.inl rfl))
  | advanceFreeze f => exact .inr (.inr (.inr ⟨f, rfl⟩))

/-- A frozen queue takes no FIFO entry. -/
theorem FifoStep.stays_empty (h : FifoStep w w' l) (hfrozen : w.queue.frozen = true)
    (hempty : w.queue.pending = []) : w'.queue.pending = [] := by
  cases h with
  | elsewhere pending => exact pending.trans hempty
  | submitted pending => exact pending.trans hempty
  | moved _ _ _ _ _ _ pending => exact pending.trans hempty
  | drew _ _ pending => exact pending.trans hempty
  | pushed _ thawed =>
      rw [hfrozen] at thawed
      cases thawed
  | left _ _ pending => exact pending.trans hempty
  | cleaned _ pending =>
      rw [pending, hempty]
      rfl
  | resolved _ pending =>
      rw [hempty] at pending
      cases pending
  | drained _ pending => exact pending

/-- A frozen queue takes no role-aware entry. -/
theorem RoleStep.stays_empty (h : RoleStep ctx w w' l) (hfrozen : w.queue.frozen = true)
    (hempty : w.queue.rolePending = []) : w'.queue.rolePending = [] := by
  have hnone : ∀ {callId : String} {entry : RoleAwareEntry},
      w.queue.rolePending.lookup callId = some entry → w'.queue.rolePending = [] := by
    intro callId entry found
    rw [hempty] at found
    cases found
  cases h with
  | elsewhere same => exact same.pending.trans hempty
  | submitted pending => exact pending.trans hempty
  | moved _ _ _ _ _ pending => exact pending.trans hempty
  | inserted _ thawed =>
      rw [hfrozen] at thawed
      cases thawed
  | left _ _ pending => exact pending.trans hempty
  | cleaned _ pending =>
      rw [List.eq_nil_iff_forall_not_mem, pending]
      intro e he
      have hmem := mem_evictRole he
      rw [hempty] at hmem
      cases hmem
  | kept found => exact hnone found
  | satisfied found => exact hnone found
  | rejected found => exact hnone found
  | drained _ pending => exact pending

/-- How far freeze `f` has come, and what it has emptied. -/
def FreezePc.Emptied (w : World) : FreezePc → Prop
  | .absent => False
  | .drainingFifo => True
  | .drainingRole _ => w.queue.pending = []
  | .returned _ => w.queue.pending = [] ∧ w.queue.rolePending = []

/-- Freeze `f` is under way or over, and no thaw has run since it began. -/
structure Frozen (f : ℕ) (w : World) : Prop where
  frozen : w.queue.frozen = true
  begun : f < w.freezeNext
  emptied : (w.freezes f).Emptied w

theorem FreezePc.Emptied.mono {pc : FreezePc} (h : pc.Emptied w)
    (hfifo : w.queue.pending = [] → w'.queue.pending = [])
    (hrole : w.queue.rolePending = [] → w'.queue.rolePending = []) : pc.Emptied w' := by
  cases pc with
  | absent => exact h
  | drainingFifo => trivial
  | drainingRole drained => exact hfifo h
  | returned drained => exact ⟨hfifo h.1, hrole h.2⟩

theorem Frozen.step {f : ℕ} (h : Frozen f w) (hl : l ≠ .thaw) : Frozen f (w.exec ctx l) := by
  have hfifo : w.queue.pending = [] → (w.exec ctx l).queue.pending = [] :=
    (fifo_step ctx w l).stays_empty h.frozen
  have hrole : w.queue.rolePending = [] → (w.exec ctx l).queue.rolePending = [] :=
    (role_step ctx w l).stays_empty h.frozen
  have hmono := h.emptied.mono hfifo hrole
  rcases freeze_cases ctx w l with hsame | rfl | rfl | ⟨g, rfl⟩
  · refine ⟨hsame.frozen.trans h.frozen, ?_, ?_⟩
    · rw [hsame.freezeNext]
      exact h.begun
    · rw [hsame.freezes]
      exact hmono
  · exact absurd rfl hl
  · -- Another freeze begins.
    refine ⟨rfl, h.begun.trans (Nat.lt_succ_self _), ?_⟩
    have hf : (w.exec ctx .freeze).freezes f = w.freezes f := Function.update_of_ne (ne_of_lt h.begun) _ _
    rw [hf]
    exact hmono
  · refine ⟨?_, ?_, ?_⟩
    · show (w.advanceFreeze g).queue.frozen = true
      unfold World.advanceFreeze
      split
      · exact h.frozen
      · exact h.frozen
      · exact h.frozen
    · show f < (w.advanceFreeze g).freezeNext
      unfold World.advanceFreeze
      split
      · exact h.begun
      · exact h.begun
      · exact h.begun
    · show ((w.advanceFreeze g).freezes f).Emptied (w.advanceFreeze g)
      have hadvance : (w.advanceFreeze g).freezes f = w.freezes f ∨ g = f := by
        unfold World.advanceFreeze
        by_cases hg : g = f
        · exact .inr hg
        · split
          · exact .inl (Function.update_of_ne (Ne.symm hg) _ _)
          · exact .inl (Function.update_of_ne (Ne.symm hg) _ _)
          · exact .inl rfl
      rcases hadvance with hsame | rfl
      · rw [hsame]
        exact hmono
      · -- Its own next access empties one more track.
        have hbefore := h.emptied
        cases hpc : w.freezes g with
        | absent =>
            rw [hpc] at hbefore
            exact hbefore.elim
        | drainingFifo =>
            have hdrain : w.advanceFreeze g = w.drainFifo.setFreeze g (.drainingRole w.queue.pending.length) := by
              unfold World.advanceFreeze
              rw [hpc]
            rw [hdrain]
            unfold World.setFreeze
            simp only [Function.update_self]
            exact rfl
        | drainingRole drained =>
            have hdrain : w.advanceFreeze g
                = w.drainRole.setFreeze g (.returned (drained + w.queue.rolePending.length)) := by
              unfold World.advanceFreeze
              rw [hpc]
            rw [hpc] at hbefore
            rw [hdrain]
            unfold World.setFreeze
            simp only [Function.update_self]
            exact ⟨hbefore, rfl⟩
        | returned drained =>
            have hdrain : w.advanceFreeze g = w := by
              unfold World.advanceFreeze
              rw [hpc]
            rw [hdrain]
            exact hbefore

/-! ### New submissions -/

/-- A submission that has not started, has not looked at the flag yet, or is rejected. -/
def FifoPc.refused : FifoPc → Bool
  | .absent | .entered _ => true
  | .done result => decide (result = .resolved (.decided .rejected))
  | _ => false

def RolePc.refused : RolePc → Bool
  | .absent | .entered _ => true
  | .done result => decide (result = .resolved .rejected)
  | _ => false

theorem refused_fifo_step {i : ℕ} (h : (w.fifo i).refused = true) (hfrozen : w.queue.frozen = true) :
    ((w.exec ctx l).fifo i).refused = true := by
  cases (fifo_step ctx w l).move i with
  | stays fifo =>
      rw [fifo]
      exact h
  | enters call _ _ fifo =>
      rw [fifo]
      rfl
  | moves call label before =>
      subst label
      show ((w.advanceFifo i).fifo i).refused = true
      unfold World.advanceFifo
      cases hpc : w.fifo i with
      | absent =>
          rw [hpc]
          rfl
      | entered call' =>
          simp only [hfrozen, if_true]
          unfold World.setFifo
          simp only [Function.update_self]
          rfl
      | _ =>
          rw [hpc] at h before
          first
            | cases h
            | cases before
  | draws call _ before =>
      rw [before] at h
      cases h
  | pushes call draw before =>
      rw [before] at h
      cases h
  | leaves call draw result before =>
      rw [before] at h
      cases h
  | cleans call draw result before =>
      rw [before] at h
      cases h

theorem refused_role_step {i : ℕ} (h : (w.role i).refused = true) (hfrozen : w.queue.frozen = true) :
    ((w.exec ctx l).role i).refused = true := by
  cases (role_step ctx w l).move i with
  | stays role =>
      rw [role]
      exact h
  | enters sub _ _ role =>
      rw [role]
      rfl
  | moves sub label before =>
      subst label
      show ((w.advanceRole i).role i).refused = true
      unfold World.advanceRole
      cases hpc : w.role i with
      | absent =>
          rw [hpc]
          rfl
      | entered sub' =>
          simp only [hfrozen, if_true]
          unfold World.setRole
          simp only [Function.update_self]
          rfl
      | _ =>
          rw [hpc] at h before
          first
            | cases h
            | cases before
  | inserts sub draw before =>
      rw [before] at h
      cases h
  | leaves sub draw result before =>
      rw [before] at h
      cases h
  | cleans sub draw result before =>
      rw [before] at h
      cases h

/-- What holds from the return of a freeze on: both tracks are empty, and every submission from `nf` and `nr`
    on is refused. -/
structure Shut (f nf nr : ℕ) (w : World) : Prop extends Frozen f w where
  returned : ∃ drained, w.freezes f = .returned drained
  fifo : ∀ i, nf ≤ i → (w.fifo i).refused = true
  role : ∀ i, nr ≤ i → (w.role i).refused = true

theorem Shut.step {f nf nr : ℕ} (h : Shut f nf nr w) (hl : l ≠ .thaw) : Shut f nf nr (w.exec ctx l) := by
  refine ⟨h.toFrozen.step hl, ?_, fun i hi => refused_fifo_step (h.fifo i hi) h.frozen,
    fun i hi => refused_role_step (h.role i hi) h.frozen⟩
  obtain ⟨drained, hreturned⟩ := h.returned
  refine ⟨drained, ?_⟩
  rcases freeze_cases ctx w l with hsame | rfl | rfl | ⟨g, rfl⟩
  · rw [hsame.freezes]
    exact hreturned
  · exact absurd rfl hl
  · rw [← hreturned]
    exact Function.update_of_ne (ne_of_lt h.begun) _ _
  · show (w.advanceFreeze g).freezes f = _
    by_cases hg : g = f
    · subst hg
      unfold World.advanceFreeze
      rw [hreturned]
      exact hreturned
    · rw [← hreturned]
      unfold World.advanceFreeze
      split
      · exact Function.update_of_ne (Ne.symm hg) _ _
      · exact Function.update_of_ne (Ne.symm hg) _ _
      · rfl

/-- The steps other than a thaw keep what they keep along a run without one. -/
theorem run_without_thaw (ctx : SigningContext) {P : World → Prop} (hstep : ∀ {w l}, P w → l ≠ .thaw → P (w.exec ctx l)) {w : World}
    (h : P w) {ls : List Label} (hls : Label.thaw ∉ ls) : P (Machine.run (World.exec ctx) w ls) := by
  induction ls generalizing w with
  | nil => exact h
  | cons l ls ih =>
      rw [List.mem_cons, not_or] at hls
      obtain ⟨hl, hls⟩ := hls
      exact ih (hstep h (Ne.symm hl)) hls

/-- **A freeze shuts the queue.** When no thaw has run since `freeze_and_drain` began and it has returned, both
    tracks are empty, and every submission made after the return is rejected as soon as it runs. -/
theorem freeze_shuts (ctx : SigningContext) (before during after : List Label) {drained : ℕ}
    (hreturned : (World.run ctx (before ++ .freeze :: during)).freezes (World.run ctx before).freezeNext
      = .returned drained)
    (hthaw : Label.thaw ∉ during ++ after) :
    (World.run ctx (before ++ .freeze :: (during ++ after))).queue.pending = [] ∧
      (World.run ctx (before ++ .freeze :: (during ++ after))).queue.rolePending = [] ∧
      (∀ i, (World.run ctx (before ++ .freeze :: during)).fifoNext ≤ i →
        ((World.run ctx (before ++ .freeze :: (during ++ after))).fifo i).refused = true) ∧
      ∀ i, (World.run ctx (before ++ .freeze :: during)).roleNext ≤ i →
        ((World.run ctx (before ++ .freeze :: (during ++ after))).role i).refused = true := by
  rw [List.mem_append, not_or] at hthaw
  obtain ⟨hduring, hafter⟩ := hthaw
  have hsplit : World.run ctx (before ++ .freeze :: (during ++ after))
      = Machine.run (World.exec ctx) (World.run ctx (before ++ .freeze :: during)) after := by
    rw [World.run, World.run, ← Machine.run_append, List.append_assoc, List.cons_append]
  have hmiddle : World.run ctx (before ++ .freeze :: during)
      = Machine.run (World.exec ctx) ((World.run ctx before).exec ctx .freeze) during := by
    rw [World.run, Machine.run_append, Machine.run_cons]
  have hbegun : Frozen (World.run ctx before).freezeNext ((World.run ctx before).exec ctx .freeze) := by
    refine ⟨rfl, Nat.lt_succ_self _, ?_⟩
    have hpc : ((World.run ctx before).exec ctx .freeze).freezes (World.run ctx before).freezeNext
        = .drainingFifo := Function.update_self _ _ _
    rw [hpc]
    trivial
  have hfrozen : Frozen (World.run ctx before).freezeNext (World.run ctx (before ++ .freeze :: during)) := by
    rw [hmiddle]
    exact run_without_thaw ctx (fun h hl => h.step hl) hbegun hduring
  have hshut : Shut (World.run ctx before).freezeNext (World.run ctx (before ++ .freeze :: during)).fifoNext
      (World.run ctx (before ++ .freeze :: during)).roleNext (World.run ctx (before ++ .freeze :: during)) := by
    refine ⟨hfrozen, ⟨drained, hreturned⟩, ?_, ?_⟩
    · intro i hi
      rw [(fifoOk ctx _).fresh i hi]
      rfl
    · intro i hi
      rw [(roleOk ctx _).fresh i hi]
      rfl
  have hend := run_without_thaw ctx (fun h hl => h.step hl) hshut hafter
  rw [← hsplit] at hend
  have hempty := hend.emptied
  obtain ⟨drained', hpc⟩ := hend.returned
  rw [hpc] at hempty
  exact ⟨hempty.1, hempty.2, hend.fifo, hend.role⟩

/-! ## The result -/

/-- **FIFO approvals bind to the reviewed call.** After every interleaving: no two pending entries share a call id;
    a waiter that resolved Approved did so because `approve_by_id` named its call id while its own entry was the
    head; an entry leaves by a decision that names it while it is the head, by a cleanup or by a drain, and then
    no entry of its submission comes back; a submission whose guard has run has no entry; a cleanup takes its own
    submission's entry, unless the two drew their nonces `2^64` or more draws apart; and from the return of a
    freeze since whose beginning no thaw has run, both tracks are empty and every later submission is rejected. -/
theorem fifo_approvals_bind (ctx : SigningContext) (ls : List Label) :
    (World.run ctx ls).queue.callIds.Nodup ∧
      (∀ i, ((World.run ctx ls).fifo i).result? = some (.resolved (.decided .approved)) →
        ∃ call before after e, (fifoCalls ls)[i]? = some call ∧
          ls = before ++ .approveById call.callId :: after ∧
          (World.run ctx before).queue.pending.head? = some e ∧ e.resolver = i ∧ e.call = call) ∧
      (∀ before l after e, ls = before ++ l :: after → e ∈ (World.run ctx before).queue.pending →
        e ∉ (World.run ctx (before ++ [l])).queue.pending →
        Exit (World.run ctx before) l e ∧ ∀ e' ∈ (World.run ctx ls).queue.pending, e'.resolver ≠ e.resolver) ∧
      (∀ i result, (World.run ctx ls).fifo i = .done result →
        ∀ e ∈ (World.run ctx ls).queue.pending, e.resolver ≠ i) ∧
      (∀ before i after e, ls = before ++ .cleanup i :: after → e ∈ (World.run ctx before).queue.pending →
        e ∉ (World.run ctx (before ++ [.cleanup i])).queue.pending →
        e.resolver = i ∨ ∃ d d', ((World.run ctx before).fifo i).draw? = some d ∧
          ((World.run ctx before).fifo e.resolver).draw? = some d' ∧
          (d + u64Bound ≤ d' ∨ d' + u64Bound ≤ d)) ∧
      (∀ before during after drained, ls = before ++ .freeze :: (during ++ after) →
        (World.run ctx (before ++ .freeze :: during)).freezes (World.run ctx before).freezeNext
          = .returned drained →
        .thaw ∉ during ++ after →
        (World.run ctx ls).queue.pending = [] ∧ (World.run ctx ls).queue.rolePending = [] ∧
          (∀ i, (World.run ctx (before ++ .freeze :: during)).fifoNext ≤ i →
            ((World.run ctx ls).fifo i).refused = true) ∧
          ∀ i, (World.run ctx (before ++ .freeze :: during)).roleNext ≤ i →
            ((World.run ctx ls).role i).refused = true) := by
  have hok := fifoOk ctx ls
  refine ⟨hok.callIds, fun i => approved_by_id ctx ls, ?_, fun i result => absent_of_done hok, ?_, ?_⟩
  · rintro before l after e rfl he hgone
    exact leaves_once ctx before after l he hgone
  · rintro before i after e rfl he hgone
    exact cleanup_own ctx before he hgone
  · rintro before during after drained rfl hreturned hthaw
    exact freeze_shuts ctx before during after hreturned hthaw

/-! ### The two limits -/

def reviewedCall : ToolCall where
  callId := "c1"
  name := "transfer"

def otherCall : ToolCall where
  callId := "c2"
  name := "transfer"

/-- Submitted, rejected and woken; the guard has not run. -/
def staleStart : List Label :=
  [.submit reviewedCall, .advance 0, .advance 0, .advance 0, .advance 0, .rejectById "c1", .poll 0]

/-- `n` more submissions draw a nonce each. -/
def drawRounds : ℕ → List Label
  | 0 => []
  | n + 1 => drawRounds n ++ [.submit otherCall, .advance (n + 1), .advance (n + 1), .advance (n + 1)]

/-- The call id is submitted again and pushed. -/
def staleRun (n : ℕ) : List Label :=
  staleStart ++ drawRounds n ++
    [.submit reviewedCall, .advance (n + 1), .advance (n + 1), .advance (n + 1), .advance (n + 1)]

/-- Submission 0 is about to clean up, `draws` nonces are drawn, nothing is pending. -/
structure Stale (draws next : ℕ) (w : World) : Prop where
  stale : w.fifo 0 = .leaving reviewedCall 0 (.resolved (.decided .rejected))
  pending : w.queue.pending = []
  grants : w.queue.grants = []
  thawed : w.queue.frozen = false
  nonce : w.queue.nextNonce = draws
  next : w.fifoNext = next

namespace Stale

variable {draws next i : ℕ} {call : ToolCall}

theorem setFifo (h : Stale draws next w) (hi : i ≠ 0) (pc : FifoPc) : Stale draws next (w.setFifo i pc) where
  stale := (Function.update_of_ne (Ne.symm hi) _ _).trans h.stale
  pending := h.pending
  grants := h.grants
  thawed := h.thawed
  nonce := h.nonce
  next := h.next

theorem submit (ctx : SigningContext) (h : Stale draws next w) (hnext : next ≠ 0) (call : ToolCall) :
    Stale draws (next + 1) (w.exec ctx (.submit call)) ∧
      (w.exec ctx (.submit call)).fifo next = .entered call := by
  have hset := h.setFifo (i := w.fifoNext) (by rw [h.next]; exact hnext) (.entered call)
  refine ⟨⟨hset.stale, hset.pending, hset.grants, hset.thawed, hset.nonce, congrArg (· + 1) h.next⟩, ?_⟩
  rw [← h.next]
  exact Function.update_self _ _ _

/-- The first look at the flag. -/
theorem enter (ctx : SigningContext) (h : Stale draws next w) (hi : i ≠ 0) (hpc : w.fifo i = .entered call) :
    Stale draws next (w.exec ctx (.advance i)) ∧ (w.exec ctx (.advance i)).fifo i = .trusting call := by
  have hexec : w.exec ctx (.advance i) = w.setFifo i (.trusting call) := by
    show w.advanceFifo i = _
    unfold World.advanceFifo
    rw [hpc]
    simp only [h.thawed, Bool.false_eq_true, if_false]
  rw [hexec]
  exact ⟨h.setFifo hi _, Function.update_self _ _ _⟩

/-- No tool is trusted. -/
theorem ask (ctx : SigningContext) (h : Stale draws next w) (hi : i ≠ 0) (hpc : w.fifo i = .trusting call) :
    Stale draws next (w.exec ctx (.advance i)) ∧ (w.exec ctx (.advance i)).fifo i = .drawing call := by
  have hexec : w.exec ctx (.advance i)
      = (w.setQueue { w.queue with grants := [] }).setFifo i (.drawing call) := by
    show w.advanceFifo i = _
    unfold World.advanceFifo ApprovalQueue.isTrusted
    rw [hpc]
    simp only [h.grants, List.filter_nil, List.any_nil, Bool.false_eq_true, if_false]
  have hqueue : Stale draws next (w.setQueue { w.queue with grants := [] }) :=
    ⟨h.stale, h.pending, rfl, h.thawed, h.nonce, h.next⟩
  rw [hexec]
  exact ⟨hqueue.setFifo hi _, Function.update_self _ _ _⟩

/-- The nonce is drawn. -/
theorem draw (ctx : SigningContext) (h : Stale draws next w) (hi : i ≠ 0) (hpc : w.fifo i = .drawing call) :
    Stale (draws + 1) next (w.exec ctx (.advance i)) ∧
      (w.exec ctx (.advance i)).fifo i = .pushing call draws := by
  have hexec : w.exec ctx (.advance i)
      = (w.setQueue { w.queue with nextNonce := draws + 1 }).setFifo i (.pushing call draws) := by
    show w.advanceFifo i = _
    unfold World.advanceFifo
    rw [hpc]
    simp only [h.nonce]
  have hqueue : Stale (draws + 1) next (w.setQueue { w.queue with nextNonce := draws + 1 }) :=
    ⟨h.stale, h.pending, h.grants, h.thawed, rfl, h.next⟩
  rw [hexec]
  exact ⟨hqueue.setFifo hi _, Function.update_self _ _ _⟩

/-- A new submission comes as far as its locked section. -/
theorem round (ctx : SigningContext) (h : Stale draws next w) (hnext : next ≠ 0) (call : ToolCall) :
    let w' := Machine.run (World.exec ctx) w [.submit call, .advance next, .advance next, .advance next]
    Stale (draws + 1) (next + 1) w' ∧ w'.fifo next = .pushing call draws := by
  obtain ⟨h₁, hpc₁⟩ := h.submit ctx hnext call
  obtain ⟨h₂, hpc₂⟩ := h₁.enter ctx hnext hpc₁
  obtain ⟨h₃, hpc₃⟩ := h₂.ask ctx hnext hpc₂
  exact h₃.draw ctx hnext hpc₃

end Stale

/-- Any number of submissions can draw while submission 0 has not cleaned up. -/
theorem stale_rounds (ctx : SigningContext) (n : ℕ) :
    Stale (n + 1) (n + 1) (World.run ctx (staleStart ++ drawRounds n)) := by
  induction n with
  | zero => exact ⟨rfl, rfl, rfl, rfl, rfl, rfl⟩
  | succ n ih =>
      have hround := (ih.round ctx (Nat.succ_ne_zero n) otherCall).1
      rw [World.run, ← Machine.run_append, List.append_assoc] at hround
      exact hround

/-- The entry of the second submission of the call. -/
def secondEntry (n : ℕ) : PendingEntry where
  call := reviewedCall
  resolver := n + 1
  nonce := nonceOf (n + 1)

/-- After `n` rounds the call is pending again, and the first submission has still not cleaned up. -/
theorem staleRun_pending (ctx : SigningContext) (n : ℕ) :
    (World.run ctx (staleRun n)).queue.pending = [secondEntry n] ∧
      (World.run ctx (staleRun n)).fifo 0 = .leaving reviewedCall 0 (.resolved (.decided .rejected)) := by
  obtain ⟨hstale, hpc⟩ := (stale_rounds ctx n).round ctx (Nat.succ_ne_zero n) reviewedCall
  generalize hw : Machine.run (World.exec ctx) (World.run ctx (staleStart ++ drawRounds n))
    [.submit reviewedCall, .advance (n + 1), .advance (n + 1), .advance (n + 1)] = w at hstale hpc
  have hrun : World.run ctx (staleRun n) = w.exec ctx (.advance (n + 1)) := by
    have hsplit : staleRun n = (staleStart ++ drawRounds n
        ++ [.submit reviewedCall, .advance (n + 1), .advance (n + 1), .advance (n + 1)]) ++ [.advance (n + 1)] := by
      unfold staleRun
      rw [List.append_assoc (staleStart ++ drawRounds n)]
      rfl
    rw [hsplit, World.run, Machine.run_concat, Machine.run_append]
    exact congrArg (World.exec ctx · (.advance (n + 1))) hw
  have hexec : w.exec ctx (.advance (n + 1))
      = (w.setQueue { w.queue with pending := [secondEntry n] }).setFifo (n + 1)
          (.waiting reviewedCall (n + 1)) := by
    show w.advanceFifo (n + 1) = _
    unfold World.advanceFifo ApprovalQueue.enqueue
    rw [hpc]
    simp only [hstale.thawed, hstale.pending, Bool.false_eq_true, if_false, List.any_nil, List.nil_append]
    rfl
  rw [hrun, hexec]
  refine ⟨rfl, ?_⟩
  show Function.update w.fifo (n + 1) (.waiting reviewedCall (n + 1)) 0 = _
  rw [Function.update_of_ne (Nat.succ_ne_zero n).symm]
  exact hstale.stale

/-- A cleanup takes whatever entry has its call id and its nonce. -/
theorem cleanup_takes (ctx : SigningContext) {e : PendingEntry} {i draw : ℕ} {call : ToolCall}
    {result : Ending Resolution} (hpending : w.queue.pending = [e]) (hpc : w.fifo i = .leaving call draw result)
    (hentry : ApprovalQueue.isEntryOf call.callId (nonceOf draw) e = true) :
    (w.exec ctx (.cleanup i)).queue.pending = [] := by
  have herase : w.queue.pending.eraseP (ApprovalQueue.isEntryOf call.callId (nonceOf draw)) = [] := by
    rw [hpending, List.eraseP_cons_of_pos hentry]
  show (w.cleanupFifo i).queue.pending = []
  unfold World.cleanupFifo
  rw [hpc]
  simp only
  split
  · exact herase
  · exact herase

/-- When the nonce has come back, the first submission's cleanup takes the second one's entry. -/
theorem stale_cleanup (ctx : SigningContext) {n : ℕ} (hnonce : nonceOf (n + 1) = nonceOf 0) :
    (World.run ctx (staleRun n)).queue.pending = [secondEntry n] ∧
      (World.run ctx (staleRun n ++ [.cleanup 0])).queue.pending = [] := by
  obtain ⟨hpending, hpc⟩ := staleRun_pending ctx n
  have hentry : ApprovalQueue.isEntryOf reviewedCall.callId (nonceOf 0) (secondEntry n) = true := by
    unfold ApprovalQueue.isEntryOf secondEntry
    simp only [hnonce, beq_self_eq_true, Bool.and_self]
  refine ⟨hpending, ?_⟩
  rw [World.run, Machine.run_concat]
  exact cleanup_takes ctx hpending hpc hentry

/-- The nonce is the first submission's again after `2^64` draws. -/
def wrapRounds : ℕ := u64Bound - 1

/-- A submission that passed its first look at the flag, a freeze, and a thaw before the freeze returned. -/
def thawedFreeze : List Label :=
  [.submit reviewedCall, .advance 0, .advance 0, .advance 0, .freeze, .thaw, .advanceFreeze 0, .advanceFreeze 0]

/-- **The two limits.** After `2^64` draws a cleanup takes the entry of another submission of the same call id;
    and when a thaw runs before `freeze_and_drain` has returned, an entry is pending after the return although no
    thaw has run since. -/
theorem cleanup_takes_another :
    ((World.run vectorContext (staleRun wrapRounds)).queue.pending = [secondEntry wrapRounds] ∧
        (secondEntry wrapRounds).resolver ≠ 0 ∧
        (World.run vectorContext (staleRun wrapRounds ++ [.cleanup 0])).queue.pending = []) ∧
      ((World.run vectorContext thawedFreeze).freezes 0 = .returned 0 ∧
        (World.run vectorContext (thawedFreeze ++ [.advance 0])).queue.pending ≠ []) := by
  have hnonce : nonceOf (wrapRounds + 1) = nonceOf 0 := by
    have hwrap : wrapRounds + 1 = u64Bound := by
      unfold wrapRounds u64Bound
      rfl
    unfold nonceOf
    rw [hwrap, Nat.mod_self, Nat.zero_mod]
  obtain ⟨hpending, hcleaned⟩ := stale_cleanup vectorContext hnonce
  exact ⟨⟨hpending, Nat.succ_ne_zero _, hcleaned⟩, by rfl, by decide⟩

end AgentRuntime.Hitl
