import AgentRuntime.Hitl.Waiters

/-!
# `Hitl.Reported` — which decisions reach their submitter

`approve_by_id`, `reject_by_id`, an `add_signature` that completes the quorum and `reject_action` all take an entry out
of the queue and send an outcome to its submission. The FIFO track reports a submission that is gone; the role-aware
track does not look. `reaches_submitter_iff` says when what a decision reported is what its submission got.
-/

namespace AgentRuntime.Hitl

open Handoff

variable {ctx : SigningContext} {w : World}

/-! ## Decisions -/

inductive Decision where
  | approveById (callId : String)
  | rejectById (callId : String)
  | addSignature (callId : String) (sig : Signature)
  | rejectAction (callId : String)

namespace Decision

def label : Decision → Label
  | .approveById callId => .approveById callId
  | .rejectById callId => .rejectById callId
  | .addSignature callId sig => .addSignature callId sig
  | .rejectAction callId => .rejectAction callId

/-- What the call returns. -/
def answer (ctx : SigningContext) (w : World) : Decision → Except SignatureError Unit
  | .approveById callId => (w.resolveHeadById callId .approved).1
  | .rejectById callId => (w.resolveHeadById callId .rejected).1
  | .addSignature callId sig => (w.addSignature ctx callId sig).1
  | .rejectAction callId => (w.rejectAction callId).1

end Decision

/-- A decision that takes the entry of a submission out of the queue, and what it sends. -/
structure Settlement where
  track : Track
  submission : ℕ
  outcome : ApprovalOutcome

/-- What a decision settles. -/
def Decision.settles (ctx : SigningContext) (w : World) : Decision → Option Settlement
  | .approveById callId => (w.queue.popHead callId).map fun x => ⟨.fifo, x.1.resolver, .approved⟩
  | .rejectById callId => (w.queue.popHead callId).map fun x => ⟨.fifo, x.1.resolver, .rejected⟩
  | .addSignature callId sig =>
      match w.queue.addSignature ctx callId sig with
      | .ok (.satisfied resolver _) => some ⟨.role, resolver, .approved⟩
      | _ => none
  | .rejectAction callId => (w.queue.rolePending.lookup callId).map fun e => ⟨.role, e.resolver, .rejected⟩

namespace Settlement

/-- The submission, seen as a waiter. -/
def seen (s : Settlement) (w : World) : State ApprovalOutcome (Ending Resolution) := w.view s.track s.submission

/-- The submission awaits its channel. -/
def Waits (s : Settlement) (w : World) : Prop := (s.seen w).stage = .waiting

/-- The outcome is in the channel of the waiting submission, or the submission ended with it. -/
def Reached (s : Settlement) (w : World) : Prop := Received (readOutcome s.track) (s.seen w) s.outcome

end Settlement

theorem settles_addSignature {callId : String} {sig : Signature} {s : Settlement}
    (h : (Decision.addSignature callId sig).settles ctx w = some s) :
    ∃ resolver q, w.queue.addSignature ctx callId sig = .ok (.satisfied resolver q) ∧
      s = ⟨.role, resolver, .approved⟩ := by
  simp only [Decision.settles] at h
  split at h
  · rename_i resolver q hadd
    exact ⟨resolver, q, hadd, (Option.some.inj h).symm⟩
  · cases h

/-- Every decision sends an approval or a rejection. -/
theorem settles_outcome {d : Decision} {s : Settlement} (h : d.settles ctx w = some s) :
    s.outcome = .approved ∨ s.outcome = .rejected := by
  cases d with
  | approveById callId =>
      obtain ⟨x, -, rfl⟩ := Option.map_eq_some_iff.mp h
      exact .inl rfl
  | rejectById callId =>
      obtain ⟨x, -, rfl⟩ := Option.map_eq_some_iff.mp h
      exact .inr rfl
  | addSignature callId sig =>
      obtain ⟨resolver, q, -, rfl⟩ := settles_addSignature h
      exact .inl rfl
  | rejectAction callId =>
      obtain ⟨x, -, rfl⟩ := Option.map_eq_some_iff.mp h
      exact .inr rfl

/-! ## What a settlement does and reports -/

/-- The entry was queued, its submission is given the outcome, and only the FIFO track looks whether anyone listens. -/
structure Settled (ctx : SigningContext) (w : World) (d : Decision) (s : Settlement) : Prop where
  queued : (s.seen w).queued = true
  given : s.seen (w.exec ctx d.label) = (s.seen w).give s.outcome
  answer : d.answer ctx w =
    if s.track = .role ∨ (s.seen w).listening = true then .ok () else .error .resolverGone

theorem resolveHeadById_answer {callId : String} {e : PendingEntry} {q : ApprovalQueue}
    (hpop : w.queue.popHead callId = some (e, q)) (o : ApprovalOutcome) :
    (w.resolveHeadById callId o).1 =
      if Track.fifo = Track.role ∨ (w.fifoView e.resolver).listening = true then .ok () else .error .resolverGone := by
  unfold World.resolveHeadById
  simp only [hpop, reduceCtorEq, false_or]
  rfl

/-- **What a decision that settles does.** -/
theorem settled (ls : List Label) {d : Decision} {s : Settlement}
    (h : d.settles ctx (World.run ctx ls) = some s) : Settled ctx (World.run ctx ls) d s := by
  have hfifo := fifoOk ctx ls
  have hrole := roleOk ctx ls
  generalize World.run ctx ls = w at h hfifo hrole ⊢
  cases d with
  | approveById callId =>
      obtain ⟨⟨e, q⟩, hpop, rfl⟩ := Option.map_eq_some_iff.mp h
      obtain ⟨hqueued, hgive⟩ := popHead_give hfifo hpop .approved
      exact ⟨hqueued, hgive, resolveHeadById_answer hpop .approved⟩
  | rejectById callId =>
      obtain ⟨⟨e, q⟩, hpop, rfl⟩ := Option.map_eq_some_iff.mp h
      obtain ⟨hqueued, hgive⟩ := popHead_give hfifo hpop .rejected
      exact ⟨hqueued, hgive, resolveHeadById_answer hpop .rejected⟩
  | addSignature callId sig =>
      obtain ⟨resolver, q, hsatisfied, rfl⟩ := settles_addSignature h
      rcases addSignature_cases ctx w callId sig with
        ⟨e, hadd, -⟩ | ⟨sigs, hadd, -⟩ | ⟨entry, hfound, hadd, hcall⟩
      · cases hsatisfied.symm.trans hadd
      · cases hsatisfied.symm.trans hadd
      · cases hsatisfied.symm.trans hadd
        obtain ⟨hqueued, hgive⟩ := settleRole_give hrole hfound .approved
        refine ⟨hqueued, ?_, ?_⟩
        · show (w.addSignature ctx callId sig).2.roleView entry.resolver = _
          rw [hcall]
          exact hgive
        · show (w.addSignature ctx callId sig).1 = _
          rw [hcall, if_pos (.inl rfl)]
  | rejectAction callId =>
      obtain ⟨entry, hfound, rfl⟩ := Option.map_eq_some_iff.mp h
      obtain ⟨hqueued, hgive⟩ := settleRole_give hrole hfound .rejected
      have hcall : w.rejectAction callId = (.ok (), settleRole w callId entry .rejected) := by
        unfold World.rejectAction
        rw [hfound]
        rfl
      refine ⟨hqueued, ?_, ?_⟩
      · show (w.rejectAction callId).2.roleView entry.resolver = _
        rw [hcall]
        exact hgive
      · show (w.rejectAction callId).1 = _
        rw [hcall, if_pos (.inl rfl)]

/-- `Ok` is returned to a decision that settles, or to a signature that leaves its quorum waiting. -/
theorem ok_settles {d : Decision} (h : d.answer ctx w = .ok ()) :
    (d.settles ctx w).isSome = true ∨
      ∃ callId sig q, d = .addSignature callId sig ∧ w.queue.addSignature ctx callId sig = .ok (.kept q) := by
  have hhead {callId : String} {o : ApprovalOutcome} (hok : (w.resolveHeadById callId o).1 = .ok ()) :
      (w.queue.popHead callId).isSome = true := by
    unfold World.resolveHeadById at hok
    cases hpop : w.queue.popHead callId with
    | none =>
        rw [hpop] at hok
        cases hok
    | some popped => rfl
  cases d with
  | approveById callId => exact .inl (by rw [Decision.settles, Option.isSome_map]; exact hhead h)
  | rejectById callId => exact .inl (by rw [Decision.settles, Option.isSome_map]; exact hhead h)
  | addSignature callId sig =>
      change (w.addSignature ctx callId sig).1 = .ok () at h
      rcases addSignature_cases ctx w callId sig with
        ⟨e, -, hcall⟩ | ⟨sigs, hadd, -⟩ | ⟨entry, -, hadd, -⟩
      · rw [hcall] at h
        cases h
      · exact .inr ⟨callId, sig, _, rfl, hadd⟩
      · left
        simp only [Decision.settles, hadd, Option.isSome_some]
  | rejectAction callId =>
      change (w.rejectAction callId).1 = .ok () at h
      unfold World.rejectAction at h
      cases hfound : w.queue.rolePending.lookup callId with
      | none =>
          rw [hfound] at h
          cases h
      | some entry =>
          left
          simp only [Decision.settles, hfound, Option.map_some, Option.isSome_some]

/-! ## Runs -/

/-- **A decision reaches its submitter.** The decision `d` is made after `before`, and `after` follows it. It returns
    `Ok` only if it settles an entry whose submission gets the outcome, or keeps a signature; when the submission is
    gone it returns `ResolverGone`. -/
structure ReachesSubmitter (ctx : SigningContext) (before : List Label) (d : Decision) (after : List Label) :
    Prop where
  named : d.answer ctx (World.run ctx before) = .ok () → (d.settles ctx (World.run ctx before)).isSome = true ∨
    ∃ callId sig q, d = .addSignature callId sig ∧
      (World.run ctx before).queue.addSignature ctx callId sig = .ok (.kept q)
  reported : ∀ s, d.settles ctx (World.run ctx before) = some s → d.answer ctx (World.run ctx before) = .ok () →
    s.Reached (World.run ctx (before ++ d.label :: after))
  gone : ∀ s, d.settles ctx (World.run ctx before) = some s → ¬ s.Waits (World.run ctx before) →
    d.answer ctx (World.run ctx before) = .error .resolverGone

/-- A submission decided on the role-aware track still waits; and one that waits when it is decided reads its channel
    before its timeout or its cancellation ends it. -/
structure Heard (ctx : SigningContext) (before : List Label) (d : Decision) (after : List Label) : Prop where
  waits : ∀ s, d.settles ctx (World.run ctx before) = some s → s.track = .role → s.Waits (World.run ctx before)
  readsFirst : ∀ s, d.settles ctx (World.run ctx before) = some s → s.Waits (World.run ctx before) →
    ∀ mid l rest, after = mid ++ l :: rest → l.Abandons s.track s.submission →
      ¬ s.Waits (World.run ctx (before ++ d.label :: mid))

section

variable {before after : List Label} {d : Decision} {s : Settlement}

theorem run_decided (ctx : SigningContext) (before : List Label) (d : Decision) :
    World.run ctx (before ++ [d.label]) = (World.run ctx before).exec ctx d.label := by
  rw [World.run, Machine.run_concat]

/-- What was handed over stays with a submission that does not give up. -/
theorem handed_run (hsettled : Settled ctx (World.run ctx before) d s) (hwaits : s.Waits (World.run ctx before))
    (hreads : ∀ mid l rest, after = mid ++ l :: rest → l.Abandons s.track s.submission →
      ¬ s.Waits (World.run ctx (before ++ d.label :: mid))) :
    Handed (readOutcome s.track) (s.seen (World.run ctx (before ++ d.label :: after))) s.outcome := by
  induction after using List.reverseRecOn with
  | nil =>
      rw [run_decided, hsettled.given]
      exact (view_sound ctx before s.track s.submission).give hwaits
  | append_singleton after l ih =>
      have hrun : World.run ctx (before ++ d.label :: (after ++ [l])) =
          (World.run ctx (before ++ d.label :: after)).exec ctx l := by
        rw [← List.cons_append, ← List.append_assoc, World.run, Machine.run_concat]
      rw [hrun]
      have hbefore := ih fun mid l' rest hafter => hreads mid l' (rest ++ [l]) (by rw [hafter]; simp)
      exact hbefore.step (view_step ctx _ l s.track s.submission) (hreads after l [] rfl)

/-- Whoever ended stays as it ended, whatever follows. -/
theorem ended_run {t : Track} {i : ℕ} {r : Ending Resolution} {ls : List Label}
    (h : ((World.run ctx ls).view t i).stage = .ended r) (ms : List Label) :
    ((World.run ctx (ls ++ ms)).view t i).stage = .ended r := by
  induction ms using List.reverseRecOn with
  | nil => rwa [List.append_nil]
  | append_singleton ms l ih =>
      rw [← List.append_assoc, World.run, Machine.run_concat]
      exact (view_step ctx _ l t i).ended ih

/-- A submission that gives up while it waits ends with no outcome of a decision. -/
theorem abandons_ends {t : Track} {i : ℕ} {l : Label} (hl : l.Abandons t i) (hwaits : (w.view t i).stage = .waiting) :
    ∃ r, ((w.exec ctx l).view t i).stage = .ended r ∧ (r = .resolved (.decided .timedOut) ∨ r = .dropped) := by
  cases t with
  | fifo =>
      rcases hl with rfl | rfl
      · exact ⟨_, congrArg State.stage (leaveFifo_quits hwaits), .inl rfl⟩
      · exact ⟨_, congrArg State.stage (leaveFifo_quits hwaits), .inr rfl⟩
  | role =>
      rcases hl with rfl | rfl
      · exact ⟨_, congrArg State.stage (leaveRole_quits hwaits), .inl rfl⟩
      · exact ⟨_, congrArg State.stage (leaveRole_quits hwaits), .inr rfl⟩

theorem readOutcome_ne {t : Track} {o : ApprovalOutcome} (ho : o = .approved ∨ o = .rejected) :
    readOutcome t o ≠ .resolved (.decided .timedOut) ∧ readOutcome t o ≠ .dropped := by
  rcases ho with rfl | rfl
  · cases t <;> exact ⟨by decide, by decide⟩
  · cases t <;> exact ⟨by decide, by decide⟩

/-- **When what a decision reports is what its submission gets.** In every interleaving, for every decision in it. -/
theorem reaches_submitter_iff (ctx : SigningContext) (before : List Label) (d : Decision) (after : List Label) :
    ReachesSubmitter ctx before d after ↔ Heard ctx before d after := by
  constructor
  · intro h
    refine ⟨fun s hs htrack => ?_, fun s hs hwaits mid l rest hafter hl hstill => ?_⟩
    · -- The role-aware track answers `Ok` whoever is there.
      by_contra hgone
      have hanswer := (settled before hs).answer
      rw [if_pos (.inl htrack), h.gone s hs hgone] at hanswer
      cases hanswer
    · have hsettled := settled before hs
      have hlistening := (view_sound ctx before s.track s.submission).waiting hwaits
      have hreached := h.reported s hs (hsettled.answer.trans (if_pos (.inr hlistening)))
      obtain ⟨r, hends, hr⟩ := abandons_ends hl hstill
      have hrun : World.run ctx (before ++ d.label :: (mid ++ [l])) =
          (World.run ctx (before ++ d.label :: mid)).exec ctx l := by
        rw [← List.cons_append, ← List.append_assoc, World.run, Machine.run_concat]
      rw [← hrun] at hends
      have hended := ended_run hends rest
      have hls : before ++ d.label :: (mid ++ [l]) ++ rest = before ++ d.label :: after := by
        rw [hafter]
        simp
      rw [hls] at hended
      obtain ⟨hneTimedOut, hneDropped⟩ := @readOutcome_ne s.track _ (settles_outcome hs)
      rcases hreached with ⟨hwaiting, -⟩ | hread
      · have hboth := hwaiting.symm.trans hended
        simp at hboth
      · have hsame := Stage.ended.inj (hread.symm.trans hended)
        rcases hr with rfl | rfl
        · exact hneTimedOut hsame
        · exact hneDropped hsame
  · intro h
    refine ⟨ok_settles, fun s hs hok => ?_, fun s hs hgone => ?_⟩
    · have hsettled := settled before hs
      have hwaits : s.Waits (World.run ctx before) := by
        -- `Ok` on the FIFO track means that someone listens, and whoever is queued and listens waits
        have hanswer := hsettled.answer
        rw [hok] at hanswer
        by_cases hsees : s.track = .role ∨ (s.seen (World.run ctx before)).listening = true
        · rcases hsees with htrack | hlistening
          · exact h.waits s hs htrack
          · exact ((view_sound ctx before s.track s.submission).queued hsettled.queued).2 hlistening
        · rw [if_neg hsees] at hanswer
          cases hanswer
      exact (handed_run hsettled hwaits (h.readsFirst s hs hwaits)).received
    · have hsettled := settled before hs
      rw [hsettled.answer, if_neg]
      rintro (htrack | hlistening)
      · exact hgone (h.waits s hs htrack)
      · exact hgone (((view_sound ctx before s.track s.submission).queued hsettled.queued).2 hlistening)

end

/-! ### A quorum completed for nobody

The submission timed out and dropped its receiver; its guard has not run. The reviewer's signature is accepted. -/

def timedOutRun : List Label :=
  [.submitForAction vectorSubmission, .advanceRole 0, .advanceRole 0, .advanceRole 0, .timeOutRole 0]

theorem signed_for_nobody :
    (Decision.addSignature "c1" vectorSignature).answer vectorContext (World.run vectorContext timedOutRun) = .ok () ∧
      (Decision.rejectAction "c1").answer vectorContext (World.run vectorContext timedOutRun) = .ok () ∧
      ((World.run vectorContext timedOutRun).role 0).result? = some (.resolved .timedOut) ∧
      ¬ ReachesSubmitter vectorContext timedOutRun (.addSignature "c1" vectorSignature) [.cleanupRole 0] := by
  have hok : (Decision.addSignature "c1" vectorSignature).answer vectorContext
      (World.run vectorContext timedOutRun) = .ok () := by decide
  refine ⟨hok, by decide, by decide, ?_⟩
  intro h
  have hsettles : (Decision.addSignature "c1" vectorSignature).settles vectorContext
      (World.run vectorContext timedOutRun) = some ⟨.role, 0, .approved⟩ := rfl
  have hgone : ¬ Settlement.Waits ⟨.role, 0, .approved⟩ (World.run vectorContext timedOutRun) := by
    show ¬ ((World.run vectorContext timedOutRun).role 0).stage = .waiting
    decide
  have hanswer := h.gone _ hsettles hgone
  rw [hok] at hanswer
  cases hanswer

end AgentRuntime.Hitl
