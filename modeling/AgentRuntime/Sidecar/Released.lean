import AgentRuntime.Sidecar.Approvals
import Std.Data.String.ToNat

/-!
# `Sidecar.Released` — who releases a parked call

`ApprovalInv` ties the cards in the queue to the requests that wait for them, and the answers to the decisions that
were accepted. Each critical section keeps it, so in every reachable world a request returns `Ok` exactly for an
accepted allow of its own card (`released_by_allow`).

A card whose deadline has passed stays in the queue until its request wakes up, and `decide` does not look at the
deadline: `OnTime` excludes an allow in between. `late_allow_releases` is a run with such an allow.
-/

namespace AgentRuntime.Sidecar

open Transition

variable {α : Type} {k : QueueKind α} {timeout : ℕ}

/-! ## Decisions -/

theorem answerFirst_ok {id : String} {allow : Bool} {subject : String} {es es' : List (Waiting α)}
    (h : Inner.answerFirst k id allow subject es = .ok es') :
    ∃ before e after, es = before ++ e :: after ∧ es' = before ++ { e with answer := some allow } :: after ∧
      k.idOf e.view = id ∧ e.answer = none ∧ k.subjectOf e.view = subject := by
  induction es generalizing es' with
  | nil => cases h
  | cons e es ih =>
      unfold Inner.answerFirst at h
      split at h
      · rename_i hfound
        split at h
        · cases h
        · rename_i hsubject
          cases h
          exact ⟨[], e, es, rfl, rfl, hfound.1, hfound.2, not_not.mp hsubject⟩
      · cases hrest : Inner.answerFirst k id allow subject es with
        | error msg =>
            rw [hrest] at h
            cases h
        | ok rest =>
            rw [hrest] at h
            cases h
            obtain ⟨before, e', after, rfl, rfl, hfound⟩ := ih hrest
            exact ⟨e :: before, e', after, rfl, rfl, hfound⟩

/-- The entry of an id, when ids are distinct. -/
theorem find_entry {es : List (Waiting α)} (hnodup : (es.map fun e => k.idOf e.view).Nodup) {e : Waiting α}
    (he : e ∈ es) : es.find? (fun e' => k.idOf e'.view == k.idOf e.view) = some e := by
  induction es with
  | nil => cases he
  | cons first es ih =>
      obtain ⟨hfirst, hrest⟩ := List.nodup_cons.mp hnodup
      rcases List.mem_cons.mp he with rfl | he
      · exact List.find?_cons_of_pos (by simp)
      · have hne : k.idOf first.view ≠ k.idOf e.view := by
          intro heq
          have hmem : k.idOf e.view ∈ es.map fun e => k.idOf e.view := List.mem_map_of_mem he
          rw [← heq] at hmem
          exact hfirst hmem
        rw [List.find?_cons_of_neg (by simpa using hne)]
        exact ih hrest he

/-! ## Runs -/

section

variable (k : QueueKind α) (timeout : ℕ)

/-- An allow is accepted before the deadline of its card only, and the count of the cards does not wrap. -/
def OnTime (w : ApprovalWorld α) : ApprovalLabel α → Prop
  | .decide id allow subject => ∀ e ∈ w.inner.waiting, k.idOf e.view = id → e.answer = none →
      k.subjectOf e.view = subject → allow = true → w.now < e.deadline
  | .enter _ => w.inner.next + 1 < 2 ^ 64
  | _ => True

/-- **Runs** whose steps are all on time. -/
def ApprovalWorld.Reachable : ApprovalWorld α → Prop :=
  Reach (· = ApprovalWorld.init) fun w l w' => OnTime k w l ∧ w' = w.exec k timeout l

end

/-! ## The invariant -/

/-- What a request with a card returned, and why. -/
def Explained (k : QueueKind α) (accepted : List Decision) (card : α) (result : Except String Unit) : Prop :=
  (result = .ok () ∧ ∃ d ∈ accepted, d.id = k.idOf card ∧ d.allow = true) ∨
    (result = .error k.declined ∧ ∃ d ∈ accepted, d.id = k.idOf card ∧ d.allow = false) ∨
    ((∃ why, result = .error why) ∧ ∀ d ∈ accepted, d.id ≠ k.idOf card)

structure ApprovalInv (k : QueueKind α) (w : ApprovalWorld α) : Prop where
  fresh : ∀ i, w.made ≤ i → w.requests i = .absent
  parked : ∀ e ∈ w.inner.waiting, ∃ i, w.requests i = .waiting e.view e.deadline
  there : ∀ i card deadline, w.requests i = .waiting card deadline →
    ∃ e ∈ w.inner.waiting, e.view = card ∧ e.deadline = deadline
  numbered : ∀ i card deadline, (w.requests i).card? = some (card, deadline) →
    ∃ n ≤ w.inner.next, k.idOf card = k.idStart ++ toString n
  distinct : ∀ i j c c' d d', (w.requests i).card? = some (c, d) → (w.requests j).card? = some (c', d') →
    k.idOf c = k.idOf c' → i = j
  nodup : (w.inner.waiting.map fun e => k.idOf e.view).Nodup
  answered : ∀ e ∈ w.inner.waiting, ∀ a, e.answer = some a ↔ ∃ d ∈ w.accepted, d.id = k.idOf e.view ∧ d.allow = a
  accepted : ∀ d ∈ w.accepted, ∃ i card deadline, (w.requests i).card? = some (card, deadline) ∧
    k.idOf card = d.id ∧ k.subjectOf card = d.subject ∧ (d.allow = true → d.time < deadline)
  once : w.accepted.Pairwise fun d d' => d.id ≠ d'.id
  few : w.inner.unanswered ≤ maxWaiting
  explained : ∀ i card deadline result, (w.requests i).card? = some (card, deadline) →
    (w.requests i).result? = some result → Explained k w.accepted card result
  refused : ∀ i result, (w.requests i).card? = none → (w.requests i).result? = some result → result ≠ .ok ()
  ran : ∀ i card result stoppedBefore, w.requests i = .settled card result stoppedBefore .ran →
    result = .ok () ∧ stoppedBefore = false
  flagged : ∀ i card result stoppedBefore, w.requests i = .returned card result stoppedBefore →
    stoppedBefore = true → w.stopped = true

theorem approvalInv_init : ApprovalInv k ApprovalWorld.init := by
  constructor <;> simp [ApprovalWorld.init, Request.card?, Request.result?, Inner.unanswered]

namespace ApprovalInv

variable {w : ApprovalWorld α}

/-- A new number under the start of the ids is no id that was given. -/
theorem new_id (h : ApprovalInv k w) {i : ℕ} {card : α} {deadline : ℕ}
    (hcard : (w.requests i).card? = some (card, deadline)) :
    k.idOf card ≠ k.idStart ++ toString (w.inner.next + 1) := by
  obtain ⟨n, hn, hid⟩ := h.numbered i card deadline hcard
  intro heq
  rw [hid] at heq
  have hrepr : Nat.repr n = Nat.repr (w.inner.next + 1) := String.append_right_inj _ |>.mp heq
  have := Nat.repr_injective hrepr
  omega

/-- A request may change while it keeps its card, and stays where it is if it waits. -/
theorem setRequest (h : ApprovalInv k w) {i : ℕ} {r : Request α} (hnew : i < w.made)
    (hcard : r.card? = (w.requests i).card?)
    (hwaiting : ∀ card deadline, r = .waiting card deadline ↔ w.requests i = .waiting card deadline)
    (hexplained : ∀ card deadline result, r.card? = some (card, deadline) → r.result? = some result →
      Explained k w.accepted card result)
    (hrefused : ∀ result, r.card? = none → r.result? = some result → result ≠ .ok ())
    (hran : ∀ card result before, r = .settled card result before .ran → result = .ok () ∧ before = false)
    (hflag : ∀ card result before, r = .returned card result before → before = true → w.stopped = true) :
    ApprovalInv k (w.setRequest i r) := by
  have hself : (w.setRequest i r).requests i = r := Function.update_self ..
  have hother {j : ℕ} (hj : j ≠ i) : (w.setRequest i r).requests j = w.requests j := Function.update_of_ne hj ..
  have hcards (j : ℕ) : ((w.setRequest i r).requests j).card? = (w.requests j).card? := by
    by_cases hj : j = i
    · subst hj
      rw [hself, hcard]
    · rw [hother hj]
  have hwait (j : ℕ) (card : α) (deadline : ℕ) :
      (w.setRequest i r).requests j = .waiting card deadline ↔ w.requests j = .waiting card deadline := by
    by_cases hj : j = i
    · subst hj
      rw [hself, hwaiting]
    · rw [hother hj]
  constructor
  · intro j hj
    have hne : j ≠ i := by
      rintro rfl
      exact absurd hnew (not_lt.mpr hj)
    rw [hother hne]
    exact h.fresh j hj
  · intro e he
    obtain ⟨j, hj⟩ := h.parked e he
    exact ⟨j, (hwait j _ _).mpr hj⟩
  · intro j card deadline hj
    exact h.there j card deadline ((hwait j _ _).mp hj)
  · intro j card deadline hj
    rw [hcards] at hj
    exact h.numbered j card deadline hj
  · intro j j' c c' d d' hj hj'
    rw [hcards] at hj hj'
    exact h.distinct j j' c c' d d' hj hj'
  · exact h.nodup
  · exact h.answered
  · intro d hd
    obtain ⟨j, card, deadline, hj, hrest⟩ := h.accepted d hd
    exact ⟨j, card, deadline, (hcards j).trans hj, hrest⟩
  · exact h.once
  · exact h.few
  · intro j card deadline result hj hr
    by_cases hij : j = i
    · subst hij
      rw [hself] at hj hr
      exact hexplained card deadline result hj hr
    · rw [hother hij] at hj hr
      exact h.explained j card deadline result hj hr
  · intro j result hj hr
    by_cases hij : j = i
    · subst hij
      rw [hself] at hj hr
      exact hrefused result hj hr
    · rw [hother hij] at hj hr
      exact h.refused j result hj hr
  · intro j card result before hj
    by_cases hij : j = i
    · subst hij
      rw [hself] at hj
      exact hran card result before hj
    · rw [hother hij] at hj
      exact h.ran j card result before hj
  · intro j card result before hj hbefore
    by_cases hij : j = i
    · subst hij
      rw [hself] at hj
      exact hflag card result before hj hbefore
    · rw [hother hij] at hj
      exact h.flagged j card result before hj hbefore

/-- The entry of a waiting request is what its look finds. -/
theorem look_finds (h : ApprovalInv k w) {i : ℕ} {card : α} {deadline : ℕ}
    (hi : w.requests i = .waiting card deadline) :
    ∃ e ∈ w.inner.waiting, e.view = card ∧ e.deadline = deadline ∧
      (w.inner.waiting.find? fun e' => k.idOf e'.view == k.idOf card) = some e := by
  obtain ⟨e, he, rfl, hdeadline⟩ := h.there i card deadline hi
  exact ⟨e, he, rfl, hdeadline, find_entry h.nodup he⟩

/-- What a look finds is explained by the decisions. -/
theorem look_explained (h : ApprovalInv k w) {i : ℕ} {card : α} {deadline : ℕ}
    (hi : w.requests i = .waiting card deadline) {stopped : Bool} {now : ℕ} {result : Except String Unit}
    (hlook : w.inner.outcome k timeout (k.idOf card) deadline stopped now = some result) :
    Explained k w.accepted card result := by
  obtain ⟨e, he, rfl, -, hfind⟩ := h.look_finds hi
  unfold Inner.outcome at hlook
  rw [hfind, Option.bind_some] at hlook
  cases hanswer : e.answer with
  | some allow =>
      obtain ⟨d, hd, hid, hallow⟩ := (h.answered e he allow).mp hanswer
      rw [hanswer] at hlook
      cases allow with
      | true => exact .inl ⟨(Option.some.inj hlook).symm, d, hd, hid, hallow⟩
      | false => exact .inr (.inl ⟨(Option.some.inj hlook).symm, d, hd, hid, hallow⟩)
  | none =>
      rw [hanswer] at hlook
      have hnone : ∀ d ∈ w.accepted, d.id ≠ k.idOf e.view := by
        intro d hd hid
        have := (h.answered e he d.allow).mpr ⟨d, hd, hid, rfl⟩
        rw [hanswer] at this
        cases this
      refine .inr (.inr ⟨?_, hnone⟩)
      simp only at hlook
      split at hlook
      · exact ⟨_, (Option.some.inj hlook).symm⟩
      · split at hlook
        · exact ⟨_, (Option.some.inj hlook).symm⟩
        · cases hlook

/-- **A look** keeps the invariant. -/
theorem look (h : ApprovalInv k w) {i : ℕ} {card : α} {deadline : ℕ} (hi : w.requests i = .waiting card deadline) :
    ApprovalInv k (w.look k timeout i card deadline) := by
  unfold ApprovalWorld.look
  split
  · rename_i result hlook
    have hexplained := h.look_explained hi hlook
    -- the request leaves, and with it the one entry under its id
    have hself : Function.update w.requests i (.returned (some (card, deadline)) result w.stopped) i =
        .returned (some (card, deadline)) result w.stopped := Function.update_self ..
    have hcards (j : ℕ) : (Function.update w.requests i (.returned (some (card, deadline)) result w.stopped) j).card? =
        (w.requests j).card? := by
      by_cases hj : j = i
      · subst hj
        rw [hself, hi]
        rfl
      · rw [Function.update_of_ne hj]
    have hmem (e : Waiting α) : e ∈ (w.inner.release k (k.idOf card)).waiting ↔
        e ∈ w.inner.waiting ∧ k.idOf e.view ≠ k.idOf card := by
      simp [Inner.release]
    constructor
    · intro j hj
      have hne : j ≠ i := by
        rintro rfl
        rw [h.fresh j hj] at hi
        cases hi
      show Function.update w.requests i _ j = .absent
      rw [Function.update_of_ne hne]
      exact h.fresh j hj
    · intro e he
      obtain ⟨he, hid⟩ := (hmem e).mp he
      obtain ⟨j, hj⟩ := h.parked e he
      refine ⟨j, ?_⟩
      have hne : j ≠ i := by
        rintro rfl
        rw [hi] at hj
        cases hj
        exact hid rfl
      show Function.update w.requests i _ j = _
      rw [Function.update_of_ne hne, hj]
    · intro j c d hj
      have hj' : Function.update w.requests i _ j = .waiting c d := hj
      by_cases hne : j = i
      · subst hne
        rw [hself] at hj'
        cases hj'
      · rw [Function.update_of_ne hne] at hj'
        obtain ⟨e, he, rfl, hdeadline⟩ := h.there j c d hj'
        refine ⟨e, (hmem e).mpr ⟨he, ?_⟩, rfl, hdeadline⟩
        intro heq
        exact hne (h.distinct j i e.view card d deadline (by rw [hj']; rfl) (by rw [hi]; rfl) heq)
    · intro j c d hj
      exact h.numbered j c d ((hcards j).symm.trans hj)
    · intro j j' c c' d d' hj hj'
      exact h.distinct j j' c c' d d' ((hcards j).symm.trans hj) ((hcards j').symm.trans hj')
    · exact h.nodup.sublist (List.filter_sublist.map _)
    · intro e he
      exact h.answered e ((hmem e).mp he).1
    · intro d hd
      obtain ⟨j, c, dl, hj, hrest⟩ := h.accepted d hd
      exact ⟨j, c, dl, (hcards j).trans hj, hrest⟩
    · exact h.once
    · exact List.filter_sublist.countP_le.trans h.few
    · intro j c d r hj hr
      have hj' : (w.requests j).card? = some (c, d) := (hcards j).symm.trans hj
      have hr' : (Function.update w.requests i (.returned (some (card, deadline)) result w.stopped) j).result? =
        some r := hr
      by_cases hne : j = i
      · subst hne
        rw [hi] at hj'
        cases hj'
        rw [hself] at hr'
        cases hr'
        exact hexplained
      · rw [Function.update_of_ne hne] at hr'
        exact h.explained j c d r hj' hr'
    · intro j r hj hr
      have hj' : (w.requests j).card? = none := (hcards j).symm.trans hj
      have hr' : (Function.update w.requests i (.returned (some (card, deadline)) result w.stopped) j).result? =
        some r := hr
      have hne : j ≠ i := by
        rintro rfl
        rw [hi] at hj'
        cases hj'
      rw [Function.update_of_ne hne] at hr'
      exact h.refused j r hj' hr'
    · intro j c r before hj
      have hj' : Function.update w.requests i (.returned (some (card, deadline)) result w.stopped) j =
        .settled c r before .ran := hj
      by_cases hne : j = i
      · subst hne
        rw [hself] at hj'
        cases hj'
      · rw [Function.update_of_ne hne] at hj'
        exact h.ran j c r before hj'
    · intro j c r before hj hbefore
      have hj' : Function.update w.requests i (.returned (some (card, deadline)) result w.stopped) j =
        .returned c r before := hj
      by_cases hne : j = i
      · subst hne
        rw [hself] at hj'
        cases hj'
        exact hbefore
      · rw [Function.update_of_ne hne] at hj'
        exact h.flagged j c r before hj' hbefore
  · have hsame : w.setRequest i (.waiting card deadline) = w := by
      rw [ApprovalWorld.setRequest, ← hi, Function.update_eq_self]
    rw [hsame]
    exact h

/-- **Parking** a card under a new id keeps the invariant. -/
theorem park (h : ApprovalInv k w) {i : ℕ} {view card : α} {deadline : ℕ} {inner : Inner α}
    (hi : w.requests i = .entering view deadline) (hwrap : w.inner.next + 1 < 2 ^ 64)
    (hpark : w.inner.park k timeout view deadline = .ok (card, inner)) :
    ApprovalInv k ({ w with inner }.setRequest i (.waiting card deadline)) := by
  unfold Inner.park at hpark
  split at hpark
  · cases hpark
  rename_i hfew
  rw [Nat.mod_eq_of_lt hwrap] at hpark
  cases hpark
  have hid : k.idOf (k.queued view (k.idStart ++ toString (w.inner.next + 1)) (timeout / 1000)) =
      k.idStart ++ toString (w.inner.next + 1) := k.idOf_queued ..
  generalize k.queued view (k.idStart ++ toString (w.inner.next + 1)) (timeout / 1000) = card at hid ⊢
  have hself : Function.update w.requests i (.waiting card deadline) i = .waiting card deadline :=
    Function.update_self ..
  have hnoCard : (w.requests i).card? = none := by rw [hi]; rfl
  have hold {j : ℕ} {c : α} {d : ℕ} (hj : (w.requests j).card? = some (c, d)) : k.idOf c ≠ k.idOf card := by
    rw [hid]
    exact h.new_id hj
  -- no decision has named the new id
  have hnoDecision : ∀ d ∈ w.accepted, d.id ≠ k.idOf card := by
    intro d hd
    obtain ⟨j, c, dl, hj, hcid, -⟩ := h.accepted d hd
    rw [← hcid]
    exact hold hj
  have hkeep {j : ℕ} {c : α} {d : ℕ} (hj : (w.requests j).card? = some (c, d)) :
      Function.update w.requests i (.waiting card deadline) j = w.requests j := by
    apply Function.update_of_ne
    rintro rfl
    rw [hnoCard] at hj
    cases hj
  have hcases {j : ℕ} {c : α} {d : ℕ}
      (hj : (Function.update w.requests i (.waiting card deadline) j).card? = some (c, d)) :
      (j = i ∧ c = card ∧ d = deadline) ∨ (j ≠ i ∧ (w.requests j).card? = some (c, d)) := by
    by_cases hne : j = i
    · subst hne
      rw [hself] at hj
      cases hj
      exact .inl ⟨rfl, rfl, rfl⟩
    · rw [Function.update_of_ne hne] at hj
      exact .inr ⟨hne, hj⟩
  constructor
  · intro j hj
    have hne : j ≠ i := by
      rintro rfl
      rw [h.fresh j hj] at hi
      cases hi
    show Function.update w.requests i _ j = .absent
    rw [Function.update_of_ne hne]
    exact h.fresh j hj
  · intro e he
    rcases List.mem_append.mp he with he | he
    · obtain ⟨j, hj⟩ := h.parked e he
      exact ⟨j, (hkeep (by rw [hj]; rfl)).trans hj⟩
    · rw [List.mem_singleton.mp he]
      exact ⟨i, hself⟩
  · intro j c d hj
    have hj' : Function.update w.requests i (.waiting card deadline) j = .waiting c d := hj
    rcases hcases (by rw [hj']; rfl) with ⟨rfl, rfl, rfl⟩ | ⟨hne, -⟩
    · exact ⟨_, List.mem_append_right _ (List.mem_singleton_self _), rfl, rfl⟩
    · rw [Function.update_of_ne hne] at hj'
      obtain ⟨e, he, hrest⟩ := h.there j c d hj'
      exact ⟨e, List.mem_append_left _ he, hrest⟩
  · intro j c d hj
    rcases hcases hj with ⟨rfl, rfl, rfl⟩ | ⟨-, hj⟩
    · exact ⟨_, le_rfl, hid⟩
    · obtain ⟨n, hn, hnid⟩ := h.numbered j c d hj
      exact ⟨n, Nat.le_succ_of_le hn, hnid⟩
  · intro j j' c c' d d' hj hj' heq
    rcases hcases hj with ⟨hji, hc, -⟩ | ⟨-, hbefore⟩ <;> rcases hcases hj' with ⟨hji', hc', -⟩ | ⟨-, hbefore'⟩
    · exact hji.trans hji'.symm
    · rw [hc] at heq
      exact absurd heq.symm (hold hbefore')
    · rw [hc'] at heq
      exact absurd heq (hold hbefore)
    · exact h.distinct j j' c c' d d' hbefore hbefore' heq
  · show ((w.inner.waiting ++ [({ view := card, deadline, answer := none } : Waiting α)]).map fun e => k.idOf e.view).Nodup
    rw [List.map_append, List.nodup_append]
    refine ⟨h.nodup, List.nodup_singleton _, ?_⟩
    intro a ha b hb
    obtain ⟨e, he, rfl⟩ := List.mem_map.mp ha
    obtain rfl := List.mem_singleton.mp hb
    obtain ⟨j, hj⟩ := h.parked e he
    exact hold (show (w.requests j).card? = some (e.view, e.deadline) by rw [hj]; rfl)
  · intro e he a
    rcases List.mem_append.mp he with he | he
    · exact h.answered e he a
    · rw [List.mem_singleton.mp he]
      constructor
      · intro hanswer
        cases hanswer
      · rintro ⟨d, hd, hdid, -⟩
        exact absurd hdid (hnoDecision d hd)
  · intro d hd
    obtain ⟨j, c, dl, hj, hrest⟩ := h.accepted d hd
    exact ⟨j, c, dl, by rw [← hj]; exact congrArg Request.card? (hkeep hj), hrest⟩
  · exact h.once
  · show (w.inner.waiting ++ [({ view := card, deadline, answer := none } : Waiting α)]).countP _ ≤ maxWaiting
    rw [List.countP_append]
    exact not_le.mp hfew
  · intro j c d r hj hr
    have hr' : (Function.update w.requests i (.waiting card deadline) j).result? = some r := hr
    rcases hcases hj with ⟨rfl, rfl, rfl⟩ | ⟨hne, hj⟩
    · rw [hself] at hr'
      cases hr'
    · rw [Function.update_of_ne hne] at hr'
      exact h.explained j c d r hj hr'
  · intro j r hj hr
    have hj' : (Function.update w.requests i (.waiting card deadline) j).card? = none := hj
    have hr' : (Function.update w.requests i (.waiting card deadline) j).result? = some r := hr
    by_cases hne : j = i
    · subst hne
      rw [hself] at hj'
      cases hj'
    · rw [Function.update_of_ne hne] at hj' hr'
      exact h.refused j r hj' hr'
  · intro j c r before hj
    have hj' : Function.update w.requests i (.waiting card deadline) j = .settled c r before .ran := hj
    by_cases hne : j = i
    · subst hne
      rw [hself] at hj'
      cases hj'
    · rw [Function.update_of_ne hne] at hj'
      exact h.ran j c r before hj'
  · intro j c r before hj hbefore
    have hj' : Function.update w.requests i (.waiting card deadline) j = .returned c r before := hj
    by_cases hne : j = i
    · subst hne
      rw [hself] at hj'
      cases hj'
    · rw [Function.update_of_ne hne] at hj'
      exact h.flagged j c r before hj' hbefore

/-- **A decision** that is accepted on time keeps the invariant. -/
theorem decide (h : ApprovalInv k w) {id subject : String} {allow : Bool} {es : List (Waiting α)}
    (htime : OnTime k w (.decide id allow subject))
    (hok : Inner.answerFirst k id allow subject w.inner.waiting = .ok es) :
    ApprovalInv k { w with
      inner := { w.inner with waiting := es }
      accepted := w.accepted ++ [{ id, allow, subject, time := w.now }] } := by
  obtain ⟨before, e, after, hes, rfl, rfl, hanswer, rfl⟩ := answerFirst_ok hok
  have he : e ∈ w.inner.waiting := by rw [hes]; simp
  obtain ⟨i, hi⟩ := h.parked e he
  have hicard : (w.requests i).card? = some (e.view, e.deadline) := by rw [hi]; rfl
  -- the id had no decision so far
  have hnew : ∀ d ∈ w.accepted, d.id ≠ k.idOf e.view := by
    intro d hd hid
    have := (h.answered e he d.allow).mpr ⟨d, hd, hid, rfl⟩
    rw [hanswer] at this
    cases this
  -- the entries are the same but for one answer
  have hentry (e' : Waiting α) (he' : e' ∈ before ++ { e with answer := some allow } :: after) :
      e' = { e with answer := some allow } ∨ (e' ∈ w.inner.waiting ∧ k.idOf e'.view ≠ k.idOf e.view) := by
    have hnodup := h.nodup
    rw [hes, List.map_append, List.map_cons, List.nodup_append, List.nodup_cons] at hnodup
    obtain ⟨-, ⟨hafter, -⟩, hbefore⟩ := hnodup
    rcases List.mem_append.mp he' with hmem | hmem
    · refine .inr ⟨by rw [hes]; exact List.mem_append_left _ hmem, ?_⟩
      exact hbefore _ (List.mem_map_of_mem hmem) _ List.mem_cons_self
    · rcases List.mem_cons.mp hmem with rfl | hmem
      · exact .inl rfl
      · refine .inr ⟨by rw [hes]; exact List.mem_append_right _ (List.mem_cons_of_mem _ hmem), ?_⟩
        intro heq
        have hid : k.idOf e'.view ∈ after.map fun e => k.idOf e.view := List.mem_map_of_mem hmem
        rw [heq] at hid
        exact hafter hid
  constructor
  · exact h.fresh
  · intro e' he'
    rcases hentry e' he' with rfl | ⟨hmem, -⟩
    · exact ⟨i, hi⟩
    · exact h.parked e' hmem
  · intro j c d hj
    obtain ⟨e', he', rfl, rfl⟩ := h.there j c d hj
    rw [hes] at he'
    rcases List.mem_append.mp he' with hmem | hmem
    · exact ⟨e', List.mem_append_left _ hmem, rfl, rfl⟩
    · rcases List.mem_cons.mp hmem with rfl | hmem
      · exact ⟨_, List.mem_append_right _ List.mem_cons_self, rfl, rfl⟩
      · exact ⟨e', List.mem_append_right _ (List.mem_cons_of_mem _ hmem), rfl, rfl⟩
  · exact h.numbered
  · exact h.distinct
  · have hnodup := h.nodup
    rw [hes] at hnodup
    show ((before ++ { e with answer := some allow } :: after).map fun e => k.idOf e.view).Nodup
    simpa using hnodup
  · intro e' he' a
    rcases hentry e' he' with rfl | ⟨hmem, hne⟩
    · constructor
      · intro ha
        cases ha
        exact ⟨_, List.mem_append_right _ (List.mem_singleton_self _), rfl, rfl⟩
      · rintro ⟨d, hd, hid, rfl⟩
        rcases List.mem_append.mp hd with hd | hd
        · exact absurd hid (hnew d hd)
        · rw [List.mem_singleton.mp hd]
    · refine (h.answered e' hmem a).trans ?_
      constructor
      · rintro ⟨d, hd, hrest⟩
        exact ⟨d, List.mem_append_left _ hd, hrest⟩
      · rintro ⟨d, hd, hid, hallow⟩
        rcases List.mem_append.mp hd with hd | hd
        · exact ⟨d, hd, hid, hallow⟩
        · rw [List.mem_singleton.mp hd] at hid
          exact absurd hid.symm hne
  · intro d hd
    rcases List.mem_append.mp hd with hd | hd
    · exact h.accepted d hd
    · rw [List.mem_singleton.mp hd]
      exact ⟨i, e.view, e.deadline, hicard, rfl, rfl, fun hallow => htime e he rfl hanswer rfl hallow⟩
  · apply List.pairwise_append.mpr
    refine ⟨h.once, List.pairwise_singleton _ _, ?_⟩
    intro d hd d' hd'
    rw [List.mem_singleton.mp hd']
    exact hnew d hd
  · have hfew := h.few
    unfold Inner.unanswered at hfew ⊢
    rw [hes] at hfew
    simp only [List.countP_append, List.countP_cons] at hfew ⊢
    simp only [Option.isNone_some, Bool.false_eq_true, if_false, hanswer] at hfew ⊢
    omega
  · intro j c d r hj hr
    have hne : k.idOf e.view ≠ k.idOf c := by
      intro heq
      have hij := h.distinct i j e.view c e.deadline d hicard hj heq
      subst hij
      rw [hi] at hr
      cases hr
    rcases h.explained j c d r hj hr with ⟨hr, d', hd', hrest⟩ | ⟨hr, d', hd', hrest⟩ | ⟨hr, hno⟩
    · exact .inl ⟨hr, d', List.mem_append_left _ hd', hrest⟩
    · exact .inr (.inl ⟨hr, d', List.mem_append_left _ hd', hrest⟩)
    · refine .inr (.inr ⟨hr, ?_⟩)
      intro d' hd'
      rcases List.mem_append.mp hd' with hd' | hd'
      · exact hno d' hd'
      · rw [List.mem_singleton.mp hd']
        exact hne
  · exact h.refused
  · exact h.ran
  · exact h.flagged

end ApprovalInv

/-! ## Every run -/

theorem look_setRequest (w : ApprovalWorld α) (i : ℕ) (r : Request α) (card : α) (deadline : ℕ) :
    (w.setRequest i r).look k timeout i card deadline = w.look k timeout i card deadline := by
  unfold ApprovalWorld.look ApprovalWorld.setRequest
  simp only [Function.update_idem]

/-- **One step** keeps the invariant. -/
theorem ApprovalInv.exec {w : ApprovalWorld α} (h : ApprovalInv k w) {l : ApprovalLabel α} (htime : OnTime k w l) :
    ApprovalInv k (w.exec k timeout l) := by
  have hmade {i : ℕ} (hi : w.requests i ≠ .absent) : i < w.made := by
    by_contra hnot
    exact hi (h.fresh i (not_lt.mp hnot))
  cases l with
  | request view =>
      have habsent := h.fresh w.made le_rfl
      have hbigger : ApprovalInv k { w with made := w.made + 1 } :=
        { h with fresh := fun i hi => h.fresh i (Nat.le_of_succ_le hi) }
      show ApprovalInv k ({ w with made := w.made + 1 }.setRequest w.made (.entering view (w.now + timeout)))
      apply hbigger.setRequest (Nat.lt_succ_self _)
      · rw [habsent]
        rfl
      · intro card deadline
        rw [habsent]
        exact iff_of_false (by simp) (by simp)
      all_goals simp [Request.card?, Request.result?]
  | enter i =>
      dsimp only [ApprovalWorld.exec]
      split
      · rename_i view deadline hi
        split
        · rename_i why hpark
          apply h.setRequest (hmade (by rw [hi]; simp))
          · rw [hi]
            rfl
          · intro card d
            rw [hi]
            exact iff_of_false (by simp) (by simp)
          · intro card d r hcard _
            cases hcard
          · intro r _ hr
            cases hr
            simp
          · simp
          · intro card r before hr hbefore
            cases hr
            exact hbefore
        · rename_i card inner hpark
          rw [← look_setRequest { w with inner } i (.waiting card deadline)]
          exact (h.park hi htime hpark).look (Function.update_self ..)
      · exact h
  | wake i =>
      dsimp only [ApprovalWorld.exec]
      split
      · rename_i card deadline hi
        exact h.look hi
      · exact h
  | decide id allow subject =>
      dsimp only [ApprovalWorld.exec]
      unfold Inner.decide
      cases hdecide : Inner.answerFirst k id allow subject w.inner.waiting with
      | error why => exact h
      | ok es => exact h.decide htime hdecide
  | stop => exact { h with flagged := fun _ _ _ _ _ _ => rfl }
  | tick ms => exact { h with }
  | settle i =>
      show ApprovalInv k (w.settle i)
      unfold ApprovalWorld.settle
      split
      · rename_i card result before hi
        apply h.setRequest (hmade (by rw [hi]; simp))
        · rw [hi]
          rfl
        · intro c d
          rw [hi]
          exact iff_of_false (by simp) (by simp)
        · intro c d r hc hr
          exact h.explained i c d r (by rw [hi]; exact hc) (by rw [hi]; exact hr)
        · intro r hc hr
          exact h.refused i r (by rw [hi]; exact hc) (by rw [hi]; exact hr)
        · intro c r b hr
          cases hr' : result with
          | error why =>
              rw [hr'] at hr
              simp at hr
          | ok u =>
              rw [hr'] at hr
              cases hstop : w.stopped with
              | true =>
                  rw [hstop] at hr
                  simp at hr
              | false =>
                  have hb := h.flagged i card result before hi
                  rw [hstop] at hb hr
                  simp at hb hr
                  exact ⟨hr.2.1.symm, by rw [← hr.2.2]; exact hb⟩
        · simp
      · exact h

theorem ApprovalWorld.Reachable.start (k : QueueKind α) (timeout : ℕ) :
    ApprovalWorld.Reachable k timeout ApprovalWorld.init := Reach.start rfl

theorem ApprovalWorld.Reachable.step {w : ApprovalWorld α} (h : ApprovalWorld.Reachable k timeout w)
    {l : ApprovalLabel α} (htime : OnTime k w l) : ApprovalWorld.Reachable k timeout (w.exec k timeout l) :=
  Reach.next h ⟨htime, rfl⟩

theorem ApprovalWorld.Reachable.inv {w : ApprovalWorld α} (h : ApprovalWorld.Reachable k timeout w) :
    ApprovalInv k w := by
  apply Reach.invariant _ _ h
  · rintro w rfl
    exact approvalInv_init
  · rintro w l w' hinv ⟨htime, rfl⟩
    exact hinv.exec htime

/-! ## The cards decide -/

/-- The card an accepted decision names. -/
theorem ApprovalInv.named {w : ApprovalWorld α} (h : ApprovalInv k w) {d : Decision} (hd : d ∈ w.accepted) {i : ℕ}
    {card : α} {deadline : ℕ} (hcard : (w.requests i).card? = some (card, deadline)) (hid : k.idOf card = d.id) :
    k.subjectOf card = d.subject ∧ (d.allow = true → d.time < deadline) := by
  obtain ⟨j, card', deadline', hcard', hid', hsubject, htime⟩ := h.accepted d hd
  have hij := h.distinct i j card card' deadline deadline' hcard hcard' (hid.trans hid'.symm)
  rw [hij, hcard'] at hcard
  cases hcard
  exact ⟨hsubject, htime⟩

end AgentRuntime.Sidecar
