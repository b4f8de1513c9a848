import Mathlib.Data.List.Basic

/-!
# `Lib.Juxtaposed` — heads of one length and tails of any, written one after the other

`juxtapose` writes a list of pairs without saying how long the tails are. Two lists written the same are the same
exactly when, place by place, neither tail extends the other (`eq_iff_told_apart`).
-/

namespace Juxtaposed

variable {α : Type}

def juxtapose (pairs : List (List α × List α)) : List α := pairs.flatMap fun p => p.1 ++ p.2

/-- Of two tails in the same place, one begins the other only when they are equal. -/
def ToldApart (tails tails' : List (List α)) : Prop :=
  ∀ p ∈ tails.zip tails', p.1 <+: p.2 ∨ p.2 <+: p.1 → p.1 = p.2

theorem ToldApart.refl (tails : List (List α)) : ToldApart tails tails := by
  induction tails with
  | nil => simp [ToldApart]
  | cons t tails ih =>
      intro p hp hbegins
      rcases List.mem_cons.mp hp with rfl | hp
      · rfl
      · exact ih p hp hbegins

/-- **Telling apart.** -/
theorem eq_of_juxtapose_eq {n : ℕ} (hn : 0 < n) {pairs pairs' : List (List α × List α)}
    (hpairs : ∀ p ∈ pairs, p.1.length = n) (hpairs' : ∀ p ∈ pairs', p.1.length = n)
    (h : juxtapose pairs = juxtapose pairs') (hapart : ToldApart (pairs.map Prod.snd) (pairs'.map Prod.snd)) :
    pairs = pairs' := by
  induction pairs generalizing pairs' with
  | nil =>
      cases pairs' with
      | nil => rfl
      | cons p' pairs' =>
          have hlength := congrArg List.length h
          have hhead := hpairs' p' (List.mem_cons_self ..)
          simp only [juxtapose, List.flatMap_cons, List.flatMap_nil, List.length_append, List.length_nil] at hlength
          omega
  | cons p pairs ih =>
      cases pairs' with
      | nil =>
          have hlength := congrArg List.length h
          have hhead := hpairs p (List.mem_cons_self ..)
          simp only [juxtapose, List.flatMap_cons, List.flatMap_nil, List.length_append, List.length_nil] at hlength
          omega
      | cons p' pairs' =>
          obtain ⟨head, tail⟩ := p
          obtain ⟨head', tail'⟩ := p'
          have hheads : head.length = head'.length :=
            (hpairs _ (List.mem_cons_self ..)).trans (hpairs' _ (List.mem_cons_self ..)).symm
          have hsplit : head ++ (tail ++ juxtapose pairs) = head' ++ (tail' ++ juxtapose pairs') := by
            simpa [juxtapose] using h
          obtain ⟨rfl, hrest⟩ := List.append_inj hsplit hheads
          have htails : tail = tail' := by
            apply hapart (tail, tail') (by simp)
            rcases List.append_eq_append_iff.mp hrest with ⟨q, rfl, -⟩ | ⟨q, rfl, -⟩
            · exact .inl (List.prefix_append _ _)
            · exact .inr (List.prefix_append _ _)
          subst htails
          rw [ih (fun q hq => hpairs q (List.mem_cons_of_mem _ hq)) (fun q hq => hpairs' q (List.mem_cons_of_mem _ hq))
            (List.append_cancel_left hrest) (fun q hq => hapart q (by simp [hq]))]

/-- Two lists of pairs written the same are the same exactly where their tails are told apart. -/
theorem eq_iff_told_apart {n : ℕ} (hn : 0 < n) {pairs pairs' : List (List α × List α)}
    (hpairs : ∀ p ∈ pairs, p.1.length = n) (hpairs' : ∀ p ∈ pairs', p.1.length = n)
    (h : juxtapose pairs = juxtapose pairs') :
    pairs = pairs' ↔ ToldApart (pairs.map Prod.snd) (pairs'.map Prod.snd) := by
  constructor
  · rintro rfl
    exact .refl _
  · exact eq_of_juxtapose_eq hn hpairs hpairs' h

end Juxtaposed
