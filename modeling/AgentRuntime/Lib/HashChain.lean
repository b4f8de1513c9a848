import Mathlib

/-!
# `Lib.HashChain` — lists whose items link backwards

Each item of a chain carries a link to the identity of the item before it, the first one to a start.
When an identity determines its item, the last identity determines the whole chain
(`Linked.eq_of_end`): the argument runs backwards from the end, one link at a time.
-/

namespace HashChain

variable {α δ : Type} (link ident : α → δ)

/-- Every item links to the one before it, the first one to `start`. -/
def Linked : δ → List α → Prop
  | _, [] => True
  | start, a :: rest => link a = start ∧ Linked (ident a) rest

/-- The identity the next item has to link to. -/
def endOf (start : δ) (as : List α) : δ := as.foldl (fun _ a => ident a) start

theorem endOf_concat (start : δ) (as : List α) (a : α) :
    endOf ident start (as ++ [a]) = ident a := by
  rw [endOf, List.foldl_append]
  rfl

theorem endOf_eq_getLast (start : δ) (as : List α) :
    endOf ident start as = (as.getLast?.map ident).getD start := by
  rcases List.eq_nil_or_concat as with rfl | ⟨init, a, rfl⟩
  · rfl
  · rw [List.concat_eq_append, endOf_concat, List.getLast?_concat]
    rfl

theorem linked_concat {start : δ} {as : List α} {a : α} :
    Linked link ident start (as ++ [a]) ↔
      Linked link ident start as ∧ link a = endOf ident start as := by
  induction as generalizing start with
  | nil => simp [Linked, endOf]
  | cons b as ih =>
      show link b = start ∧ Linked link ident (ident b) (as ++ [a]) ↔ _
      rw [ih]
      exact (and_assoc).symm

variable {link ident}

/-- **The end of a chain determines it**, and where it starts, among chains of the same length. -/
theorem Linked.eq_of_end {start start' : δ} {as bs : List α} (ha : Linked link ident start as)
    (hb : Linked link ident start' bs) (hlen : as.length = bs.length)
    (hend : endOf ident start as = endOf ident start' bs)
    (hident : ∀ a ∈ as, ∀ b ∈ bs, ident a = ident b → a = b) : as = bs ∧ start = start' := by
  induction as using List.reverseRecOn generalizing bs with
  | nil =>
      obtain rfl := List.length_eq_zero_iff.mp hlen.symm
      exact ⟨rfl, hend⟩
  | append_singleton as a ih =>
      obtain rfl | ⟨bs, b, rfl⟩ := List.eq_nil_or_concat bs
      · simp at hlen
      · rw [List.concat_eq_append] at *
        obtain ⟨ha, hlinka⟩ := (linked_concat link ident).mp ha
        obtain ⟨hb, hlinkb⟩ := (linked_concat link ident).mp hb
        -- the last items are the same, so they link to the same identity
        rw [endOf_concat, endOf_concat] at hend
        have hab : a = b := hident a (by simp) b (by simp) hend
        have hbefore : endOf ident start as = endOf ident start' bs := by
          rw [← hlinka, ← hlinkb, hab]
        have hlen' : as.length = bs.length := by simpa using hlen
        obtain ⟨rfl, hstart⟩ := ih ha hb hlen' hbefore fun x hx y hy =>
          hident x (List.mem_append_left _ hx) y (List.mem_append_left _ hy)
        exact ⟨by rw [hab], hstart⟩

end HashChain
