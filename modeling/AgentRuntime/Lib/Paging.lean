import Mathlib

/-!
# `Lib.Paging` — reading a descending list page by page

A list is kept in descending order of a key, and is read a page at a time: each page goes on below the key that the page
before it ended with (`below`). `Pages` collects the pages up to an empty one; they are the whole list, however long
the pages are (`pages_below`).
-/

namespace Paging

variable {α κ : Type*} [LinearOrder κ] (key : α → κ)

/-- What stands below the cursor, which is open at first. -/
def below (cursor : Option κ) (rs : List α) : List α :=
  rs.filter fun r => cursor.all fun b => decide (key r < b)

/-- The pages from a cursor on, one after the other, until one is empty. -/
inductive Pages (fetch : Option κ → List α → Prop) : Option κ → List α → Prop
  | done {cursor : Option κ} (h : fetch cursor []) : Pages fetch cursor []
  | more {cursor : Option κ} {page rest : List α} {last : α} (h : fetch cursor page)
      (hlast : page.getLast? = some last) (hrest : Pages fetch (some (key last)) rest) :
      Pages fetch cursor (page ++ rest)

variable {key}

@[simp] theorem below_none (rs : List α) : below key none rs = rs := by
  simp [below]

@[simp] theorem below_nil (cursor : Option κ) : below key cursor [] = [] := by
  simp [below]

theorem below_cons_pos {cursor : Option κ} {r : α} (h : (cursor.all fun b => decide (key r < b)) = true)
    (rs : List α) : below key cursor (r :: rs) = r :: below key cursor rs := by
  simp [below, h]

theorem below_cons_neg {cursor : Option κ} {r : α} (h : (cursor.all fun b => decide (key r < b)) = false)
    (rs : List α) : below key cursor (r :: rs) = below key cursor rs := by
  simp [below, h]

theorem below_append (cursor : Option κ) (rs ss : List α) :
    below key cursor (rs ++ ss) = below key cursor rs ++ below key cursor ss := by
  simp [below]

theorem mem_below_some {b : κ} {rs : List α} {r : α} : r ∈ below key (some b) rs ↔ r ∈ rs ∧ key r < b := by
  simp [below]

theorem below_sublist (cursor : Option κ) (rs : List α) : (below key cursor rs).Sublist rs := List.filter_sublist

/-- What stands below the key of an element is what follows the element. -/
theorem below_split {front back : List α} {x : α}
    (hsorted : (front ++ x :: back).Pairwise fun a b => key b < key a) :
    below key (some (key x)) (front ++ x :: back) = back := by
  obtain ⟨-, htail, hcross⟩ := List.pairwise_append.mp hsorted
  have hfront : front.filter (fun r => decide (key r < key x)) = [] := by
    rw [List.filter_eq_nil_iff]
    intro r hr
    simpa using (hcross r hr x List.mem_cons_self).le
  have hback : back.filter (fun r => decide (key r < key x)) = back := by
    rw [List.filter_eq_self]
    intro r hr
    simpa using (List.pairwise_cons.mp htail).1 r hr
  simp [below, hfront, hback]

/-- A lower cursor within what stands below another. -/
theorem below_below {cursor : Option κ} {rs : List α} {x : α} (hx : x ∈ below key cursor rs) :
    below key (some (key x)) (below key cursor rs) = below key (some (key x)) rs := by
  unfold below
  rw [List.filter_filter]
  apply List.filter_congr
  intro r _
  cases cursor with
  | none => simp
  | some b =>
      have hlt := (mem_below_some.mp hx).2
      simp only [Option.all_some, Bool.and_eq_left_iff_imp, decide_eq_true_eq]
      exact fun h => h.trans hlt

/-- **The pages are the whole list**: each goes on where the one before it ended, and the last one is empty. -/
theorem pages_below {rs : List α} (hsorted : rs.Pairwise fun a b => key b < key a) {limit : ℕ} (hlimit : 0 < limit)
    (fetch : Option κ → List α → Prop) (hfetch : ∀ cursor, fetch cursor ((below key cursor rs).take limit))
    (cursor : Option κ) : Pages key fetch cursor (below key cursor rs) := by
  -- by induction on what is left below the cursor
  induction hn : (below key cursor rs).length using Nat.strong_induction_on generalizing cursor with
  | _ n ih =>
      have hpage := hfetch cursor
      have hleft : (below key cursor rs).Pairwise fun a b => key b < key a := hsorted.sublist (below_sublist cursor rs)
      rcases List.eq_nil_or_concat ((below key cursor rs).take limit) with hnil | ⟨front, x, hx⟩
      · have hempty : below key cursor rs = [] := (List.take_eq_nil_iff.mp hnil).resolve_left hlimit.ne'
        rw [hempty, List.take_nil] at hpage
        rw [hempty]
        exact .done hpage
      · rw [List.concat_eq_append] at hx
        have hsplit : below key cursor rs = front ++ x :: (below key cursor rs).drop limit := by
          conv_lhs => rw [← List.take_append_drop limit (below key cursor rs), hx]
          simp
        have hmem : x ∈ below key cursor rs := by
          rw [hsplit]
          simp
        -- the next page starts at the rest
        have hnext : below key (some (key x)) rs = (below key cursor rs).drop limit := by
          rw [← below_below hmem]
          conv_lhs => rw [hsplit]
          exact below_split (hsplit ▸ hleft)
        have hshort : (below key (some (key x)) rs).length < n := by
          rw [hnext, ← hn, hsplit]
          simp only [List.length_append, List.length_cons, List.length_drop]
          omega
        have hrest := ih _ hshort (some (key x)) rfl
        rw [← List.take_append_drop limit (below key cursor rs)]
        rw [hnext] at hrest
        exact .more hpage (by rw [hx, List.getLast?_concat]) hrest

end Paging
