import Mathlib.Data.List.TakeDrop

/-!
# `Lib.Walk` — walking a tree with a stack and a budget

The nodes are visited from a stack: the first is taken off, and its children are put in its place (`visited`). With a
budget only so many are visited. When the height of a node is known, the nodes below it are listed by recursion
(`nodes`), and what is visited is the beginning of that list (`visited_eq_take`).
-/

namespace Walk

variable {α : Type} (children : α → List α)

/-- The nodes that a walk with this budget visits, in their order. -/
def visited : ℕ → List α → List α
  | _, [] => []
  | 0, _ :: _ => []
  | budget + 1, a :: rest => a :: visited budget (children a ++ rest)

/-- A node and all below it, down to a depth. -/
def below : ℕ → α → List α
  | 0, a => [a]
  | depth + 1, a => a :: (children a).flatMap (below depth)

variable {children} {height : α → ℕ}

/-- A child is one lower than its parent. -/
def Descends (children : α → List α) (height : α → ℕ) : Prop := ∀ a, ∀ b ∈ children a, height b + 1 = height a

theorem below_eq (h : Descends children height) (a : α) :
    below children (height a) a = a :: (children a).flatMap fun b => below children (height b) b := by
  cases hheight : height a with
  | zero =>
      have hnone : children a = [] := by
        apply List.eq_nil_iff_forall_not_mem.mpr
        intro b hb
        have hstep := h a b hb
        rw [hheight] at hstep
        exact Nat.succ_ne_zero _ hstep
      rw [hnone]
      rfl
  | succ n =>
      have hchild : ∀ b ∈ children a, below children n b = below children (height b) b := by
        intro b hb
        have hstep := h a b hb
        rw [hheight] at hstep
        rw [Nat.succ.inj hstep]
      show a :: (children a).flatMap (below children n) = _
      congr 1
      simp only [List.flatMap]
      exact congrArg List.flatten (List.map_congr_left hchild)

/-- **A budget cuts the list off.** -/
theorem visited_eq_take (h : Descends children height) (budget : ℕ) (stack : List α) :
    visited children budget stack = (stack.flatMap fun a => below children (height a) a).take budget := by
  induction budget generalizing stack with
  | zero =>
      rw [List.take_zero]
      cases stack with
      | nil => rfl
      | cons a rest => rfl
  | succ budget ih =>
      cases stack with
      | nil => rfl
      | cons a rest =>
          unfold visited
          rw [ih, List.flatMap_cons, below_eq h a, List.cons_append, List.take_succ_cons, List.flatMap_append]

end Walk
