import Mathlib

/-!
# `Lib.Transition` — labelled transition systems and their runs

`Steps step s ls t` is a run from `s` to `t` whose labels are `ls`. A concrete machine that executes
the labels with a function is simulated by the transition system when one label is
(`Steps.simulates`), at the end of the run and, by `Steps.split`, at every point inside it: that is how
a crash between two steps, or a reader between two steps, is reasoned about.
-/

namespace Transition

variable {σ ℓ κ : Type}

/-- A run, with the labels of its steps in order. -/
inductive Steps (step : σ → ℓ → σ → Prop) : σ → List ℓ → σ → Prop
  | nil (s : σ) : Steps step s [] s
  | cons {s t u : σ} {l : ℓ} {ls : List ℓ} (head : step s l t) (tail : Steps step t ls u) :
      Steps step s (l :: ls) u

namespace Steps

variable {step : σ → ℓ → σ → Prop}

theorem single {s t : σ} {l : ℓ} (h : step s l t) : Steps step s [l] t := .cons h (.nil t)

theorem append {s t u : σ} {ls ms : List ℓ} (h : Steps step s ls t) (h' : Steps step t ms u) :
    Steps step s (ls ++ ms) u := by
  induction h with
  | nil s => exact h'
  | cons head tail ih => exact .cons head (ih h')

/-- A run passes through a state at every point of its labels. -/
theorem split {s u : σ} {ls ms : List ℓ} (h : Steps step s (ls ++ ms) u) :
    ∃ t, Steps step s ls t ∧ Steps step t ms u := by
  induction ls generalizing s with
  | nil => exact ⟨s, .nil s, h⟩
  | cons l ls ih =>
      cases h with
      | cons head tail =>
          obtain ⟨t, hleft, hright⟩ := ih tail
          exact ⟨t, .cons head hleft, hright⟩

/-- A run of fewer steps is a run. -/
theorem mono {step' : σ → ℓ → σ → Prop} (hle : ∀ s l t, step s l t → step' s l t) {s t : σ}
    {ls : List ℓ} (h : Steps step s ls t) : Steps step' s ls t := by
  induction h with
  | nil s => exact .nil s
  | cons head tail ih => exact .cons (hle _ _ _ head) ih

/-- The state after the first `k` steps of a run. -/
theorem take {s t : σ} {ls : List ℓ} (h : Steps step s ls t) (k : ℕ) :
    ∃ u, Steps step s (ls.take k) u := by
  rw [← List.take_append_drop k ls] at h
  obtain ⟨u, hleft, -⟩ := h.split
  exact ⟨u, hleft⟩

/-- What one step preserves, a run preserves. -/
theorem preserves {P : σ → Prop} (hstep : ∀ s l t, step s l t → P s → P t) {s t : σ} {ls : List ℓ}
    (h : Steps step s ls t) (hs : P s) : P t := by
  induction h with
  | nil s => exact hs
  | cons head tail ih => exact ih (hstep _ _ _ head hs)

/-- A reflexive, transitive relation that holds along each step holds along a run. -/
theorem relates {R : σ → σ → Prop} (hrefl : ∀ s, R s s) (htrans : ∀ s t u, R s t → R t u → R s u)
    (hstep : ∀ s l t, step s l t → R s t) {s t : σ} {ls : List ℓ} (h : Steps step s ls t) : R s t := by
  induction h with
  | nil s => exact hrefl s
  | cons head tail ih => exact htrans _ _ _ (hstep _ _ _ head) ih

/-- **Simulation.** A machine that executes labels stays related to the transition system. -/
theorem simulates {exec : κ → ℓ → κ} {Rel : κ → σ → Prop}
    (hsim : ∀ c s l t, Rel c s → step s l t → Rel (exec c l) t) {c : κ} {s t : σ} {ls : List ℓ}
    (h : Steps step s ls t) (hrel : Rel c s) : Rel (ls.foldl exec c) t := by
  induction h generalizing c with
  | nil s => exact hrel
  | cons head tail ih => exact ih (hsim _ _ _ _ hrel head)

end Steps

/-! ## Reachable states -/

/-- States reached from an initial one by any number of steps. -/
inductive Reach (init : σ → Prop) (step : σ → ℓ → σ → Prop) : σ → Prop
  | start {s : σ} (h : init s) : Reach init step s
  | next {s t : σ} {l : ℓ} (before : Reach init step s) (h : step s l t) : Reach init step t

namespace Reach

variable {init : σ → Prop} {step : σ → ℓ → σ → Prop}

/-- **The invariant rule.** What holds initially and is kept by every step holds in every reachable
    state. -/
theorem invariant {P : σ → Prop} (hinit : ∀ s, init s → P s)
    (hstep : ∀ s l t, P s → step s l t → P t) {s : σ} (h : Reach init step s) : P s := by
  induction h with
  | start h => exact hinit _ h
  | next _ h ih => exact hstep _ _ _ ih h

/-- With fewer restrictions on the steps, more is reachable. -/
theorem mono {step' : σ → ℓ → σ → Prop} (hle : ∀ s l t, step s l t → step' s l t) {s : σ}
    (h : Reach init step s) : Reach init step' s := by
  induction h with
  | start h => exact .start h
  | next _ h ih => exact .next ih (hle _ _ _ h)

end Reach

end Transition
