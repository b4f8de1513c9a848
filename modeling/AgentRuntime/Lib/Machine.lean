import Mathlib

/-!
# `Lib.Machine` — deterministic machines driven by a list of labels

A machine executes one label at a time: `run exec s ls` is the state after `ls`. When a label that is not
enabled leaves the state as it is, a list of labels is an interleaving of whatever the labels stand for, and
"in every reachable state" is a statement about every list.

Three rules do the work of an induction over runs: `invariant`, `stable` (what a step keeps, a longer run
keeps) and `exists_cause` (what holds now and did not hold at the start was made to hold by one label of the
run, in the state before it).
-/

namespace Machine

variable {σ ℓ : Type} {exec : σ → ℓ → σ}

/-- The state after the labels `ls`. -/
def run (exec : σ → ℓ → σ) (s : σ) (ls : List ℓ) : σ := ls.foldl exec s

@[simp] theorem run_nil (s : σ) : run exec s [] = s := rfl

@[simp] theorem run_cons (s : σ) (l : ℓ) (ls : List ℓ) : run exec s (l :: ls) = run exec (exec s l) ls := rfl

theorem run_append (s : σ) (ls ms : List ℓ) : run exec s (ls ++ ms) = run exec (run exec s ls) ms :=
  List.foldl_append

@[simp] theorem run_concat (s : σ) (ls : List ℓ) (l : ℓ) :
    run exec s (ls ++ [l]) = exec (run exec s ls) l := run_append s ls [l]

/-- **The invariant rule.** -/
theorem invariant {P : σ → Prop} {s : σ} (hinit : P s) (hstep : ∀ s l, P s → P (exec s l)) (ls : List ℓ) :
    P (run exec s ls) := by
  induction ls generalizing s with
  | nil => exact hinit
  | cons l ls ih => exact ih (hstep s l hinit)

/-- What every step keeps from some point on holds at the end. -/
theorem stable {P : σ → Prop} {s : σ} {ls : List ℓ} (h : P (run exec s ls))
    (hstep : ∀ s l, P s → P (exec s l)) (ms : List ℓ) : P (run exec s (ls ++ ms)) := by
  rw [run_append]
  exact invariant h hstep ms

/-- A reflexive, transitive relation kept by each step relates the ends of a run. -/
theorem related {I : σ → Prop} {R : σ → σ → Prop} (hrefl : ∀ s, R s s)
    (htrans : ∀ s t u, R s t → R t u → R s u) (hstep : ∀ s l, I s → R s (exec s l) ∧ I (exec s l)) {s : σ}
    (hI : I s) (ls : List ℓ) : R s (run exec s ls) := by
  induction ls generalizing s with
  | nil => exact hrefl s
  | cons l ls ih =>
      obtain ⟨hrel, hI'⟩ := hstep s l hI
      exact htrans _ _ _ hrel (ih hI')

/-- **The cause of what holds.** When a label can make `P` hold only under `Cause`, whatever holds at the end
    of a run and not at its start has a cause in the run. -/
theorem exists_cause {I P : σ → Prop} {Cause : σ → ℓ → Prop} {s : σ} (hI : ∀ ls, I (run exec s ls))
    (hcause : ∀ s l, I s → P (exec s l) → P s ∨ Cause s l) (hinit : ¬ P s) {ls : List ℓ}
    (h : P (run exec s ls)) :
    ∃ before l after, ls = before ++ l :: after ∧ Cause (run exec s before) l := by
  induction ls using List.reverseRecOn with
  | nil => exact absurd h hinit
  | append_singleton ls l ih =>
      rw [run_concat] at h
      rcases hcause _ l (hI ls) h with hbefore | hnow
      · obtain ⟨before, m, after, rfl, hm⟩ := ih hbefore
        exact ⟨before, m, after ++ [l], by simp, hm⟩
      · exact ⟨ls, l, [], rfl, hnow⟩

/-! ## What the labels of a run put out -/

/-- Everything `out` says about the labels of a run, in order, each in the state before it. -/
def outputs {α : Type} (exec : σ → ℓ → σ) (out : σ → ℓ → List α) : σ → List ℓ → List α
  | _, [] => []
  | s, l :: ls => out s l ++ outputs exec out (exec s l) ls

variable {α : Type} {out : σ → ℓ → List α}

@[simp] theorem outputs_nil (s : σ) : outputs exec out s [] = [] := rfl

theorem outputs_append (s : σ) (ls ms : List ℓ) :
    outputs exec out s (ls ++ ms) = outputs exec out s ls ++ outputs exec out (run exec s ls) ms := by
  induction ls generalizing s with
  | nil => rfl
  | cons l ls ih => simp only [List.cons_append, outputs, ih, run_cons, List.append_assoc]

theorem outputs_concat (s : σ) (ls : List ℓ) (l : ℓ) :
    outputs exec out s (ls ++ [l]) = outputs exec out s ls ++ out (run exec s ls) l := by
  rw [outputs_append, outputs, outputs_nil, List.append_nil]

end Machine
