/-!
# `Lib.Dialogue` — programs that talk, and what they say

A program that exchanges questions and answers with what is around it, one at a time, and may fail. Every exchange is
logged, and the answers may depend on all that was said before; so a program is a function of the log so far.

`Adds x R` says what a run of `x` appends to the log, next to its result. The rules compose: `Adds.bind` is the rule of
sequence, `Adds.exchange` that of one question.
-/

universe u

/-- A program that talks in exchanges `Ev` and fails with `ε`. -/
def Talk (Ev ε α : Type u) : Type u := List Ev → Except ε α × List Ev

namespace Talk

variable {Ev ε α β : Type u}

instance : Monad (Talk Ev ε) where
  pure a := fun log => (.ok a, log)
  bind x f := fun log =>
    match x log with
    | (.ok a, log') => f a log'
    | (.error e, log') => (.error e, log')

def throw (e : ε) : Talk Ev ε α := fun log => (.error e, log)

/-- One exchange: what is answered and what is logged, given the log. -/
def exchange (f : List Ev → Except ε α × Ev) : Talk Ev ε α := fun log => ((f log).1, log ++ [(f log).2])

/-- Go on after a failure, with the result at hand. -/
def attempt (x : Talk Ev ε α) : Talk Ev ε (Except ε α) := fun log => (.ok (x log).1, (x log).2)

/-- A result that is there already. -/
def ofExcept : Except ε α → Talk Ev ε α
  | .ok a => pure a
  | .error e => throw e

/-- Every run of `x` appends to the log, and `R` holds of its result and what it appended. -/
def Adds (x : Talk Ev ε α) (R : Except ε α → List Ev → Prop) : Prop :=
  ∀ log, ∃ said, (x log).2 = log ++ said ∧ R (x log).1 said

variable {x : Talk Ev ε α} {f : α → Talk Ev ε β} {R R' : Except ε α → List Ev → Prop}

theorem Adds.weaken (h : Adds x R) (hR : ∀ r said, R r said → R' r said) : Adds x R' := by
  intro log
  obtain ⟨said, hlog, hr⟩ := h log
  exact ⟨said, hlog, hR _ _ hr⟩

theorem Adds.pure {a : α} (h : R (.ok a) []) : Adds (Pure.pure a : Talk Ev ε α) R := by
  intro log
  exact ⟨[], (List.append_nil log).symm, h⟩

theorem Adds.throw {e : ε} (h : R (.error e) []) : Adds (Talk.throw e : Talk Ev ε α) R := by
  intro log
  exact ⟨[], (List.append_nil log).symm, h⟩

/-- **One exchange.** -/
theorem Adds.exchange {f : List Ev → Except ε α × Ev} (h : ∀ log, R (f log).1 [(f log).2]) :
    Adds (Talk.exchange f) R := by
  intro log
  exact ⟨[(f log).2], rfl, h log⟩

theorem Adds.attempt {R : Except ε (Except ε α) → List Ev → Prop} (h : Adds x fun r said => R (.ok r) said) :
    Adds (Talk.attempt x) R := h

theorem bind_ok {log log' : List Ev} {a : α} (h : x log = (.ok a, log')) : (x >>= f) log = f a log' := by
  show (match x log with
    | (.ok a, log') => f a log'
    | (.error e, log') => (.error e, log')) = _
  rw [h]

theorem bind_error {log log' : List Ev} {e : ε} (h : x log = (.error e, log')) : (x >>= f) log = (.error e, log') := by
  show (match x log with
    | (.ok a, log') => f a log'
    | (.error e, log') => (.error e, log')) = _
  rw [h]

/-- **One after the other.** -/
theorem Adds.bind {R' : Except ε β → List Ev → Prop} (hx : Adds x R)
    (herror : ∀ e said, R (.error e) said → R' (.error e) said)
    (hok : ∀ a said, R (.ok a) said → Adds (f a) fun r said' => R' r (said ++ said')) : Adds (x >>= f) R' := by
  intro log
  obtain ⟨said, hlog, hr⟩ := hx log
  rcases hrun : x log with ⟨r, log'⟩
  rw [hrun] at hlog hr
  cases r with
  | error e =>
      rw [bind_error hrun]
      exact ⟨said, hlog, herror e said hr⟩
  | ok a =>
      rw [bind_ok hrun]
      obtain ⟨said', hlog', hr'⟩ := hok a said hr log'
      refine ⟨said ++ said', ?_, hr'⟩
      have hlog : log' = log ++ said := hlog
      rw [hlog', hlog, List.append_assoc]

end Talk
