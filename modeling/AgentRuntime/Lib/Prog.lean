/-!
# `Lib.Prog` — programs on a state that may fail

A program reads and changes a state and ends in a value or a failure; a failure keeps the changes made before it. What
a program does is said by a triple with two outcomes: `Triple P x Q E` says that from a state in `P` the program `x`
ends in a value and a state in `Q`, or fails in a state in `E`. Each construct has its rule; `Triple.bind` is the rule
of sequence, where the failures of both parts are of one kind.
-/

universe u v w

/-- A program on states `σ` that fails with `ε`. -/
def Prog (σ : Type u) (ε : Type v) (α : Type v) : Type (max u v) := σ → Except ε α × σ

namespace Prog

section

variable {σ : Type u} {ε ε' α β : Type v}

instance : Monad (Prog σ ε) where
  pure a := fun s => (.ok a, s)
  bind x f := fun s =>
    match x s with
    | (.ok a, s') => f a s'
    | (.error e, s') => (.error e, s')

def throw (e : ε) : Prog σ ε α := fun s => (.error e, s)

/-- The outcome and the next state, from the state. -/
def act (f : σ → Except ε α × σ) : Prog σ ε α := f

/-- What the state says. -/
def read (f : σ → α) : Prog σ ε α := fun s => (.ok (f s), s)

/-- A result that is there already. -/
def ofExcept : Except ε α → Prog σ ε α
  | .ok a => pure a
  | .error e => throw e

/-- The same program, its failure told otherwise. -/
def mapError (g : ε → ε') (x : Prog σ ε α) : Prog σ ε' α := fun s => ((x s).1.mapError g, (x s).2)

/-- Go on after a failure, with the result at hand. -/
def attempt (x : Prog σ ε α) : Prog σ ε' (Except ε α) := fun s => (.ok (x s).1, (x s).2)

/-- From a state in `P` the program ends in `Q`, or fails in `E`. -/
def Triple (P : σ → Prop) (x : Prog σ ε α) (Q : α → σ → Prop) (E : ε → σ → Prop) : Prop :=
  ∀ s, P s → (∀ a, (x s).1 = .ok a → Q a (x s).2) ∧ ∀ e, (x s).1 = .error e → E e (x s).2

variable {x : Prog σ ε α} {f : α → Prog σ ε β} {P P' : σ → Prop} {Q Q' : α → σ → Prop} {R : β → σ → Prop}
  {E : ε → σ → Prop} {E' : ε' → σ → Prop}

theorem Triple.weaken (h : Triple P x Q E) (hP : ∀ s, P' s → P s) (hQ : ∀ a s, Q a s → Q' a s) : Triple P' x Q' E := by
  intro s hs
  obtain ⟨hok, herr⟩ := h s (hP s hs)
  exact ⟨fun a ha => hQ a _ (hok a ha), herr⟩

theorem Triple.fail {E₂ : ε → σ → Prop} (h : Triple P x Q E) (hE : ∀ e s, E e s → E₂ e s) : Triple P x Q E₂ := by
  intro s hs
  obtain ⟨hok, herr⟩ := h s hs
  exact ⟨hok, fun e he => hE e _ (herr e he)⟩

/-- What the precondition says there is may be taken. -/
theorem Triple.exists_pre {ι : Sort w} {P : ι → σ → Prop} (h : ∀ i, Triple (P i) x Q E) :
    Triple (fun s => ∃ i, P i s) x Q E := by
  rintro s ⟨i, hs⟩
  exact h i s hs

/-- A precondition that says something of no state is a hypothesis. -/
theorem Triple.pre {p : Prop} (h : p → Triple P x Q E) : Triple (fun s => p ∧ P s) x Q E :=
  fun s hs => h hs.1 s hs.2

theorem Triple.pure {a : α} (h : ∀ s, P s → Q a s) : Triple P (Pure.pure a : Prog σ ε α) Q E := by
  intro s hs
  refine ⟨?_, fun e he => (nomatch he)⟩
  intro b hb
  cases hb
  exact h s hs

theorem Triple.throw {e : ε} (h : ∀ s, P s → E e s) : Triple P (Prog.throw e : Prog σ ε α) Q E := by
  intro s hs
  refine ⟨fun b hb => (nomatch hb), ?_⟩
  intro e' he
  cases he
  exact h s hs

theorem Triple.act {g : σ → Except ε α × σ} (hok : ∀ s a s', P s → g s = (.ok a, s') → Q a s')
    (herr : ∀ s e s', P s → g s = (.error e, s') → E e s') : Triple P (Prog.act g) Q E := by
  intro s hs
  show (∀ a, (g s).1 = .ok a → Q a (g s).2) ∧ ∀ e, (g s).1 = .error e → E e (g s).2
  rcases hrun : g s with ⟨r, s'⟩
  refine ⟨?_, ?_⟩
  · rintro a rfl
    exact hok s a s' hs hrun
  · rintro e rfl
    exact herr s e s' hs hrun

theorem Triple.read {g : σ → α} (h : ∀ s, P s → Q (g s) s) : Triple P (Prog.read g : Prog σ ε α) Q E := by
  intro s hs
  refine ⟨?_, fun e he => (nomatch he)⟩
  intro b hb
  cases hb
  exact h s hs

theorem Triple.ofExcept {r : Except ε α} (hok : ∀ a s, r = .ok a → P s → Q a s)
    (herr : ∀ e s, r = .error e → P s → E e s) : Triple P (Prog.ofExcept r) Q E := by
  cases r with
  | ok a => exact Triple.pure fun s hs => hok a s rfl hs
  | error e => exact Triple.throw fun s hs => herr e s rfl hs

theorem Triple.mapError {g : ε → ε'} (h : Triple P x Q fun e s => E' (g e) s) :
    Triple P (Prog.mapError g x) Q E' := by
  intro s hs
  obtain ⟨hok, herr⟩ := h s hs
  show (∀ a, (x s).1.mapError g = .ok a → Q a (x s).2) ∧ ∀ e, (x s).1.mapError g = .error e → E' e (x s).2
  cases hr : (x s).1 with
  | ok a =>
      refine ⟨?_, fun e he => (nomatch he)⟩
      rintro b ⟨⟩
      exact hok a hr
  | error e =>
      refine ⟨fun b hb => (nomatch hb), ?_⟩
      rintro e' ⟨⟩
      exact herr e hr

theorem Triple.attempt {Q : Except ε α → σ → Prop} (h : Triple P x (fun a s => Q (.ok a) s) fun e s => Q (.error e) s) :
    Triple P (Prog.attempt x : Prog σ ε' (Except ε α)) Q E' := by
  intro s hs
  obtain ⟨hok, herr⟩ := h s hs
  refine ⟨?_, fun e he => (nomatch he)⟩
  intro r hr
  cases hr
  show Q (x s).1 (x s).2
  cases hx : (x s).1 with
  | ok a => exact hok a hx
  | error e => exact herr e hx

theorem bind_run (s : σ) : (x >>= f) s =
    match x s with
    | (.ok a, s') => f a s'
    | (.error e, s') => (.error e, s') := rfl

theorem run_bind_ok {s s' : σ} {a : α} (h : x s = (.ok a, s')) : (x >>= f) s = f a s' := by
  rw [bind_run, h]

theorem run_bind_error {s s' : σ} {e : ε} (h : x s = (.error e, s')) : (x >>= f) s = (.error e, s') := by
  rw [bind_run, h]

/-- **One after the other.** -/
theorem Triple.bind (hx : Triple P x Q E) (hf : ∀ a, Triple (Q a) (f a) R E) : Triple P (x >>= f) R E := by
  intro s hs
  obtain ⟨hok, herr⟩ := hx s hs
  rw [bind_run]
  rcases hrun : x s with ⟨r, s'⟩
  rw [hrun] at hok herr
  cases r with
  | ok a => exact hf a s' (hok a rfl)
  | error e =>
      refine ⟨fun b hb => (nomatch hb), ?_⟩
      rintro e' ⟨⟩
      exact herr e rfl

/-! ## What a program does to the state, whatever its outcome -/

/-- Every run goes from a state to one that `R` relates to it. -/
def Moves (R : σ → σ → Prop) (x : Prog σ ε α) : Prop := ∀ s, R s (x s).2

section

variable {S : σ → σ → Prop}

theorem Moves.mono {S' : σ → σ → Prop} (h : Moves S x) (hS : ∀ s s', S s s' → S' s s') : Moves S' x :=
  fun s => hS _ _ (h s)

theorem Moves.pure (hrefl : ∀ s, S s s) (a : α) : Moves S (Pure.pure a : Prog σ ε α) := hrefl

theorem Moves.throw (hrefl : ∀ s, S s s) (e : ε) : Moves S (Prog.throw e : Prog σ ε α) := hrefl

theorem Moves.read (hrefl : ∀ s, S s s) (g : σ → α) : Moves S (Prog.read g : Prog σ ε α) := hrefl

theorem Moves.ofExcept (hrefl : ∀ s, S s s) (r : Except ε α) : Moves S (Prog.ofExcept r) := by
  cases r with
  | ok a => exact Moves.pure hrefl a
  | error e => exact Moves.throw hrefl e

theorem Moves.mapError {g : ε → ε'} (h : Moves S x) : Moves S (Prog.mapError g x) := h

theorem Moves.attempt (h : Moves S x) : Moves S (Prog.attempt x : Prog σ ε' (Except ε α)) := h

theorem Moves.bind (htrans : ∀ s t u, S s t → S t u → S s u) (hx : Moves S x) (hf : ∀ a, Moves S (f a)) :
    Moves S (x >>= f) := by
  intro s
  have hfirst := hx s
  rw [bind_run]
  rcases hrun : x s with ⟨r, s'⟩
  rw [hrun] at hfirst
  cases r with
  | ok a => exact htrans _ _ _ hfirst (hf a s')
  | error e => exact hfirst

end

/-- What every step keeps, the program keeps. -/
theorem Moves.triple {S : σ → σ → Prop} (h : Moves S x) (hkeep : ∀ s s', P s → S s s' → P s') :
    Triple P x (fun _ => P) fun _ => P :=
  fun s hs => ⟨fun _ _ => hkeep s _ hs (h s), fun _ _ => hkeep s _ hs (h s)⟩

/-- A sequence fails in its first part, or in its second. -/
theorem bind_error {s s' : σ} {e : ε} (h : (x >>= f) s = (.error e, s')) :
    x s = (.error e, s') ∨ ∃ a t, x s = (.ok a, t) ∧ f a t = (.error e, s') := by
  rw [bind_run] at h
  rcases hrun : x s with ⟨r, t⟩
  rw [hrun] at h
  cases r with
  | ok a => exact .inr ⟨a, t, rfl, h⟩
  | error e' =>
      obtain ⟨herr, rfl⟩ := Prod.mk.inj h
      cases herr
      exact .inl rfl

/-- A sequence succeeds when both parts do. -/
theorem bind_ok {s s' : σ} {b : β} (h : (x >>= f) s = (.ok b, s')) :
    ∃ a t, x s = (.ok a, t) ∧ f a t = (.ok b, s') := by
  rw [bind_run] at h
  rcases hrun : x s with ⟨r, t⟩
  rw [hrun] at h
  cases r with
  | ok a => exact ⟨a, t, rfl, h⟩
  | error e' => cases h

/-- What an attempt gives is what the program ended in. -/
theorem attempt_ok {s s' : σ} {r : Except ε α} (h : (attempt x : Prog σ ε' (Except ε α)) s = (.ok r, s')) :
    x s = (r, s') := by
  obtain ⟨hr, rfl⟩ := Prod.mk.inj h
  exact Prod.ext (Except.ok.inj hr) rfl

theorem mapError_ok {g : ε → ε'} {s s' : σ} {a : α} (h : mapError g x s = (.ok a, s')) : x s = (.ok a, s') := by
  obtain ⟨hr, rfl⟩ := Prod.mk.inj h
  cases hx : (x s).1 with
  | ok b =>
      rw [hx] at hr
      cases hr
      exact Prod.ext hx rfl
  | error e =>
      rw [hx] at hr
      cases hr

theorem mapError_error {g : ε → ε'} {s s' : σ} {e' : ε'} (h : mapError g x s = (.error e', s')) :
    ∃ e, e' = g e ∧ x s = (.error e, s') := by
  obtain ⟨hr, rfl⟩ := Prod.mk.inj h
  cases hx : (x s).1 with
  | ok b =>
      rw [hx] at hr
      cases hr
  | error e =>
      rw [hx] at hr
      cases hr
      exact ⟨e, rfl, Prod.ext hx rfl⟩

theorem ofExcept_ok {r : Except ε α} {s s' : σ} {a : α} (h : (ofExcept r : Prog σ ε α) s = (.ok a, s')) :
    r = .ok a ∧ s = s' := by
  cases r with
  | ok b =>
      cases h
      exact ⟨rfl, rfl⟩
  | error e => cases h

theorem read_ok {g : σ → α} {s s' : σ} {a : α} (h : (read g : Prog σ ε α) s = (.ok a, s')) : g s = a ∧ s = s' := by
  obtain ⟨hr, rfl⟩ := Prod.mk.inj h
  exact ⟨Except.ok.inj hr, rfl⟩

end

end Prog
