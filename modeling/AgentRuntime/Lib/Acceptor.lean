import Mathlib

/-!
# `Lib.Acceptor` — deterministic acceptors over lists

An acceptor reads a list from the left: each element must be admitted by the current state, and moves
it. A program that replays a list with a fallible step (`foldlM` in `Except`) is an acceptor as soon as
one step is (`foldlM_eq_ok_iff`), so a loop over records is reasoned about through `Accepts` and
`afterAll` alone.
-/

variable {σ τ α ε : Type}

/-! ## Fallible computations -/

/-- A sequence succeeds when both parts do. -/
theorem Except.bind_eq_ok {β γ : Type} {x : Except ε β} {f : β → Except ε γ} {c : γ} :
    x >>= f = .ok c ↔ ∃ b, x = .ok b ∧ f b = .ok c := by
  cases x with
  | error e =>
      constructor
      · intro h
        cases h
      · rintro ⟨b, hb, -⟩
        cases hb
  | ok b =>
      constructor
      · intro h
        exact ⟨b, rfl, h⟩
      · rintro ⟨b', hb, h⟩
        rw [Except.ok.inj hb]
        exact h

/-- A sequence fails when its first part does, or its second part after it. -/
theorem Except.bind_eq_error {β γ : Type} {x : Except ε β} {f : β → Except ε γ} {e : ε} :
    (x >>= f) = .error e ↔ x = .error e ∨ ∃ b, x = .ok b ∧ f b = .error e := by
  cases x with
  | error e' =>
      constructor
      · intro h
        cases h
        exact .inl rfl
      · rintro (h | ⟨b, hb, -⟩)
        · cases h
          rfl
        · cases hb
  | ok b =>
      constructor
      · exact fun h => .inr ⟨b, rfl, h⟩
      · rintro (h | ⟨b', hb, h⟩)
        · cases h
        · rw [Except.ok.inj hb]
          exact h

/-- What one fallible step keeps, a fold that succeeds keeps. -/
theorem Except.foldlM_invariant {f : σ → α → Except ε σ} {motive : σ → Prop}
    (hstep : ∀ s a s', motive s → f s a = .ok s' → motive s') {as : List α} {s s' : σ} (hs : motive s)
    (h : as.foldlM f s = .ok s') : motive s' := by
  induction as generalizing s with
  | nil =>
      cases h
      exact hs
  | cons a as ih =>
      rw [List.foldlM_cons] at h
      obtain ⟨s₁, hfirst, h⟩ := Except.bind_eq_ok.mp h
      exact ih (hstep s a s₁ hs hfirst) h

/-- Reading fallible items one by one: the fold goes through when every item does, and the step on each. -/
theorem Except.foldlM_items {f : σ → α → Except ε σ} {items : List (Except ε α)} {s s' : σ} :
    items.foldlM (fun s item => item >>= f s) s = .ok s' ↔
      ∃ as : List α, items = as.map .ok ∧ as.foldlM f s = .ok s' := by
  induction items generalizing s with
  | nil =>
      constructor
      · intro h
        exact ⟨[], rfl, h⟩
      · rintro ⟨as, has, h⟩
        rw [List.map_eq_nil_iff.mp has.symm] at h
        exact h
  | cons item items ih =>
      rw [List.foldlM_cons]
      constructor
      · intro h
        obtain ⟨s₁, hfirst, hrest⟩ := Except.bind_eq_ok.mp h
        obtain ⟨a, rfl, hstep⟩ := Except.bind_eq_ok.mp hfirst
        obtain ⟨as, rfl, has⟩ := ih.mp hrest
        refine ⟨a :: as, rfl, ?_⟩
        rw [List.foldlM_cons]
        exact Except.bind_eq_ok.mpr ⟨s₁, hstep, has⟩
      · rintro ⟨as, has, h⟩
        cases as with
        | nil => cases has
        | cons a as =>
            obtain ⟨rfl, rfl⟩ := List.cons.inj has
            rw [List.foldlM_cons] at h
            obtain ⟨s₁, hstep, h⟩ := Except.bind_eq_ok.mp h
            exact Except.bind_eq_ok.mpr ⟨s₁, hstep, ih.mpr ⟨as, rfl, h⟩⟩

/-! ## Acceptors -/

/-- What a state admits, and where an admitted element leads. -/
structure Acceptor (σ α : Type) where
  admits : σ → α → Prop
  after : σ → α → σ

namespace Acceptor

variable (A : Acceptor σ α)

/-- Every element is admitted where it is read. -/
def Accepts : σ → List α → Prop
  | _, [] => True
  | s, a :: rest => A.admits s a ∧ Accepts (A.after s a) rest

/-- The state after a whole list. -/
def afterAll (s : σ) (as : List α) : σ := as.foldl A.after s

@[simp] theorem accepts_nil (s : σ) : A.Accepts s [] := trivial

@[simp] theorem accepts_cons {s : σ} {a : α} {as : List α} :
    A.Accepts s (a :: as) ↔ A.admits s a ∧ A.Accepts (A.after s a) as := Iff.rfl

@[simp] theorem afterAll_nil (s : σ) : A.afterAll s [] = s := rfl

@[simp] theorem afterAll_cons (s : σ) (a : α) (as : List α) :
    A.afterAll s (a :: as) = A.afterAll (A.after s a) as := rfl

theorem afterAll_append (s : σ) (as bs : List α) :
    A.afterAll s (as ++ bs) = A.afterAll (A.afterAll s as) bs := List.foldl_append

@[simp] theorem afterAll_concat (s : σ) (as : List α) (a : α) :
    A.afterAll s (as ++ [a]) = A.after (A.afterAll s as) a := A.afterAll_append s as [a]

theorem accepts_append {s : σ} {as bs : List α} :
    A.Accepts s (as ++ bs) ↔ A.Accepts s as ∧ A.Accepts (A.afterAll s as) bs := by
  induction as generalizing s with
  | nil => simp
  | cons a as ih => simp [ih, and_assoc]

theorem accepts_concat {s : σ} {as : List α} {a : α} :
    A.Accepts s (as ++ [a]) ↔ A.Accepts s as ∧ A.admits (A.afterAll s as) a := by
  rw [accepts_append, accepts_cons]
  exact ⟨fun h => ⟨h.1, h.2.1⟩, fun h => ⟨h.1, h.2, trivial⟩⟩

variable {A}

theorem Accepts.left {s : σ} {as bs : List α} (h : A.Accepts s (as ++ bs)) : A.Accepts s as :=
  (A.accepts_append.mp h).1

theorem Accepts.right {s : σ} {as bs : List α} (h : A.Accepts s (as ++ bs)) :
    A.Accepts (A.afterAll s as) bs :=
  (A.accepts_append.mp h).2

theorem Accepts.of_prefix {s : σ} {as bs : List α} (h : A.Accepts s bs) (hp : as <+: bs) :
    A.Accepts s as := by
  obtain ⟨cs, rfl⟩ := hp
  exact h.left

/-- **Replaying with a fallible step.** When one step succeeds exactly on admitted elements, and then
    pushes them, so does the whole fold. -/
theorem foldlM_eq_ok_iff {f : τ → α → Except ε τ} {view : τ → σ} {push : τ → α → τ}
    (hview : ∀ t a, view (push t a) = A.after (view t) a)
    (hf : ∀ t a t', f t a = .ok t' ↔ A.admits (view t) a ∧ t' = push t a)
    {t t' : τ} {as : List α} :
    as.foldlM f t = .ok t' ↔ A.Accepts (view t) as ∧ t' = as.foldl push t := by
  induction as generalizing t with
  | nil =>
      rw [List.foldlM_nil, List.foldl_nil]
      constructor
      · intro h
        exact ⟨trivial, (Except.ok.inj h).symm⟩
      · rintro ⟨-, rfl⟩
        rfl
  | cons a as ih =>
      rw [List.foldlM_cons, List.foldl_cons, accepts_cons, ← hview]
      cases hstep : f t a with
      | error e =>
          constructor
          · intro h
            cases h
          · rintro ⟨⟨hadm, -⟩, -⟩
            rw [(hf t a _).mpr ⟨hadm, rfl⟩] at hstep
            cases hstep
      | ok u =>
          obtain ⟨hadm, rfl⟩ := (hf t a u).mp hstep
          constructor
          · intro h
            obtain ⟨hacc, ht⟩ := ih.mp h
            exact ⟨⟨hadm, hacc⟩, ht⟩
          · rintro ⟨⟨-, hacc⟩, ht⟩
            exact ih.mpr ⟨hacc, ht⟩

/-- A state after a pushed list is the view of the pushed state. -/
theorem view_foldl {view : τ → σ} {push : τ → α → τ}
    (hview : ∀ t a, view (push t a) = A.after (view t) a) (t : τ) (as : List α) :
    view (as.foldl push t) = A.afterAll (view t) as := by
  induction as generalizing t with
  | nil => rfl
  | cons a as ih => rw [List.foldl_cons, ih, hview, afterAll_cons]

end Acceptor
