import Mathlib

/-!
# `Lib.Handoff` — one value handed to someone who may stop waiting

A waiter puts an entry into a queue and listens to a slot of its own. A giver takes the entry out and leaves a value
in the slot, if the waiter still listens. The waiter ends by reading the value, or gives up.

`Step` is everything that may happen, seen from one waiter. `Sound` is its invariant: whoever is queued and still
listens is waiting. What was handed over is kept until the waiter ends (`Handed.step`), unless it gives up.
-/

namespace Handoff

variable {α ρ : Type}

/-- Where the waiter is. -/
inductive Stage (ρ : Type) where
  | early
  | waiting
  | ended (r : ρ)
deriving DecidableEq

structure State (α ρ : Type) where
  stage : Stage ρ
  /-- What the slot holds. -/
  value : Option α
  /-- The waiter's end of the slot is there. -/
  listening : Bool
  queued : Bool

/-- The state after the entry is taken out and `o` is sent. -/
def State.give (s : State α ρ) (o : α) : State α ρ :=
  { s with queued := false, value := if s.listening then some o else s.value }

/-- Everything that may happen. `read` is how a waiter ends that finds a value; `Quit` says that it gives up now. -/
inductive Step (read : α → ρ) (Quit : Prop) (s : State α ρ) : State α ρ → Prop where
  /-- Nothing, or the entry is removed. -/
  | stays {b : Bool} (still : b = true → s.queued = true) : Step read Quit s { s with queued := b }
  /-- The waiter ends before it waits. -/
  | refused {r : ρ} (early : s.stage = .early) : Step read Quit s { s with stage := .ended r }
  | enters (early : s.stage = .early) : Step read Quit s { s with stage := .waiting, queued := true }
  | given {o : α} (queued : s.queued = true) : Step read Quit s (s.give o)
  | reads {o : α} (waiting : s.stage = .waiting) (value : s.value = some o) :
      Step read Quit s { s with stage := .ended (read o), listening := false }
  | quits {r : ρ} (waiting : s.stage = .waiting) (why : s.value = none ∨ Quit) :
      Step read Quit s { s with stage := .ended r, listening := false }

variable {read : α → ρ} {Quit : Prop} {s s' : State α ρ} {o : α} {r : ρ}

/-- The step in which nothing happens. -/
theorem Step.refl (s : State α ρ) : Step read Quit s s := .stays id

/-- Nothing happens but that the entry may be removed. -/
theorem Step.of_same (stage : s'.stage = s.stage) (value : s'.value = s.value) (listening : s'.listening = s.listening)
    (queued : s'.queued = true → s.queued = true) : Step read Quit s s' := by
  have heq : s' = { s with queued := s'.queued } := by
    rw [← stage, ← value, ← listening]
  rw [heq]
  exact .stays queued

/-! ## The invariant -/

structure Sound (s : State α ρ) : Prop where
  early : s.stage = .early → s.listening = true ∧ s.value = none ∧ s.queued = false
  waiting : s.stage = .waiting → s.listening = true
  queued : s.queued = true → s.value = none ∧ (s.listening = true → s.stage = .waiting)

theorem Sound.step (h : Sound s) (hstep : Step read Quit s s') : Sound s' := by
  cases hstep with
  | @stays b still =>
      refine ⟨fun hearly => ?_, h.waiting, fun hqueued => h.queued (still hqueued)⟩
      obtain ⟨hlistening, hvalue, hqueued⟩ := h.early hearly
      refine ⟨hlistening, hvalue, ?_⟩
      cases b with
      | false => rfl
      | true => exact absurd (still rfl) (by rw [hqueued]; decide)
  | refused early =>
      obtain ⟨-, -, hqueued⟩ := h.early early
      refine ⟨nofun, nofun, fun hq => ?_⟩
      exact absurd hq (by rw [hqueued]; decide)
  | enters early =>
      obtain ⟨hlistening, hvalue, -⟩ := h.early early
      exact ⟨nofun, fun _ => hlistening, fun _ => ⟨hvalue, fun _ => rfl⟩⟩
  | given queued =>
      refine ⟨fun hearly => ?_, h.waiting, nofun⟩
      obtain ⟨-, -, hnot⟩ := h.early hearly
      exact absurd queued (by rw [hnot]; decide)
  | reads waiting value =>
      refine ⟨nofun, nofun, fun hqueued => ?_⟩
      -- a queued waiter has nothing to read
      have hnone := (h.queued hqueued).1
      exact absurd (value.symm.trans hnone) nofun
  | quits waiting why => exact ⟨nofun, nofun, fun hqueued => ⟨(h.queued hqueued).1, nofun⟩⟩

/-! ## What was handed over -/

/-- The waiter has `o`: it is in its slot, or the waiter ended by reading it. -/
def Received (read : α → ρ) (s : State α ρ) (o : α) : Prop :=
  (s.stage = .waiting ∧ s.value = some o) ∨ s.stage = .ended (read o)

/-- `o` was received, and nothing else will be sent. -/
structure Handed (read : α → ρ) (s : State α ρ) (o : α) : Prop where
  received : Received read s o
  taken : s.queued = false

/-- A waiting waiter is handed what is sent to it. -/
theorem Sound.give (h : Sound s) (hwaiting : s.stage = .waiting) : Handed read (s.give o) o := by
  refine ⟨.inl ⟨hwaiting, ?_⟩, rfl⟩
  show (if s.listening then some o else s.value) = some o
  rw [h.waiting hwaiting, if_pos rfl]

/-- **What was handed over stays with the waiter**, unless it gives up while it waits. -/
theorem Handed.step (h : Handed read s o) (hstep : Step read Quit s s')
    (hstays : Quit → s.stage ≠ .waiting) : Handed read s' o := by
  obtain ⟨hreceived, htaken⟩ := h
  cases hstep with
  | @stays b still =>
      refine ⟨hreceived, ?_⟩
      cases b with
      | false => rfl
      | true => exact absurd (still rfl) (by rw [htaken]; decide)
  | refused early =>
      rcases hreceived with ⟨hwaiting, -⟩ | hended
      · exact absurd (early.symm.trans hwaiting) nofun
      · exact absurd (early.symm.trans hended) nofun
  | enters early =>
      rcases hreceived with ⟨hwaiting, -⟩ | hended
      · exact absurd (early.symm.trans hwaiting) nofun
      · exact absurd (early.symm.trans hended) nofun
  | given queued => exact absurd queued (by rw [htaken]; decide)
  | reads waiting value =>
      rcases hreceived with ⟨-, hvalue⟩ | hended
      · rw [Option.some.inj (value.symm.trans hvalue)]
        exact ⟨.inr rfl, htaken⟩
      · exact absurd (waiting.symm.trans hended) nofun
  | quits waiting why =>
      rcases hreceived with ⟨-, hvalue⟩ | hended
      · rcases why with hnone | hquit
        · exact absurd (hvalue.symm.trans hnone) nofun
        · exact absurd waiting (hstays hquit)
      · exact absurd (waiting.symm.trans hended) nofun

/-- Whoever has ended stays as it ended. -/
theorem Step.ended (hstep : Step read Quit s s') (h : s.stage = .ended r) : s'.stage = .ended r := by
  cases hstep with
  | stays _ => exact h
  | refused early => exact absurd (early.symm.trans h) nofun
  | enters early => exact absurd (early.symm.trans h) nofun
  | given _ => exact h
  | reads waiting _ => exact absurd (waiting.symm.trans h) nofun
  | quits waiting _ => exact absurd (waiting.symm.trans h) nofun

end Handoff
