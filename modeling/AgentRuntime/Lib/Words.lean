import Mathlib

/-!
# `Lib.Words` — fixed-width unsigned integers as naturals

Unsigned machine integers are modelled as `ℕ`; this module has what the width adds: checked addition,
wrapping subtraction, and the big-endian bytes of a value, which determine it within its width
(`beBytes_inj`).
-/

namespace Words

/-- `2^64`, one past the largest 64-bit value. -/
abbrev u64Bound : ℕ := 2 ^ 64

/-- `2^32`, one past the largest 32-bit value. -/
abbrev u32Bound : ℕ := 2 ^ 32

/-- `isize::MAX`, the most bytes an allocation holds on a machine of 64 bits. -/
def isizeMax : ℕ := 2 ^ 63 - 1

/-- Addition below `bound`; `none` on overflow. -/
def checkedAdd (bound a b : ℕ) : Option ℕ := if a + b < bound then some (a + b) else none

/-- Subtraction modulo `bound`, for operands below it. -/
def wrappingSub (bound a b : ℕ) : ℕ := (a + (bound - b)) % bound

theorem checkedAdd_eq_some {bound a b c : ℕ} :
    checkedAdd bound a b = some c ↔ c = a + b ∧ a + b < bound := by
  unfold checkedAdd
  constructor
  · intro h
    split at h
    · rename_i hlt
      exact ⟨(Option.some.inj h).symm, hlt⟩
    · cases h
  · rintro ⟨rfl, hlt⟩
    rw [if_pos hlt]

theorem wrappingSub_of_le {bound a b : ℕ} (hb : b ≤ a) (ha : a < bound) :
    wrappingSub bound a b = a - b := by
  unfold wrappingSub
  have hsum : a + (bound - b) = (a - b) + bound := by omega
  rw [hsum, Nat.add_mod_right, Nat.mod_eq_of_lt (by omega)]

/-- Big-endian bytes of `x`, exactly `n` of them (the high bytes are dropped). -/
def beBytes : ℕ → ℕ → List UInt8
  | 0, _ => []
  | n + 1, x => UInt8.ofNat (x / 256 ^ n) :: beBytes n x

@[simp] theorem length_beBytes (n x : ℕ) : (beBytes n x).length = n := by
  induction n with
  | zero => rfl
  | succ n ih => rw [beBytes, List.length_cons, ih]

/-- `n` bytes determine a value modulo `256 ^ n`. -/
theorem mod_eq_of_beBytes {n x y : ℕ} (h : beBytes n x = beBytes n y) :
    x % 256 ^ n = y % 256 ^ n := by
  induction n with
  | zero => simp [Nat.mod_one]
  | succ n ih =>
      obtain ⟨hhead, htail⟩ := List.cons.inj h
      have hbyte : x / 256 ^ n % 256 = y / 256 ^ n % 256 := by
        have := congrArg UInt8.toNat hhead
        simpa using this
      rw [Nat.mod_pow_succ, Nat.mod_pow_succ, ih htail, hbyte]

theorem beBytes_add (m n x : ℕ) : beBytes (m + n) x = beBytes m (x / 256 ^ n) ++ beBytes n x := by
  induction m with
  | zero => rw [Nat.zero_add, beBytes, List.nil_append]
  | succ m ih =>
      rw [Nat.add_right_comm, beBytes, ih, beBytes, List.cons_append, Nat.div_div_eq_div_mul, ← Nat.pow_add,
        Nat.add_comm n m]

theorem beBytes_zero (n : ℕ) : beBytes n 0 = List.replicate n 0 := by
  induction n with
  | zero => rfl
  | succ n ih =>
      rw [beBytes, ih, List.replicate_succ, Nat.zero_div]
      rfl

theorem beBytes_inj {n x y : ℕ} (hx : x < 256 ^ n) (hy : y < 256 ^ n)
    (h : beBytes n x = beBytes n y) : x = y := by
  have := mod_eq_of_beBytes h
  rwa [Nat.mod_eq_of_lt hx, Nat.mod_eq_of_lt hy] at this

end Words
