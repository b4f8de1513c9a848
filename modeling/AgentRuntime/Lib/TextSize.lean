import Mathlib

/-!
# `Lib.TextSize` — texts and their sizes

The size of a text is what it takes in UTF-8. A text is cut at a character, decimal numbers and quoted texts have a
bounded size.
-/

namespace Text

/-- Unicode's category `Cc`. -/
def isControl (c : Char) : Bool := c.toNat < 0x20 || (0x7f ≤ c.toNat && c.toNat < 0xa0)

def size (s : List Char) : ℕ := (s.map Char.utf8Size).sum

@[simp] theorem size_nil : size [] = 0 := rfl

@[simp] theorem size_cons (c : Char) (s : List Char) : size (c :: s) = c.utf8Size + size s := by
  simp [size]

@[simp] theorem size_append (s t : List Char) : size (s ++ t) = size s + size t := by
  simp [size]

theorem utf8ByteSize_ofList (s : List Char) : (String.ofList s).utf8ByteSize = size s := by
  induction s with
  | nil => rfl
  | cons c s ih =>
      rw [size_cons, ← ih, String.ofList_cons, String.utf8ByteSize_append, String.utf8ByteSize_singleton]

theorem size_toList (s : String) : size s.toList = s.utf8ByteSize := by
  rw [← utf8ByteSize_ofList, String.ofList_toList]

theorem size_le_of_sublist {s t : List Char} (h : s.Sublist t) : size s ≤ size t :=
  (h.map Char.utf8Size).sum_le_sum fun _ _ => Nat.zero_le _

theorem size_le_four_mul (s : List Char) : size s ≤ 4 * s.length := by
  induction s with
  | nil => exact Nat.zero_le _
  | cons c s ih =>
      have hc := c.utf8Size_le_four
      rw [size_cons, List.length_cons]
      omega

/-! ## Cutting -/

/-- The longest beginning of at most `max` bytes. -/
def cut : ℕ → List Char → List Char
  | _, [] => []
  | max, c :: s => if c.utf8Size ≤ max then c :: cut (max - c.utf8Size) s else []

theorem size_cut_le (max : ℕ) (s : List Char) : size (cut max s) ≤ max := by
  induction s generalizing max with
  | nil => exact Nat.zero_le _
  | cons c s ih =>
      unfold cut
      split
      · have hrest := ih (max - c.utf8Size)
        rw [size_cons]
        omega
      · exact Nat.zero_le _

theorem cut_of_size_le {max : ℕ} {s : List Char} (h : size s ≤ max) : cut max s = s := by
  induction s generalizing max with
  | nil => rfl
  | cons c s ih =>
      rw [size_cons] at h
      rw [cut, if_pos (by omega), ih (by omega)]

/-! ## Numbers -/

theorem utf8Size_digitChar (n : ℕ) : n.digitChar.utf8Size = 1 := by
  match n with
  | 0 | 1 | 2 | 3 | 4 | 5 | 6 | 7 | 8 | 9 | 10 | 11 | 12 | 13 | 14 | 15 => decide
  | n + 16 => rw [Nat.digitChar_eq_star.mpr (by omega)]; decide

/-- Digits take a byte each. -/
theorem size_toDigits {b : ℕ} (hb : 1 < b) (n : ℕ) : size (Nat.toDigits b n) = (Nat.toDigits b n).length := by
  induction n using Nat.strong_induction_on with
  | _ n ih =>
      rw [Nat.toDigits_eq_if hb]
      split
      · simp [utf8Size_digitChar]
      · rename_i hn
        have hlt : n / b < n := Nat.div_lt_self (by omega) hb
        simp [utf8Size_digitChar, ih _ hlt]

theorem utf8ByteSize_repr_le {n k : ℕ} (hk : 0 < k) (h : n < 10 ^ k) : (toString n).utf8ByteSize ≤ k := by
  rw [Nat.toString_eq_repr, ← size_toList, Nat.toList_repr, size_toDigits (by decide)]
  exact (Nat.length_toDigits_le_iff (by decide) hk).mpr h

/-- A number of 64 bits. -/
theorem utf8ByteSize_u64_le (n : UInt64) : (toString n).utf8ByteSize ≤ 20 :=
  utf8ByteSize_repr_le (by decide) (n.toNat_lt.trans (by decide))

/-! ## Quoted texts -/

/-- The unescaped or escaped form of a character in `{:?}`; `table` has the characters that are not printed. -/
def escapeDebug (table : Char → Bool) (c : Char) : List Char :=
  if c = '\x00' then ['\\', '0']
  else if c = '\t' then ['\\', 't']
  else if c = '\r' then ['\\', 'r']
  else if c = '\n' then ['\\', 'n']
  else if c = '\\' ∨ c = '"' then ['\\', c]
  else if table c then ['\\', 'u', '\x7b'] ++ Nat.toDigits 16 c.toNat ++ ['\x7d']
  else [c]

/-- `format!("{:?}", s)` of a text. -/
def strDebug (table : Char → Bool) (s : String) : String :=
  String.ofList (['"'] ++ s.toList.flatMap (escapeDebug table) ++ ['"'])

theorem toNat_lt_unicode (c : Char) : c.toNat < 0x110000 := by
  rcases c.valid with h | ⟨-, h⟩
  · exact h.trans (by decide)
  · exact h

theorem size_escapeDebug_le (table : Char → Bool) (c : Char) : size (escapeDebug table c) ≤ 10 := by
  have hchar := c.utf8Size_le_four
  have hslash : '\\'.utf8Size = 1 := by decide
  unfold escapeDebug
  split_ifs with h0 ht hr hn hescaped htable
  · decide
  · decide
  · decide
  · decide
  · rw [size_cons, size_cons, size_nil]
    omega
  · have hlen : (Nat.toDigits 16 c.toNat).length ≤ 6 :=
      (Nat.length_toDigits_le_iff (by decide) (by decide)).mpr ((toNat_lt_unicode c).trans (by decide))
    have hopen : size ['\\', 'u', '\x7b'] = 3 := by decide
    have hclose : size ['\x7d'] = 1 := by decide
    rw [size_append, size_append, size_toDigits (by decide), hopen, hclose]
    omega
  · rw [size_cons, size_nil]
    omega

theorem utf8ByteSize_strDebug_le (table : Char → Bool) (s : String) :
    (strDebug table s).utf8ByteSize ≤ 2 + 10 * s.toList.length := by
  have hbody (cs : List Char) : size (cs.flatMap (escapeDebug table)) ≤ 10 * cs.length := by
    induction cs with
    | nil => exact Nat.zero_le _
    | cons c cs ih =>
        have hc := size_escapeDebug_le table c
        rw [List.flatMap_cons, size_append, List.length_cons]
        omega
  have hs := hbody s.toList
  have hquote : size ['"'] = 1 := by decide
  rw [strDebug, utf8ByteSize_ofList, size_append, size_append, hquote]
  omega

end Text
