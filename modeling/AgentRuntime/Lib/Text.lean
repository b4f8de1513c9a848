import Mathlib

/-!
# `Lib.Text` — searching and cutting texts, as lists of characters

The standard library's string operations where a text is cut at characters: the first and the last occurrence of a
text in another, a start taken off, white space taken off, and the lines of a text.
-/

namespace Text

/-- White space of Unicode. -/
def isWhitespace (c : Char) : Bool :=
  let n := c.toNat
  (9 ≤ n && n ≤ 13) || n = 32 || n = 0x85 || n = 0xA0 || n = 0x1680 || (0x2000 ≤ n && n ≤ 0x200A) ||
    n = 0x2028 || n = 0x2029 || n = 0x202F || n = 0x205F || n = 0x3000

/-- White space is taken off both ends. -/
def trim (s : List Char) : List Char := (s.dropWhile isWhitespace).rdropWhile isWhitespace

/-- The rest of `s` when it starts with `start`. -/
def strip (start : List Char) (s : List Char) : Option (List Char) :=
  if start.isPrefixOf s then some (s.drop start.length) else none

/-- `s` cut at the first occurrence of `pat`, which begins the second part. -/
def breakOn (pat : List Char) : List Char → Option (List Char × List Char)
  | [] => if pat = [] then some ([], []) else none
  | c :: s =>
      if pat.isPrefixOf (c :: s) then some ([], c :: s)
      else (breakOn pat s).map fun (before, found) => (c :: before, found)

/-- `s` cut at the last occurrence of `pat`, which begins the second part. -/
def breakOnLast (pat : List Char) : List Char → Option (List Char × List Char)
  | [] => if pat = [] then some ([], []) else none
  | c :: s =>
      match breakOnLast pat s with
      | some (before, found) => some (c :: before, found)
      | none => if pat.isPrefixOf (c :: s) then some ([], c :: s) else none

/-- The lines of a text. A line feed ends a line, with the carriage return before it; what follows the last one is a
    line when there is anything. -/
def lines (s : List Char) : List (List Char) :=
  let cut := s.splitOn '\n'
  let ended := cut.dropLast.map fun line => if line.getLast? = some '\r' then line.dropLast else line
  ended ++ (cut.getLast?.filter fun line => !line.isEmpty).toList

/-- The lines of a list, where `feed` ends a line with a `ret` before it. -/
def linesBy {α : Type} [DecidableEq α] (feed ret : α) (s : List α) : List (List α) :=
  let cut := s.splitOn feed
  let ended := cut.dropLast.map fun line => if line.getLast? = some ret then line.dropLast else line
  ended ++ (cut.getLast?.filter fun line => !line.isEmpty).toList

theorem lines_eq_linesBy (s : List Char) : lines s = linesBy '\n' '\r' s := rfl

/-- The digits of the first number in `s`. -/
def firstDigits (s : List Char) : List Char := (s.dropWhile fun c => !c.isDigit).takeWhile Char.isDigit

/-- The value of decimal digits. -/
def decimalValue (digits : List Char) : ℕ := digits.foldl (fun n c => 10 * n + (c.toNat - 48)) 0

/-- `u64::from_str`. -/
def parseU64 (s : List Char) : Option ℕ :=
  let digits := (strip ['+'] s).getD s
  if digits ≠ [] ∧ digits.all Char.isDigit = true ∧ decimalValue digits < 2 ^ 64 then some (decimalValue digits)
  else none

theorem decimalValue_toDigits (n : ℕ) : decimalValue (Nat.toDigits 10 n) = n := by
  induction n using Nat.strong_induction_on with
  | _ n ih =>
      rw [Nat.toDigits_eq_if (by decide)]
      split
      · rename_i hn
        have hc : n.digitChar.toNat = 48 + n := Nat.toNat_digitChar_of_lt_ten hn
        rw [decimalValue, List.foldl_cons, List.foldl_nil, hc]
        omega
      · have hmod : n % 10 < 10 := Nat.mod_lt n (by decide)
        have hc : (n % 10).digitChar.toNat = 48 + n % 10 := Nat.toNat_digitChar_of_lt_ten hmod
        have hrest := ih (n / 10) (by omega)
        unfold decimalValue at hrest ⊢
        rw [List.foldl_append, hrest, List.foldl_cons, List.foldl_nil, hc]
        omega

/-- A number of 64 bits is read back from its digits. -/
theorem parseU64_toDigits {n : ℕ} (h : n < 2 ^ 64) : parseU64 (Nat.toDigits 10 n) = some n := by
  have hdigits : ∀ c ∈ Nat.toDigits 10 n, c.isDigit = true := fun c hc =>
    Nat.isDigit_of_mem_toDigits (by decide) (by decide) hc
  have hunsigned : strip ['+'] (Nat.toDigits 10 n) = none := by
    unfold strip
    rw [if_neg]
    intro hsign
    obtain ⟨rest, hrest⟩ := List.isPrefixOf_iff_prefix.mp hsign
    have hplus := hdigits '+' (by rw [← hrest]; exact List.mem_cons_self ..)
    exact absurd hplus (by decide)
  unfold parseU64
  simp only [hunsigned, Option.getD_none, decimalValue_toDigits]
  rw [if_pos ⟨Nat.toDigits_ne_nil, List.all_eq_true.mpr hdigits, h⟩]

/-- ASCII letters in lower case. -/
def asciiLower (s : List Char) : List Char := s.map Char.toLower

end Text
