import AgentRuntime.Lib.PrefixCode

/-!
# `Lib.Json` — compact JSON text, as bytes

The pieces a compact JSON writer is made of: fixed texts (`utf8`), strings with the short escapes and
`\u00xx` for the remaining control bytes (`jsonString`), and decimal numbers (`PrefixCode.decimal`).
Strings are self-delimiting (`prefixFree_jsonString`), and nothing a writer emits contains a control
byte (`jsonString_printable`), so a JSON value never contains a line feed.
-/

namespace Json

open PrefixCode

/-- The UTF-8 bytes of a text. -/
def utf8 (s : String) : List UInt8 := s.toByteArray.data.toList

theorem utf8_injective : Function.Injective utf8 := by
  intro s t h
  apply String.toByteArray_inj.mp
  apply ByteArray.ext
  exact Array.toList_inj.mp h

/-- The lower-case hex digit of a nibble, as a byte. -/
def hexByte (n : UInt8) : UInt8 := if n < 10 then 48 + n else 87 + n

/-- One byte of a string's contents: quotes, backslashes and control bytes are escaped. -/
def escapeByte (b : UInt8) : List UInt8 :=
  if b = 8 then [92, 98]
  else if b = 9 then [92, 116]
  else if b = 10 then [92, 110]
  else if b = 12 then [92, 102]
  else if b = 13 then [92, 114]
  else if b = 34 then [92, 34]
  else if b = 92 then [92, 92]
  else if b < 32 then [92, 117, 48, 48, hexByte (b / 16), hexByte (b % 16)]
  else [b]

/-- A string between quotes. -/
def jsonString (s : String) : List UInt8 := 34 :: encMany escapeByte 34 (utf8 s)

/-! ## Escapes can be read back -/

/-- The value of a hex digit byte of lower case. -/
def hexByteValue (b : UInt8) : UInt8 := if b < 58 then b - 48 else b - 87

/-- Read one byte back off a stream. -/
def unescapeByte : List UInt8 → Option (UInt8 × List UInt8)
  | 92 :: 98 :: r => some (8, r)
  | 92 :: 116 :: r => some (9, r)
  | 92 :: 110 :: r => some (10, r)
  | 92 :: 102 :: r => some (12, r)
  | 92 :: 114 :: r => some (13, r)
  | 92 :: 34 :: r => some (34, r)
  | 92 :: 92 :: r => some (92, r)
  | 92 :: 117 :: _ :: _ :: h :: l :: r => some (16 * hexByteValue h + hexByteValue l, r)
  | b :: r => some (b, r)
  | [] => none

/-- The bytes that are escaped. -/
def escapedBytes : List UInt8 :=
  [0, 1, 2, 3, 4, 5, 6, 7, 8, 9, 10, 11, 12, 13, 14, 15, 16, 17, 18, 19, 20, 21, 22, 23, 24, 25, 26,
    27, 28, 29, 30, 31, 34, 92]

theorem escaped_or_plain : ∀ b : UInt8, b ∈ escapedBytes ∨ (escapeByte b = [b] ∧ b ≠ 92) := by
  decide +kernel

theorem unescapeByte_escapeByte (b : UInt8) (r : List UInt8) :
    unescapeByte (escapeByte b ++ r) = some (b, r) := by
  rcases escaped_or_plain b with hesc | ⟨hplain, h92⟩
  · simp only [escapedBytes, List.mem_cons, List.not_mem_nil, or_false] at hesc
    rcases hesc with rfl | rfl | rfl | rfl | rfl | rfl | rfl | rfl | rfl | rfl | rfl | rfl | rfl |
      rfl | rfl | rfl | rfl | rfl | rfl | rfl | rfl | rfl | rfl | rfl | rfl | rfl | rfl | rfl | rfl |
      rfl | rfl | rfl | rfl | rfl <;> rfl
  · rw [hplain]
    unfold unescapeByte
    split <;> simp_all

theorem prefixFree_escapeByte : PrefixFree escapeByte := by
  intro a b r s h
  have hread := unescapeByte_escapeByte a r
  rw [h, unescapeByte_escapeByte, Option.some_inj] at hread
  exact ⟨(Prod.mk.inj hread).1.symm, (Prod.mk.inj hread).2.symm⟩

/-- An escape never starts with a quote. -/
theorem escapeByte_ne_quote (b : UInt8) (r s : List UInt8) : escapeByte b ++ r ≠ 34 :: s := by
  have hhead : ∀ b : UInt8, ∃ x t, escapeByte b = x :: t ∧ x ≠ 34 := by
    intro b
    have : ∀ b : UInt8, (escapeByte b).head?.any (· != 34) := by decide +kernel
    cases hb : escapeByte b with
    | nil => have := this b; simp [hb] at this
    | cons x t => exact ⟨x, t, rfl, by have := this b; simpa [hb] using this⟩
  obtain ⟨x, t, hb, hx⟩ := hhead b
  rw [hb]
  intro h
  exact hx (List.cons.inj h).1

/-- **A string is self-delimiting.** -/
theorem prefixFree_jsonString : PrefixFree jsonString := by
  intro a b r s h
  obtain ⟨hab, hrs⟩ :=
    prefixFree_encMany prefixFree_escapeByte escapeByte_ne_quote _ _ _ _ (List.cons.inj h).2
  exact ⟨utf8_injective hab, hrs⟩

/-! ## No control bytes -/

/-- No control byte occurs. -/
def Printable (bs : List UInt8) : Prop := ∀ b ∈ bs, 32 ≤ b.toNat

instance (bs : List UInt8) : Decidable (Printable bs) := by
  unfold Printable; infer_instance

@[simp] theorem printable_append {u v : List UInt8} :
    Printable (u ++ v) ↔ Printable u ∧ Printable v := by
  unfold Printable
  simp only [List.mem_append, or_imp, forall_and]

@[simp] theorem printable_cons {b : UInt8} {v : List UInt8} :
    Printable (b :: v) ↔ 32 ≤ b.toNat ∧ Printable v := by
  unfold Printable
  simp only [List.mem_cons, forall_eq_or_imp]

@[simp] theorem printable_nil : Printable [] := by
  unfold Printable
  simp

theorem printable_escapeByte (b : UInt8) : Printable (escapeByte b) := by
  have hall : ∀ b : UInt8, (escapeByte b).all (fun x => Nat.ble 32 x.toNat) = true := by
    decide +kernel
  intro x hx
  exact Nat.le_of_ble_eq_true (List.all_eq_true.mp (hall b) x hx)

@[simp] theorem printable_jsonString (s : String) : Printable (jsonString s) := by
  have hmany : ∀ bs : List UInt8, Printable (encMany escapeByte 34 bs) := by
    intro bs
    induction bs with
    | nil => exact printable_cons.mpr ⟨by decide, printable_nil⟩
    | cons x t ih => exact printable_append.mpr ⟨printable_escapeByte x, ih⟩
  exact printable_cons.mpr ⟨by decide, hmany _⟩

@[simp] theorem printable_decimal (n : ℕ) : Printable (decimal n) := by
  intro b hb
  have := mem_decimal hb
  omega

theorem printable_encTail {α : Type*} {enc : α → List UInt8} {sep stop : UInt8}
    (henc : ∀ a, Printable (enc a)) (hsep : 32 ≤ sep.toNat) (hstop : 32 ≤ stop.toNat) (l : List α) :
    Printable (encTail enc sep stop l) := by
  induction l with
  | nil => exact printable_cons.mpr ⟨hstop, printable_nil⟩
  | cons a t ih => exact printable_cons.mpr ⟨hsep, printable_append.mpr ⟨henc a, ih⟩⟩

theorem printable_encList {α : Type*} {enc : α → List UInt8} {start sep stop : UInt8}
    (henc : ∀ a, Printable (enc a)) (hstart : 32 ≤ start.toNat) (hsep : 32 ≤ sep.toNat)
    (hstop : 32 ≤ stop.toNat) (l : List α) : Printable (encList enc start sep stop l) := by
  cases l with
  | nil => exact printable_cons.mpr ⟨hstart, printable_cons.mpr ⟨hstop, printable_nil⟩⟩
  | cons a t =>
      exact printable_cons.mpr ⟨hstart, printable_append.mpr
        ⟨henc a, printable_encTail henc hsep hstop t⟩⟩

/-- A printable text has no line feed. -/
theorem Printable.not_mem_newline {bs : List UInt8} (h : Printable bs) : (10 : UInt8) ∉ bs := by
  intro hmem
  have := h 10 hmem
  simp at this

end Json
