import Mathlib

/-!
# `Lib.Base64` — the standard base64 alphabet, with padding

Three bytes make four symbols; what is left over is padded. The text determines the bytes (`encode_injective`).
-/

namespace Base64

/-- The symbols, by value. -/
def alphabet : List Char := "ABCDEFGHIJKLMNOPQRSTUVWXYZabcdefghijklmnopqrstuvwxyz0123456789+/".toList

/-- The symbol of a value below 64. -/
def symbol (n : ℕ) : Char := alphabet.getD n '='

/-- The symbols of a byte list. -/
def encode : List UInt8 → List Char
  | [] => []
  | [a] => [symbol (a.toNat / 4), symbol (a.toNat % 4 * 16), '=', '=']
  | [a, b] => [symbol (a.toNat / 4), symbol (a.toNat % 4 * 16 + b.toNat / 16), symbol (b.toNat % 16 * 4), '=']
  | a :: b :: c :: rest =>
      symbol (a.toNat / 4) :: symbol (a.toNat % 4 * 16 + b.toNat / 16) ::
        symbol (b.toNat % 16 * 4 + c.toNat / 64) :: symbol (c.toNat % 64) :: encode rest

theorem idxOf_symbol : ∀ n < 64, alphabet.idxOf (symbol n) = n := by decide +kernel

theorem symbol_ne_pad : ∀ n < 64, symbol n ≠ '=' := by decide +kernel

theorem symbol_inj {m n : ℕ} (hm : m < 64) (hn : n < 64) (h : symbol m = symbol n) : m = n := by
  rw [← idxOf_symbol m hm, h, idxOf_symbol n hn]

/-- What the text is made of. -/
def IsSymbol (c : Char) : Prop := c = '=' ∨ ∃ n < 64, c = symbol n

theorem isSymbol_symbol (n : ℕ) : IsSymbol (symbol n) := by
  by_cases hn : n < 64
  · exact .inr ⟨n, hn, rfl⟩
  · refine .inl ?_
    have hlen : alphabet.length = 64 := by decide
    exact List.getD_eq_default _ _ (by omega)

theorem isSymbol_of_mem {bs : List UInt8} {c : Char} (h : c ∈ encode bs) : IsSymbol c := by
  have hpad : IsSymbol '=' := .inl rfl
  induction bs using encode.induct with
  | case1 => cases h
  | case2 a =>
      simp only [encode, List.mem_cons, List.not_mem_nil, or_false] at h
      rcases h with rfl | rfl | rfl | rfl
      · exact isSymbol_symbol _
      · exact isSymbol_symbol _
      · exact hpad
      · exact hpad
  | case3 a b =>
      simp only [encode, List.mem_cons, List.not_mem_nil, or_false] at h
      rcases h with rfl | rfl | rfl | rfl
      · exact isSymbol_symbol _
      · exact isSymbol_symbol _
      · exact isSymbol_symbol _
      · exact hpad
  | case4 a b d rest ih =>
      simp only [encode, List.mem_cons] at h
      rcases h with rfl | rfl | rfl | rfl | h
      · exact isSymbol_symbol _
      · exact isSymbol_symbol _
      · exact isSymbol_symbol _
      · exact isSymbol_symbol _
      · exact ih h

/-- **The text determines the bytes.** -/
theorem encode_injective : Function.Injective encode := by
  intro bs cs
  induction bs using encode.induct generalizing cs with
  | case1 =>
      intro h
      match cs, h with
      | [], _ => rfl
      | [a], h => cases h
      | [a, b], h => cases h
      | a :: b :: c :: rest, h => cases h
  | case2 a =>
      intro h
      have ha := a.toNat_lt
      match cs, h with
      | [], h => cases h
      | [a'], h =>
          have ha' := a'.toNat_lt
          simp only [encode, List.cons.injEq, and_true] at h
          have h₁ := symbol_inj (by omega) (by omega) h.1
          have h₂ := symbol_inj (by omega) (by omega) h.2
          rw [UInt8.toNat_inj.mp (by omega : a.toNat = a'.toNat)]
      | [a', b'], h =>
          simp only [encode, List.cons.injEq] at h
          have hb' := b'.toNat_lt
          exact absurd h.2.2.1.symm (symbol_ne_pad _ (by omega))
      | a' :: b' :: c' :: rest', h =>
          simp only [encode, List.cons.injEq] at h
          have hb' := b'.toNat_lt
          have hc' := c'.toNat_lt
          exact absurd h.2.2.1.symm (symbol_ne_pad _ (by omega))
  | case3 a b =>
      intro h
      have ha := a.toNat_lt
      have hb := b.toNat_lt
      match cs, h with
      | [], h => cases h
      | [a'], h =>
          simp only [encode, List.cons.injEq] at h
          exact absurd h.2.2.1 (symbol_ne_pad _ (by omega))
      | [a', b'], h =>
          have ha' := a'.toNat_lt
          have hb' := b'.toNat_lt
          simp only [encode, List.cons.injEq, and_true] at h
          have h₁ := symbol_inj (by omega) (by omega) h.1
          have h₂ := symbol_inj (by omega) (by omega) h.2.1
          have h₃ := symbol_inj (by omega) (by omega) h.2.2
          rw [UInt8.toNat_inj.mp (by omega : a.toNat = a'.toNat), UInt8.toNat_inj.mp (by omega : b.toNat = b'.toNat)]
      | a' :: b' :: c' :: rest', h =>
          simp only [encode, List.cons.injEq] at h
          have hc' := c'.toNat_lt
          exact absurd h.2.2.2.1.symm (symbol_ne_pad _ (by omega))
  | case4 a b c rest ih =>
      intro h
      have ha := a.toNat_lt
      have hb := b.toNat_lt
      have hc := c.toNat_lt
      match cs, h with
      | [], h => cases h
      | [a'], h =>
          simp only [encode, List.cons.injEq] at h
          exact absurd h.2.2.1 (symbol_ne_pad _ (by omega))
      | [a', b'], h =>
          simp only [encode, List.cons.injEq] at h
          exact absurd h.2.2.2.1 (symbol_ne_pad _ (by omega))
      | a' :: b' :: c' :: rest', h =>
          have ha' := a'.toNat_lt
          have hb' := b'.toNat_lt
          have hc' := c'.toNat_lt
          simp only [encode, List.cons.injEq] at h
          have h₁ := symbol_inj (by omega) (by omega) h.1
          have h₂ := symbol_inj (by omega) (by omega) h.2.1
          have h₃ := symbol_inj (by omega) (by omega) h.2.2.1
          have h₄ := symbol_inj (by omega) (by omega) h.2.2.2.1
          rw [ih h.2.2.2.2, UInt8.toNat_inj.mp (by omega : a.toNat = a'.toNat),
            UInt8.toNat_inj.mp (by omega : b.toNat = b'.toNat), UInt8.toNat_inj.mp (by omega : c.toNat = c'.toNat)]

end Base64
