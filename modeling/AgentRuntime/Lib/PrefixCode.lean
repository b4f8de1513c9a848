import Mathlib

/-!
# `Lib.PrefixCode` — self-delimiting encoders

An encoder is *prefix free* when its output can be cut off the front of any stream in only one way
(`PrefixFree`). Such encoders compose: a structure printed field by field between fixed texts is
prefix free when its fields are, and a prefix-free encoder is injective. Numbers and other texts
without an end of their own become prefix free with a terminator they cannot contain
(`prefixFree_terminated`); lists, with a separator and a terminator (`prefixFree_encList`).
-/

namespace PrefixCode

variable {α β γ : Type*}

/-- The encoded value and the rest of the stream are both determined by the stream. -/
def PrefixFree (enc : α → List β) : Prop :=
  ∀ a b r s, enc a ++ r = enc b ++ s → a = b ∧ r = s

theorem PrefixFree.injective {enc : α → List β} (h : PrefixFree enc) : Function.Injective enc := by
  intro a b hab
  exact (h a b [] [] (by rw [hab])).1

theorem PrefixFree.comp {enc : α → List β} (h : PrefixFree enc) {f : γ → α}
    (hf : Function.Injective f) : PrefixFree (fun c => enc (f c)) := by
  intro a b r s hab
  obtain ⟨hfab, hrs⟩ := h _ _ r s hab
  exact ⟨hf hfab, hrs⟩

/-- A value without an end of its own, closed by a symbol it cannot contain. -/
theorem prefixFree_terminated [DecidableEq β] {enc : α → List β} (hinj : Function.Injective enc)
    {stop : β} (hstop : ∀ a, stop ∉ enc a) : PrefixFree (fun a => enc a ++ [stop]) := by
  -- the encoded value is what stands before the first terminator
  have hcut : ∀ (u v r s : List β), stop ∉ u → stop ∉ v →
      u ++ stop :: r = v ++ stop :: s → u = v ∧ r = s := by
    intro u
    induction u with
    | nil =>
        intro v r s _ hv h
        cases v with
        | nil => exact ⟨rfl, (List.cons.inj h).2⟩
        | cons y v =>
            obtain ⟨rfl, -⟩ := List.cons.inj h
            exact absurd List.mem_cons_self hv
    | cons x u ih =>
        intro v r s hu hv h
        cases v with
        | nil =>
            obtain ⟨rfl, -⟩ := List.cons.inj h
            exact absurd List.mem_cons_self hu
        | cons y v =>
            obtain ⟨rfl, htail⟩ := List.cons.inj h
            obtain ⟨huv, hrs⟩ := ih v r s (List.not_mem_of_not_mem_cons hu)
              (List.not_mem_of_not_mem_cons hv) htail
            exact ⟨by rw [huv], hrs⟩
  intro a b r s h
  rw [List.append_assoc, List.append_assoc] at h
  obtain ⟨hab, hrs⟩ := hcut _ _ r s (hstop a) (hstop b) h
  exact ⟨hinj hab, hrs⟩

/-! ## Lists -/

/-- The encodings of a list one after the other, then `stop`. -/
def encMany (enc : α → List β) (stop : β) : List α → List β
  | [] => [stop]
  | a :: t => enc a ++ encMany enc stop t

/-- The rest of a separated list: every element after `sep`, then `stop`. -/
def encTail (enc : α → List β) (sep stop : β) : List α → List β
  | [] => [stop]
  | a :: t => sep :: (enc a ++ encTail enc sep stop t)

/-- A separated list between `start` and `stop`. -/
def encList (enc : α → List β) (start sep stop : β) : List α → List β
  | [] => [start, stop]
  | a :: t => start :: (enc a ++ encTail enc sep stop t)

theorem prefixFree_encMany {enc : α → List β} (henc : PrefixFree enc) {stop : β}
    (hne : ∀ a r, ∀ s, enc a ++ r ≠ stop :: s) : PrefixFree (encMany enc stop) := by
  intro u
  induction u with
  | nil =>
      intro v r s h
      cases v with
      | nil => exact ⟨rfl, (List.cons.inj h).2⟩
      | cons y v =>
          rw [encMany, encMany, List.append_assoc] at h
          exact absurd h.symm (hne y _ _)
  | cons x u ih =>
      intro v r s h
      cases v with
      | nil =>
          rw [encMany, encMany, List.append_assoc] at h
          exact absurd h (hne x _ _)
      | cons y v =>
          rw [encMany, encMany, List.append_assoc, List.append_assoc] at h
          obtain ⟨rfl, htail⟩ := henc _ _ _ _ h
          obtain ⟨rfl, hrs⟩ := ih v r s htail
          exact ⟨rfl, hrs⟩

theorem prefixFree_encTail {enc : α → List β} (henc : PrefixFree enc) {sep stop : β}
    (hsep : sep ≠ stop) : PrefixFree (encTail enc sep stop) := by
  intro u
  induction u with
  | nil =>
      intro v r s h
      cases v with
      | nil => exact ⟨rfl, (List.cons.inj h).2⟩
      | cons y v => exact absurd (List.cons.inj h).1.symm hsep
  | cons x u ih =>
      intro v r s h
      cases v with
      | nil => exact absurd (List.cons.inj h).1 hsep
      | cons y v =>
          simp only [encTail, List.cons_append, List.append_assoc, List.cons.injEq, true_and] at h
          obtain ⟨rfl, htail⟩ := henc _ _ _ _ h
          obtain ⟨rfl, hrs⟩ := ih v r s htail
          exact ⟨rfl, hrs⟩

theorem prefixFree_encList {enc : α → List β} (henc : PrefixFree enc) {start sep stop : β}
    (hsep : sep ≠ stop) (hne : ∀ a r, ∀ s, enc a ++ r ≠ stop :: s) :
    PrefixFree (encList enc start sep stop) := by
  intro u v r s h
  cases u with
  | nil =>
      cases v with
      | nil =>
          simp only [encList, List.cons_append, List.nil_append, List.cons.injEq, true_and] at h
          exact ⟨rfl, h⟩
      | cons y v =>
          simp only [encList, List.cons_append, List.nil_append, List.append_assoc, List.cons.injEq,
            true_and] at h
          exact absurd h.symm (hne y _ _)
  | cons x u =>
      cases v with
      | nil =>
          simp only [encList, List.cons_append, List.nil_append, List.append_assoc, List.cons.injEq,
            true_and] at h
          exact absurd h (hne x _ _)
      | cons y v =>
          simp only [encList, List.cons_append, List.append_assoc, List.cons.injEq, true_and] at h
          obtain ⟨rfl, htail⟩ := henc _ _ _ _ h
          obtain ⟨rfl, hrs⟩ := prefixFree_encTail henc hsep _ _ _ _ htail
          exact ⟨rfl, hrs⟩

/-! ## Decimal numbers -/

/-- The decimal digits of `n` as ASCII bytes, without leading zeros. -/
def decimal (n : ℕ) : List UInt8 :=
  if n < 10 then [UInt8.ofNat (48 + n)]
  else decimal (n / 10) ++ [UInt8.ofNat (48 + n % 10)]
termination_by n

/-- The value of a digit string, read from the left. -/
def digitsValue (ds : List UInt8) : ℕ := ds.foldl (fun v d => 10 * v + (d.toNat - 48)) 0

theorem toNat_digit {k : ℕ} (h : k < 10) : (UInt8.ofNat (48 + k)).toNat = 48 + k := by
  rw [UInt8.toNat_ofNat']
  exact Nat.mod_eq_of_lt (by omega)

theorem digitsValue_decimal (n : ℕ) : digitsValue (decimal n) = n := by
  induction n using decimal.induct with
  | case1 n h =>
      rw [decimal, if_pos h]
      simp only [digitsValue, List.foldl_cons, List.foldl_nil, toNat_digit h]
      omega
  | case2 n h ih =>
      unfold digitsValue at ih
      rw [decimal, if_neg h, digitsValue, List.foldl_append, ih]
      simp only [List.foldl_cons, List.foldl_nil, toNat_digit (Nat.mod_lt n (by omega))]
      omega

theorem decimal_injective : Function.Injective decimal :=
  Function.LeftInverse.injective digitsValue_decimal

/-- A decimal number has digits only. -/
theorem mem_decimal {n : ℕ} {d : UInt8} (h : d ∈ decimal n) : 48 ≤ d.toNat ∧ d.toNat < 58 := by
  induction n using decimal.induct with
  | case1 n hn =>
      rw [decimal, if_pos hn, List.mem_singleton] at h
      rw [h, toNat_digit hn]
      omega
  | case2 n hn ih =>
      rw [decimal, if_neg hn] at h
      rcases List.mem_append.mp h with h | h
      · exact ih h
      · rw [List.mem_singleton.mp h, toNat_digit (Nat.mod_lt n (by omega))]
        omega

/-- A decimal number closed by a byte that is not a digit is self-delimiting. -/
theorem prefixFree_decimal {stop : UInt8} (h : stop.toNat < 48 ∨ 58 ≤ stop.toNat) :
    PrefixFree (fun n => decimal n ++ [stop]) := by
  apply prefixFree_terminated decimal_injective
  intro n hmem
  have := mem_decimal hmem
  omega

end PrefixCode
