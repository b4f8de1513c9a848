import Mathlib.Data.List.Infix
import Mathlib.Tactic

/-!
# `Lib.Occurrences` — where a pattern stands in a text, and its replacement

A pattern may stand at several positions of a text, and two of them may overlap. A scan from the left finds positions
and passes over what it has matched (`matchesOf`), so it finds no two that overlap: every position of the pattern is
within one of the matches (`exists_match`). When no two positions overlap, the matches are all positions
(`mem_matches_iff`).
-/

namespace Occurrences

variable {α : Type*} [DecidableEq α]

/-- `pat` stands at position `i` of `text`. -/
def OccursAt (pat text : List α) (i : ℕ) : Prop := i ≤ text.length ∧ pat <+: text.drop i

instance (pat text : List α) (i : ℕ) : Decidable (OccursAt pat text i) :=
  inferInstanceAs (Decidable (_ ∧ _))

/-- `pat` stands at two positions that share a place. -/
def Overlapping (pat text : List α) : Prop :=
  ∃ i j, OccursAt pat text i ∧ OccursAt pat text j ∧ i < j ∧ j < i + pat.length

/-- The matches from place `i` on, the next `skip` places passed over. -/
def scan (pat : List α) : ℕ → ℕ → List α → List ℕ
  | i, 0, [] => if pat = [] then [i] else []
  | _, _ + 1, [] => []
  | i, 0, c :: cs => if pat <+: c :: cs then i :: scan pat (i + 1) (pat.length - 1) cs else scan pat (i + 1) 0 cs
  | i, skip + 1, _ :: cs => scan pat (i + 1) skip cs

/-- The positions that a scan from the left finds. -/
def matchesOf (pat text : List α) : List ℕ := scan pat 0 0 text

/-- The text from place `last` on, with `new` for what `len` places from each position were. -/
def replaceAt (len : ℕ) (new text : List α) : ℕ → List ℕ → List α
  | last, [] => text.drop last
  | last, i :: is => (text.take i).drop last ++ new ++ replaceAt len new text (i + len) is

/-- The text with its first `n` matches replaced. -/
def replacen (pat new : List α) (n : ℕ) (text : List α) : List α :=
  replaceAt pat.length new text 0 ((matchesOf pat text).take n)

/-- The text with all its matches replaced. -/
def replace (pat new text : List α) : List α := replaceAt pat.length new text 0 (matchesOf pat text)

example : matchesOf [1, 1] [1, 1, 1] = [0] ∧ replacen [1, 1] [2] 1 [1, 1, 1] = [2, 1] ∧
    matchesOf [] [1, 2] = [0, 1, 2] := by
  decide

variable {pat text : List α}

omit [DecidableEq α] in
theorem occursAt_zero {l : List α} : OccursAt pat l 0 ↔ pat <+: l := by
  rw [OccursAt, List.drop_zero]
  exact ⟨fun h => h.2, fun h => ⟨Nat.zero_le _, h⟩⟩

omit [DecidableEq α] in
theorem occursAt_cons {c : α} {cs : List α} {k : ℕ} : OccursAt pat (c :: cs) (k + 1) ↔ OccursAt pat cs k := by
  rw [OccursAt, OccursAt, List.drop_succ_cons, List.length_cons, Nat.succ_le_succ_iff]

omit [DecidableEq α] in
theorem occursAt_nil {k : ℕ} : OccursAt pat [] k ↔ k = 0 ∧ pat = [] := by
  rw [OccursAt, List.drop_nil, List.length_nil, Nat.le_zero, List.prefix_nil]

/-- A match is a position of the pattern, beyond what is passed over. -/
theorem scan_sound {i skip j : ℕ} (h : j ∈ scan pat i skip text) :
    ∃ k, j = i + k ∧ skip ≤ k ∧ OccursAt pat text k := by
  induction i, skip, text using scan.induct pat with
  | case1 i hnil =>
      -- the end of the text, where only the empty pattern stands
      rw [scan, if_pos hnil] at h
      exact ⟨0, List.mem_singleton.mp h, le_rfl, occursAt_nil.mpr ⟨rfl, hnil⟩⟩
  | case2 i hnil =>
      rw [scan, if_neg hnil] at h
      cases h
  | case3 i skip => cases h
  | case4 i c cs hpre ih =>
      rw [scan, if_pos hpre] at h
      rcases List.mem_cons.mp h with rfl | h
      · exact ⟨0, rfl, le_rfl, occursAt_zero.mpr hpre⟩
      · obtain ⟨k, rfl, -, hk⟩ := ih h
        exact ⟨k + 1, by omega, Nat.zero_le _, occursAt_cons.mpr hk⟩
  | case5 i c cs hpre ih =>
      rw [scan, if_neg hpre] at h
      obtain ⟨k, rfl, -, hk⟩ := ih h
      exact ⟨k + 1, by omega, Nat.zero_le _, occursAt_cons.mpr hk⟩
  | case6 i c cs skip ih =>
      obtain ⟨k, rfl, hskip, hk⟩ := ih h
      exact ⟨k + 1, by omega, Nat.succ_le_succ hskip, occursAt_cons.mpr hk⟩

/-- A position of the pattern that is not passed over is a match, or lies within one. -/
theorem scan_complete {i skip k : ℕ} (hskip : skip ≤ k) (h : OccursAt pat text k) :
    ∃ j, i + j ∈ scan pat i skip text ∧ j ≤ k ∧ (j = k ∨ k < j + pat.length) := by
  induction i, skip, text using scan.induct pat generalizing k with
  | case1 i hnil =>
      obtain ⟨rfl, -⟩ := occursAt_nil.mp h
      exact ⟨0, by simp [scan, hnil], le_rfl, .inl rfl⟩
  | case2 i hnil => exact absurd (occursAt_nil.mp h).2 hnil
  | case3 i skip =>
      obtain ⟨rfl, -⟩ := occursAt_nil.mp h
      omega
  | case4 i c cs hpre ih =>
      rw [scan, if_pos hpre]
      -- the pattern stands here; a later position is within this match, or the scan goes on to it
      cases k with
      | zero => exact ⟨0, List.mem_cons_self, le_rfl, .inl rfl⟩
      | succ k =>
          by_cases hin : k + 1 < pat.length
          · exact ⟨0, List.mem_cons_self, Nat.zero_le _, .inr (by omega)⟩
          · obtain ⟨j, hj, hle, hlast⟩ := ih (by omega : pat.length - 1 ≤ k) (occursAt_cons.mp h)
            refine ⟨j + 1, List.mem_cons_of_mem _ ?_, by omega, by omega⟩
            rwa [← Nat.add_assoc, Nat.add_right_comm]
  | case5 i c cs hpre ih =>
      rw [scan, if_neg hpre]
      cases k with
      | zero => exact absurd (occursAt_zero.mp h) hpre
      | succ k =>
          obtain ⟨j, hj, hle, hlast⟩ := ih (Nat.zero_le k) (occursAt_cons.mp h)
          refine ⟨j + 1, ?_, by omega, by omega⟩
          rwa [← Nat.add_assoc, Nat.add_right_comm]
  | case6 i c cs skip ih =>
      cases k with
      | zero => omega
      | succ k =>
          obtain ⟨j, hj, hle, hlast⟩ := ih (Nat.le_of_succ_le_succ hskip) (occursAt_cons.mp h)
          refine ⟨j + 1, ?_, by omega, by omega⟩
          rw [scan]
          rwa [← Nat.add_assoc, Nat.add_right_comm]

/-- **A match is a position of the pattern.** -/
theorem occursAt_of_mem {i : ℕ} (h : i ∈ matchesOf pat text) : OccursAt pat text i := by
  obtain ⟨k, rfl, -, hk⟩ := scan_sound h
  rwa [Nat.zero_add]

/-- **Every position of the pattern is within a match.** -/
theorem exists_match {k : ℕ} (h : OccursAt pat text k) :
    ∃ i ∈ matchesOf pat text, i ≤ k ∧ (i = k ∨ k < i + pat.length) := by
  obtain ⟨j, hj, hle, hlast⟩ := scan_complete (i := 0) (Nat.zero_le k) h
  rw [Nat.zero_add] at hj
  exact ⟨j, hj, hle, hlast⟩

/-- When no two positions overlap, the matches are the positions. -/
theorem mem_matches_iff (hone : ¬ Overlapping pat text) {i : ℕ} : i ∈ matchesOf pat text ↔ OccursAt pat text i := by
  refine ⟨occursAt_of_mem, ?_⟩
  intro h
  obtain ⟨j, hj, hle, hlast⟩ := exists_match h
  rcases hlast with rfl | hlast
  · exact hj
  · rcases hle.lt_or_eq with hlt | rfl
    · exact absurd ⟨j, i, occursAt_of_mem hj, h, hlt, hlast⟩ hone
    · exact hj

/-- A text with one match, whose positions do not overlap, has one position. -/
theorem occursAt_iff_of_single (hone : ¬ Overlapping pat text) {i : ℕ} (h : matchesOf pat text = [i]) (j : ℕ) :
    OccursAt pat text j ↔ j = i := by
  rw [← mem_matches_iff hone, h, List.mem_singleton]

/-- The replacement of a single match. -/
theorem replacen_single {i : ℕ} (h : matchesOf pat text = [i]) (new : List α) :
    replacen pat new 1 text = text.take i ++ new ++ text.drop (i + pat.length) := by
  rw [replacen, h]
  rfl

end Occurrences
