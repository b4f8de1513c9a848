import AgentRuntime.Lib.Text
import Mathlib.Data.List.Infix

/-!
# `Lib.TextLines` — the lines of a text that was put together from lines

A text is written as lines with a line feed between them, or behind each of them. Read again it has the same lines, up to
a carriage return at the end of each (`lines_terminated_append`), which a reader that trims its lines does not see
(`trim_withoutReturn`). A trimmed text is what is left between white space on both sides (`trim_decomp`).
-/

namespace Text

/-! ## Cutting -/

/-- Lines that are each ended by a byte of none of them. -/
theorem splitOn_flatMap_terminated {α : Type} [DecidableEq α] {stop : α} {ls : List (List α)}
    (h : ∀ l ∈ ls, stop ∉ l) : (ls.flatMap fun l => l ++ [stop]).splitOn stop = ls ++ [[]] := by
  induction ls with
  | nil => simp
  | cons l ls ih =>
      have hl := h l (List.mem_cons_self ..)
      rw [List.flatMap_cons, List.append_assoc, List.singleton_append, List.splitOn_append_cons_self,
        List.splitOn_eq_singleton hl, ih fun l' hl' => h l' (List.mem_cons_of_mem _ hl')]
      rfl

theorem not_mem_of_mem_splitOn {α : Type} [DecidableEq α] {stop : α} (s : List α) :
    ∀ l ∈ s.splitOn stop, stop ∉ l := by
  induction hn : s.length using Nat.strong_induction_on generalizing s with
  | _ n ih =>
      by_cases hmem : stop ∈ s
      · obtain ⟨before, after, rfl⟩ := List.append_of_mem hmem
        rw [List.length_append, List.length_cons] at hn
        rw [List.splitOn_append_cons_self]
        intro l hl
        rcases List.mem_append.mp hl with hl | hl
        · exact ih _ (by omega) before rfl l hl
        · exact ih _ (by omega) after rfl l hl
      · rw [List.splitOn_eq_singleton hmem]
        simpa using hmem

theorem not_mem_lines (s : List Char) : ∀ l ∈ lines s, '\n' ∉ l := by
  have hcut := @not_mem_of_mem_splitOn _ _ '\n' s
  unfold lines
  simp only
  intro l hl
  rcases List.mem_append.mp hl with hl | hl
  · obtain ⟨line, hline, rfl⟩ := List.mem_map.mp hl
    have hnot := hcut line (List.mem_of_mem_dropLast hline)
    split
    · intro hmem
      exact hnot (List.mem_of_mem_dropLast hmem)
    · exact hnot
  · rw [Option.mem_toList, Option.filter_eq_some_iff] at hl
    exact hcut l (List.mem_of_getLast? hl.1)

/-- A text is cut at the first occurrence of a character. -/
theorem breakOn_singleton {c : Char} {s before found : List Char} :
    breakOn [c] s = some (before, found) ↔ c ∉ before ∧ (∃ after, found = c :: after) ∧ s = before ++ found := by
  induction s generalizing before with
  | nil =>
      rw [breakOn, if_neg (List.cons_ne_nil c [])]
      constructor
      · intro h
        cases h
      · rintro ⟨-, ⟨after, rfl⟩, h⟩
        exact absurd h.symm (by simp)
  | cons d s ih =>
      rw [breakOn]
      by_cases hd : d = c
      · subst hd
        rw [if_pos (by simp)]
        constructor
        · intro h
          cases h
          exact ⟨List.not_mem_nil, ⟨s, rfl⟩, rfl⟩
        · rintro ⟨hnot, ⟨after, rfl⟩, h⟩
          cases before with
          | nil =>
              cases h
              rfl
          | cons b before =>
              cases h
              exact absurd (List.mem_cons_self ..) hnot
      · have hne : ¬ [c].isPrefixOf (d :: s) = true := by
          simpa using fun h : c = d => hd h.symm
        rw [if_neg hne, Option.map_eq_some_iff]
        constructor
        · rintro ⟨⟨before', found'⟩, hbreak, heq⟩
          cases heq
          obtain ⟨hnot, hfound, rfl⟩ := ih.mp hbreak
          refine ⟨?_, hfound, rfl⟩
          rintro (_ | ⟨_, hmem⟩)
          · exact hd rfl
          · exact hnot hmem
        · rintro ⟨hnot, ⟨after, rfl⟩, h⟩
          cases before with
          | nil =>
              cases h
              exact absurd rfl hd
          | cons b before =>
              cases h
              exact ⟨(before, c :: after), ih.mpr ⟨fun hmem => hnot (List.mem_cons_of_mem _ hmem), ⟨after, rfl⟩, rfl⟩, rfl⟩

theorem strip_singleton {c : Char} {s rest : List Char} : strip [c] s = some rest ↔ s = c :: rest := by
  unfold strip
  cases s with
  | nil => simp
  | cons d s =>
      by_cases hd : c = d
      · subst hd
        simp
      · simp [hd, Ne.symm hd]

/-! ## Lines put together -/

/-- A line as it is read: without the carriage return at its end. -/
def withoutReturn (line : List Char) : List Char := if line.getLast? = some '\r' then line.dropLast else line

/-- What is read of lines that are each ended by a line feed, and a rest. -/
theorem lines_terminated_append {ls : List (List Char)} {rest : List Char} (hls : ∀ l ∈ ls, '\n' ∉ l)
    (hrest : '\n' ∉ rest) :
    lines ((ls.flatMap fun l => l ++ ['\n']) ++ rest) =
      ls.map withoutReturn ++ (if rest = [] then [] else [rest]) := by
  have hcut : ((ls.flatMap fun l => l ++ ['\n']) ++ rest).splitOn '\n' = ls ++ [rest] := by
    induction ls with
    | nil => exact List.splitOn_eq_singleton hrest
    | cons l ls ih =>
        have hl := hls l (List.mem_cons_self ..)
        rw [List.flatMap_cons, List.append_assoc, List.append_assoc, List.singleton_append,
          List.splitOn_append_cons_self, List.splitOn_eq_singleton hl, ih fun l' hl' => hls l' (List.mem_cons_of_mem _ hl')]
        rfl
  unfold lines
  simp only [hcut, List.dropLast_concat, List.getLast?_concat]
  cases rest with
  | nil => rfl
  | cons c rest => rfl

/-- Lines with a separator between them are terminated lines and a last one. -/
theorem intercalate_concat {α : Type} (sep : List α) (ls : List (List α)) (last : List α) :
    List.intercalate sep (ls ++ [last]) = (ls.flatMap fun l => l ++ sep) ++ last := by
  induction ls with
  | nil => simp
  | cons l ls ih =>
      cases ls with
      | nil => simp [List.intercalate, List.intersperse]
      | cons l' ls =>
          rw [List.cons_append, List.flatMap_cons, List.append_assoc, ← ih]
          simp [List.intercalate, List.intersperse]

/-! ## Trimmed texts -/

/-- A text without white space at its ends is left as it is. -/
theorem trim_eq_self {s : List Char} (hhead : ∀ c ∈ s.head?, isWhitespace c = false)
    (hlast : ∀ c ∈ s.getLast?, isWhitespace c = false) : trim s = s := by
  have hdrop : s.dropWhile isWhitespace = s := by
    cases s with
    | nil => rfl
    | cons c s => rw [List.dropWhile_cons, hhead c rfl, if_neg Bool.false_ne_true]
  unfold trim
  rw [hdrop]
  refine List.rdropWhile_eq_self_iff.mpr fun hne => ?_
  rw [hlast _ (List.getLast?_eq_some_getLast hne)]
  exact Bool.false_ne_true

/-- White space around a text is taken off. -/
theorem trim_append {before s after : List Char} (hbefore : ∀ c ∈ before, isWhitespace c = true)
    (hafter : ∀ c ∈ after, isWhitespace c = true) : trim (before ++ s ++ after) = trim s := by
  have hright : ∀ t : List Char, (t ++ after).rdropWhile isWhitespace = t.rdropWhile isWhitespace := by
    intro t
    induction after using List.reverseRecOn with
    | nil => rw [List.append_nil]
    | append_singleton after c ih =>
        rw [← List.append_assoc, List.rdropWhile_concat_pos _ _ _ (hafter c (by simp))]
        exact ih fun c' hc' => hafter c' (List.mem_append_left _ hc')
  have hleft : (before ++ (s ++ after)).dropWhile isWhitespace = (s ++ after).dropWhile isWhitespace :=
    List.dropWhile_append_of_pos hbefore
  unfold trim
  rw [List.append_assoc, hleft, List.dropWhile_append]
  split
  · rename_i hempty
    have hs : s.dropWhile isWhitespace = [] := List.isEmpty_iff.mp hempty
    rw [hs]
    have hall : after.dropWhile isWhitespace = [] := List.dropWhile_eq_nil_iff.mpr hafter
    rw [hall]
  · exact hright _

/-- A text is its trimmed one between white space. -/
theorem trim_decomp (s : List Char) : ∃ before after, s = before ++ trim s ++ after ∧
    (∀ c ∈ before, isWhitespace c = true) ∧ ∀ c ∈ after, isWhitespace c = true := by
  refine ⟨s.takeWhile isWhitespace, (s.dropWhile isWhitespace).rtakeWhile isWhitespace, ?_, ?_, ?_⟩
  · unfold trim
    rw [List.append_assoc, List.rdropWhile_append_rtakeWhile, List.takeWhile_append_dropWhile]
  · exact fun c hc => List.mem_takeWhile_imp hc
  · exact fun c hc => List.mem_rtakeWhile_imp hc

theorem trim_head {s : List Char} {c : Char} (h : (trim s).head? = some c) : isWhitespace c = false := by
  have hprefix : trim s <+: s.dropWhile isWhitespace := List.rdropWhile_prefix _ _
  obtain ⟨rest, hrest⟩ := List.head?_eq_some_iff.mp h
  obtain ⟨after, hafter⟩ := hprefix
  rw [hrest, List.cons_append] at hafter
  have hnot := List.head?_dropWhile_not isWhitespace s
  rw [← hafter] at hnot
  simpa using hnot

theorem trim_last {s : List Char} {c : Char} (h : (trim s).getLast? = some c) : isWhitespace c = false := by
  have hne : trim s ≠ [] := by
    intro hnil
    rw [hnil] at h
    cases h
  have hnot := List.rdropWhile_last_not isWhitespace (s.dropWhile isWhitespace) hne
  rw [List.getLast?_eq_some_getLast hne] at h
  rw [← Option.some.inj h]
  exact eq_false_of_ne_true hnot

/-- A carriage return is white space. -/
theorem trim_withoutReturn (line : List Char) : trim (withoutReturn line) = trim line := by
  unfold withoutReturn
  split
  · rename_i hreturn
    obtain ⟨start, rfl⟩ := List.getLast?_eq_some_iff.mp hreturn
    have hspace := @trim_append [] start ['\r'] (by simp) (by simp [isWhitespace])
    rw [List.nil_append] at hspace
    rw [List.dropLast_concat, hspace]
  · rfl

end Text
