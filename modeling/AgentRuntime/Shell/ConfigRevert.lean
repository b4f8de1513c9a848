import AgentRuntime.Shell.ConfigLines

/-!
# `Shell.ConfigRevert` — what a rewritten config says

An entry takes its own lines along. A section header goes with its last entry, and the lines that continued a comment on it
stay: read on their own they may be entries (`orphans`). The end of the file is the other place: a text without a line
feed at its end is written without one, so an empty line that is left there is no line any more. Nothing else changes
what is read (`config_rewrite_iff`).
-/

namespace AgentRuntime.Shell

open Text

/-! ## What is left -/

/-- Some entry of the section is dropped, and every one. -/
def headerGone (all drop : List ConfigEntry) (h : ℕ) : Bool :=
  drop.any (fun e => e.header == some h) && all.all fun e => e.header != some h || drop.contains e

/-- The line belongs to the entry, and is not the header it sits on. -/
def clears (i : ℕ) (e : ConfigEntry) : Bool := decide (e.start ≤ i ∧ i < e.end_) && !(e.inline && i == e.start)

/-- The line is the header the entry sits on. -/
def cuts (i : ℕ) (e : ConfigEntry) : Bool := decide (e.start ≤ i ∧ i < e.end_) && (e.inline && i == e.start)

/-- What is left of the `i`-th line. -/
def slotOf (all drop : List ConfigEntry) (i : ℕ) (line : Line) : Option Line :=
  if headerGone all drop i || drop.any (clears i) then none
  else if drop.any (cuts i) then some (headerOnly line)
  else some line

/-- The lines that stay, of those from the `i`-th on. -/
def remaining (all drop : List ConfigEntry) (i : ℕ) : List Line → List Line
  | [] => []
  | line :: rest => (slotOf all drop i line).toList ++ remaining all drop (i + 1) rest

/-- For each header that goes without an entry of its own, the lines that continued it. -/
def orphans (gone : ℕ → Bool) (i : ℕ) : ℕ → List Line → List (List Line)
  | _, [] => []
  | skip + 1, _ :: rest => orphans gone (i + 1) skip rest
  | 0, line :: rest =>
      (if (opening line).isHeader && gone i && (keyValue (joinedLine line rest)).isNone then
          [rest.take (more line rest)] else []) ++
        orphans gone (i + 1) (more line rest) rest

theorem orphans_skip (gone : ℕ → Bool) (i skip : ℕ) (ls : List Line) (h : skip ≤ ls.length) :
    orphans gone i skip ls = orphans gone (i + skip) 0 (ls.drop skip) := by
  induction skip generalizing i ls with
  | zero => rfl
  | succ skip ih =>
      cases ls with
      | nil => cases h
      | cons line rest =>
          rw [orphans, ih (i + 1) rest (Nat.le_of_succ_le_succ h), List.drop_succ_cons]
          congr 1
          omega

theorem orphans_cons (gone : ℕ → Bool) (i : ℕ) (line : Line) (rest : List Line) :
    orphans gone i 0 (line :: rest) =
      (if (opening line).isHeader && gone i && (keyValue (joinedLine line rest)).isNone then
          [rest.take (more line rest)] else []) ++
        orphans gone (i + 1 + more line rest) 0 (rest.drop (more line rest)) := by
  rw [orphans, orphans_skip gone _ _ _ (more_le line rest)]

/-! ## The lines the code writes -/

theorem headerOnly_headerOnly (line : Line) : headerOnly (headerOnly line) = headerOnly line := by
  have hstays : ∀ before, ']' ∉ before → headerOnly (before ++ [']']) = before ++ [']'] := by
    intro before hnot
    unfold headerOnly
    rw [breakOn_singleton.mpr ⟨hnot, ⟨[], rfl⟩, rfl⟩]
  cases hbreak : breakOn [']'] line with
  | none =>
      have hself : headerOnly line = line := by
        unfold headerOnly
        rw [hbreak]
      rw [hself, hself]
  | some cut =>
      obtain ⟨before, found⟩ := cut
      have hcut : headerOnly line = before ++ [']'] := by
        unfold headerOnly
        rw [hbreak]
      rw [hcut, hstays before (breakOn_singleton.mp hbreak).1]

theorem mem_headerOnly {line : Line} {c : Char} (h : c ∈ headerOnly line) : c ∈ line := by
  unfold headerOnly at h
  split at h
  · rename_i before found hbreak
    obtain ⟨-, ⟨after, rfl⟩, rfl⟩ := breakOn_singleton.mp hbreak
    rcases List.mem_append.mp h with h | h
    · exact List.mem_append_left _ h
    · rw [List.mem_singleton.mp h]
      simp
  · exact h

/-- One entry's effect on one line. -/
def clearAt (i : ℕ) (slot : Option Line) (e : ConfigEntry) : Option Line :=
  if e.start ≤ i ∧ i < e.end_ then
    if e.inline = true ∧ i = e.start then slot.map headerOnly else none
  else slot

theorem clearAt_eq (i : ℕ) (slot : Option Line) (e : ConfigEntry) :
    clearAt i slot e = if clears i e then none else if cuts i e then slot.map headerOnly else slot := by
  unfold clearAt clears cuts
  by_cases hspan : e.start ≤ i ∧ i < e.end_
  · by_cases hown : e.inline = true ∧ i = e.start
    · simp [hown]
    · simp [hspan]
      split <;> simp_all
  · simp [hspan]

/-- The entries' effects on one line add up. -/
theorem foldl_clearAt (i : ℕ) (drop : List ConfigEntry) (slot : Option Line) :
    drop.foldl (clearAt i) slot =
      if drop.any (clears i) then none else if drop.any (cuts i) then slot.map headerOnly else slot := by
  induction drop generalizing slot with
  | nil => simp
  | cons e drop ih =>
      rw [List.foldl_cons, ih, clearAt_eq, List.any_cons, List.any_cons]
      cases hclears : clears i e with
      | true => simp
      | false =>
          cases hcuts : cuts i e with
          | true => cases slot <;> simp [headerOnly_headerOnly]
          | false => simp

theorem foldl_clearEntry (drop : List ConfigEntry) (slots : List (Option Line)) :
    drop.foldl clearEntry slots = slots.mapIdx fun i slot => drop.foldl (clearAt i) slot := by
  induction drop generalizing slots with
  | nil =>
      refine List.ext_getElem? fun i => ?_
      simp
  | cons e drop ih =>
      rw [List.foldl_cons, ih]
      unfold clearEntry
      rw [List.mapIdx_mapIdx]
      rfl

theorem clearHeaders_eq (all drop : List ConfigEntry) (ls : List Line) :
    clearHeaders all drop (ls.map some) = ls.mapIdx fun i line => if headerGone all drop i then none else some line := by
  -- Clearing for a list of headers clears those of them that meet the condition.
  have hfold : ∀ (hs : List ℕ) (goes : ℕ → Bool) (slots : List (Option Line)) (i : ℕ),
      (hs.foldl (fun slots h => if goes h then slots.set h none else slots) slots)[i]? =
        slots[i]?.map fun slot => if i ∈ hs ∧ goes i = true then none else slot := by
    intro hs goes
    induction hs with
    | nil => simp
    | cons h hs ih =>
        intro slots i
        rw [List.foldl_cons, ih]
        cases hgoes : goes h with
        | false =>
            simp only [Bool.false_eq_true, if_false]
            congr 1
            funext slot
            by_cases hi : i = h
            · subst hi
              simp [hgoes]
            · simp [hi]
        | true =>
            simp only [if_true, List.getElem?_set]
            by_cases hi : h = i
            · subst hi
              by_cases hlt : h < slots.length
              · simp [hlt, hgoes]
              · simp [hlt]
            · have hne : i ≠ h := fun heq => hi heq.symm
              simp [hi, hne]
  refine List.ext_getElem? fun i => ?_
  unfold clearHeaders
  rw [hfold, List.getElem?_map, List.getElem?_mapIdx]
  cases hline : ls[i]? with
  | none => rfl
  | some line =>
      simp only [Option.map_some]
      congr 1
      have hsame : (i ∈ drop.filterMap ConfigEntry.header ∧
          ((all.filter fun e => e.header == some i).all fun e => drop.contains e) = true) ↔
          headerGone all drop i = true := by
        unfold headerGone
        rw [Bool.and_eq_true, List.mem_filterMap, List.any_eq_true, List.all_eq_true, List.all_eq_true]
        refine and_congr (exists_congr fun e => and_congr_right fun _ => by rw [beq_iff_eq]) ⟨?_, ?_⟩
        · intro h e he
          by_cases hheader : e.header = some i
          · have hdropped := h e (List.mem_filter.mpr ⟨he, by simp [hheader]⟩)
            rw [hdropped, Bool.or_true]
          · simp [hheader]
        · intro h e he
          obtain ⟨hmem, hheader⟩ := List.mem_filter.mp he
          have hor := h e hmem
          simpa [eq_of_beq hheader] using hor
      simp only [hsame]

theorem reduceOption_mapIdx (all drop : List ConfigEntry) (i : ℕ) (ls : List Line) :
    (ls.mapIdx fun j line => slotOf all drop (i + j) line).reduceOption = remaining all drop i ls := by
  induction ls generalizing i with
  | nil => rfl
  | cons line rest ih =>
      rw [List.mapIdx_cons, remaining, ← ih (i + 1)]
      have hshift : (rest.mapIdx fun j line => slotOf all drop (i + (j + 1)) line) =
          rest.mapIdx fun j line => slotOf all drop (i + 1 + j) line := by
        congr 1
        funext j line
        congr 1
        omega
      rw [hshift]
      cases slotOf all drop (i + 0) line <;> rfl

/-- **What is written** is what is left of each line. -/
theorem slots_eq (all drop : List ConfigEntry) (ls : List Line) :
    drop.foldl clearEntry (clearHeaders all drop (ls.map some)) = ls.mapIdx (slotOf all drop) := by
  rw [foldl_clearEntry, clearHeaders_eq, List.mapIdx_mapIdx]
  congr 1
  funext i line
  show drop.foldl (clearAt i) (if headerGone all drop i then none else some line) = _
  rw [foldl_clearAt]
  unfold slotOf
  cases headerGone all drop i with
  | true => simp
  | false =>
      cases drop.any (clears i) with
      | true => simp
      | false => simp

theorem rewrite_eq (text : Line) (drop : List ConfigEntry) :
    rewrite text drop = joinLines text (remaining (parseConfig text) drop 0 (lines text)) := by
  unfold rewrite
  simp only [slots_eq]
  rw [← reduceOption_mapIdx]
  simp only [Nat.zero_add]

/-! ## What is left of some lines -/

theorem remaining_append (all drop : List ConfigEntry) (i : ℕ) (ls ls' : List Line) :
    remaining all drop i (ls ++ ls') = remaining all drop i ls ++ remaining all drop (i + ls.length) ls' := by
  induction ls generalizing i with
  | nil => rfl
  | cons line rest ih =>
      rw [List.cons_append, remaining, remaining, ih, List.append_assoc, List.length_cons]
      congr 3
      omega

theorem remaining_self {all drop : List ConfigEntry} {i : ℕ} {ls : List Line}
    (h : ∀ j line, i ≤ j → j < i + ls.length → slotOf all drop j line = some line) : remaining all drop i ls = ls := by
  induction ls generalizing i with
  | nil => rfl
  | cons line rest ih =>
      rw [List.length_cons] at h
      rw [remaining, h i line (Nat.le_refl i) (by omega), ih fun j l hle hlt => h j l (by omega) (by omega)]
      rfl

theorem remaining_nothing {all drop : List ConfigEntry} {i : ℕ} {ls : List Line}
    (h : ∀ j line, i ≤ j → j < i + ls.length → slotOf all drop j line = none) : remaining all drop i ls = [] := by
  induction ls generalizing i with
  | nil => rfl
  | cons line rest ih =>
      rw [List.length_cons] at h
      rw [remaining, h i line (Nat.le_refl i) (by omega), ih fun j l hle hlt => h j l (by omega) (by omega)]
      rfl

/-! ## One line with its continuations -/

/-- Where the dropped entries are, seen from the line that is read next: among the entries still to read, or before. -/
def Placed (drop : List ConfigEntry) (i : ℕ) (here : List ConfigEntry) : Prop :=
  ∀ e ∈ drop, e ∈ here ∨ e.end_ ≤ i ∧ ∀ h, e.header = some h → h < i

section

variable {all drop : List ConfigEntry} {sec : Line} {header : Option ℕ} {i : ℕ} {line : Line} {rest : List Line}

/-- The dropped entries, seen from one line: its own, one behind it, or one before it. -/
theorem Placed.cases (h : Placed drop i (parseLines sec header i 0 (line :: rest))) {e : ConfigEntry} (he : e ∈ drop) :
    entryOn sec header i line rest = some e ∨
      ReadFrom ((opening line).headerAt i header) (i + 1 + more line rest)
        (i + 1 + more line rest + (rest.drop (more line rest)).length) e ∨
      e.end_ ≤ i ∧ ∀ h, e.header = some h → h < i := by
  rcases h e he with hhere | hbefore
  · rw [parseLines_cons, List.mem_append, Option.mem_toList] at hhere
    rcases hhere with hown | hbehind
    · exact .inl hown
    · exact .inr (.inl (mem_parseLines hbehind))
  · exact .inr (.inr hbefore)

theorem Placed.behind (h : Placed drop i (parseLines sec header i 0 (line :: rest)))
    (hheader : ∀ k, header = some k → k < i) :
    Placed drop (i + 1 + more line rest)
      (parseLines ((opening line).sec sec) ((opening line).headerAt i header) (i + 1 + more line rest) 0
        (rest.drop (more line rest))) := by
  intro e he
  rcases h e he with hhere | ⟨hend, hbefore⟩
  · rw [parseLines_cons, List.mem_append, Option.mem_toList] at hhere
    rcases hhere with hown | hbehind
    · obtain ⟨-, hend, hat, -⟩ := entryOn_readFrom hown
      refine .inr ⟨hend.le, fun k hk => ?_⟩
      rw [hat] at hk
      cases hopen : opening line with
      | header name body =>
          rw [hopen] at hk
          cases hk
          omega
      | unclosed =>
          rw [hopen] at hk
          have := hheader k hk
          omega
      | plain body =>
          rw [hopen] at hk
          have := hheader k hk
          omega
    · exact .inl hbehind
  · exact .inr ⟨by omega, fun k hk => by have := hbefore k hk; omega⟩

theorem headerAt_lt (hheader : ∀ k, header = some k → k < i) (n : ℕ) :
    ∀ k, (opening line).headerAt i header = some k → k < i + 1 + n := by
  intro k hk
  cases hopen : opening line with
  | header name body =>
      rw [hopen] at hk
      cases hk
      omega
  | unclosed =>
      rw [hopen] at hk
      have := hheader k hk
      omega
  | plain body =>
      rw [hopen] at hk
      have := hheader k hk
      omega

/-- No header goes among the lines that continue a line. -/
theorem Placed.not_gone (h : Placed drop i (parseLines sec header i 0 (line :: rest)))
    (hheader : ∀ k, header = some k → k < i) {j : ℕ} (hlt : i < j) (hle : j < i + 1 + more line rest) :
    headerGone all drop j = false := by
  unfold headerGone
  rw [Bool.and_eq_false_iff]
  left
  rw [List.any_eq_false]
  intro e he hat
  have hat := eq_of_beq hat
  have hbound := @headerAt_lt header i line hheader 0
  rcases h.cases he with hown | hbehind | ⟨-, hbefore⟩
  · rw [(entryOn_readFrom hown).2.2.1] at hat
    have := hbound j hat
    omega
  · rcases hbehind.header with hsame | ⟨k, hk, hfrom, -⟩
    · rw [hsame] at hat
      have := hbound j hat
      omega
    · rw [hat] at hk
      cases hk
      omega
  · have := hbefore j hat
    omega

/-- A line that is no header is not taken for one. -/
theorem Placed.not_gone_plain (h : Placed drop i (parseLines sec header i 0 (line :: rest)))
    (hheader : ∀ k, header = some k → k < i) (hplain : (opening line).isHeader = false) :
    headerGone all drop i = false := by
  have hsame : (opening line).headerAt i header = header := by
    cases hopen : opening line with
    | header name body =>
        rw [hopen] at hplain
        cases hplain
    | _ => rfl
  unfold headerGone
  rw [Bool.and_eq_false_iff]
  left
  rw [List.any_eq_false]
  intro e he hat
  have hat := eq_of_beq hat
  rcases h.cases he with hown | hbehind | ⟨-, hbefore⟩
  · rw [(entryOn_readFrom hown).2.2.1, hsame] at hat
    exact absurd (hheader i hat) (Nat.lt_irrefl i)
  · rcases hbehind.header with hheld | ⟨k, hk, hfrom, -⟩
    · rw [hheld, hsame] at hat
      exact absurd (hheader i hat) (Nat.lt_irrefl i)
    · rw [hat] at hk
      cases hk
      omega
  · exact absurd (hbefore i hat) (Nat.lt_irrefl i)

/-- Only the entry on a line and its continuations clears any of them. -/
theorem Placed.clears_iff (h : Placed drop i (parseLines sec header i 0 (line :: rest))) {j : ℕ} (hle : i ≤ j)
    (hlt : j < i + 1 + more line rest) :
    drop.any (clears j) = true ↔ ∃ e ∈ drop, entryOn sec header i line rest = some e ∧
      ¬ ((opening line).isHeader = true ∧ j = i) := by
  rw [List.any_eq_true]
  refine exists_congr fun e => and_congr_right fun he => ?_
  unfold clears
  rw [Bool.and_eq_true, decide_eq_true_eq, Bool.not_eq_true', Bool.and_eq_false_iff]
  rcases h.cases he with hown | hbehind | ⟨hend, -⟩
  · obtain ⟨hstart, hend, -, hinline, -⟩ := entryOn_readFrom hown
    rw [hinline, hstart, hend]
    constructor
    · rintro ⟨-, hnot⟩
      refine ⟨hown, ?_⟩
      rintro ⟨htrue, rfl⟩
      simp [htrue] at hnot
    · rintro ⟨-, hnot⟩
      refine ⟨⟨hle, hlt⟩, ?_⟩
      cases hopen : (opening line).isHeader with
      | false => exact .inl rfl
      | true =>
          right
          simpa using fun hj => hnot ⟨hopen, hj⟩
  · have hstart := hbehind.start
    constructor
    · rintro ⟨⟨hspan, -⟩, -⟩
      omega
    · rintro ⟨hown, -⟩
      have := (entryOn_readFrom hown).1
      omega
  · constructor
    · rintro ⟨⟨-, hspan⟩, -⟩
      omega
    · rintro ⟨hown, -⟩
      have := (entryOn_readFrom hown).2.1
      omega

/-- Only a header's own entry cuts it. -/
theorem Placed.cuts_iff (h : Placed drop i (parseLines sec header i 0 (line :: rest))) {j : ℕ} (hle : i ≤ j)
    (hlt : j < i + 1 + more line rest) :
    drop.any (cuts j) = true ↔ ∃ e ∈ drop, entryOn sec header i line rest = some e ∧
      (opening line).isHeader = true ∧ j = i := by
  rw [List.any_eq_true]
  refine exists_congr fun e => and_congr_right fun he => ?_
  unfold cuts
  rw [Bool.and_eq_true, decide_eq_true_eq, Bool.and_eq_true, beq_iff_eq]
  rcases h.cases he with hown | hbehind | ⟨hend, -⟩
  · obtain ⟨hstart, hend, -, hinline, -⟩ := entryOn_readFrom hown
    rw [hinline, hstart, hend]
    constructor
    · rintro ⟨-, hheader, hj⟩
      exact ⟨hown, hheader, hj⟩
    · rintro ⟨-, hheader, hj⟩
      exact ⟨⟨hle, hlt⟩, hheader, hj⟩
  · have hstart := hbehind.start
    constructor
    · rintro ⟨⟨hspan, -⟩, -⟩
      omega
    · rintro ⟨hown, -⟩
      have := (entryOn_readFrom hown).1
      omega
  · constructor
    · rintro ⟨⟨-, hspan⟩, -⟩
      omega
    · rintro ⟨hown, -⟩
      have := (entryOn_readFrom hown).2.1
      omega

/-- What is left of a line and its continuations, where no entry of theirs is dropped. -/
theorem Placed.remaining_kept (h : Placed drop i (parseLines sec header i 0 (line :: rest)))
    (hheader : ∀ k, header = some k → k < i) (hkept : ∀ e ∈ drop, entryOn sec header i line rest ≠ some e) :
    remaining all drop i (line :: rest) =
      (if headerGone all drop i then [] else [line]) ++ (rest.take (more line rest) ++
        remaining all drop (i + 1 + more line rest) (rest.drop (more line rest))) := by
  have hlen : (rest.take (more line rest)).length = more line rest := by
    rw [List.length_take, min_eq_left (more_le line rest)]
  have hslot : ∀ j l, i ≤ j → j < i + 1 + more line rest →
      slotOf all drop j l = if headerGone all drop j then none else some l := by
    intro j l hle hlt
    have hclears : drop.any (clears j) = false := by
      rw [Bool.eq_false_iff, ne_eq, h.clears_iff hle hlt]
      rintro ⟨e, he, hown, -⟩
      exact hkept e he hown
    have hcuts : drop.any (cuts j) = false := by
      rw [Bool.eq_false_iff, ne_eq, h.cuts_iff hle hlt]
      rintro ⟨e, he, hown, -⟩
      exact hkept e he hown
    unfold slotOf
    rw [hclears, hcuts, Bool.or_false]
    rfl
  have hmore : remaining all drop (i + 1) (rest.take (more line rest)) = rest.take (more line rest) := by
    refine remaining_self fun j l hle hlt => ?_
    rw [hlen] at hlt
    rw [hslot j l (by omega) (by omega), h.not_gone hheader (by omega) (by omega)]
    rfl
  rw [remaining, hslot i line (Nat.le_refl i) (by omega)]
  congr 1
  · split <;> rfl
  · nth_rewrite 1 [← List.take_append_drop (more line rest) rest]
    rw [remaining_append, hmore, hlen]

/-- What is left of a line and its continuations, where their entry is dropped. -/
theorem Placed.remaining_dropped (h : Placed drop i (parseLines sec header i 0 (line :: rest))) {e : ConfigEntry}
    (he : e ∈ drop) (hown : entryOn sec header i line rest = some e) :
    remaining all drop i (line :: rest) =
      (if (opening line).isHeader && !headerGone all drop i then [headerOnly line] else []) ++
        remaining all drop (i + 1 + more line rest) (rest.drop (more line rest)) := by
  have hlen : (rest.take (more line rest)).length = more line rest := by
    rw [List.length_take, min_eq_left (more_le line rest)]
  have hmore : remaining all drop (i + 1) (rest.take (more line rest)) = [] := by
    refine remaining_nothing fun j l hle hlt => ?_
    rw [hlen] at hlt
    have hclears : drop.any (clears j) = true :=
      (h.clears_iff (by omega) (by omega)).mpr ⟨e, he, hown, fun hj => by omega⟩
    unfold slotOf
    rw [hclears, Bool.or_true]
    rfl
  have hfirst : (slotOf all drop i line).toList =
      if (opening line).isHeader && !headerGone all drop i then [headerOnly line] else [] := by
    unfold slotOf
    cases hopen : (opening line).isHeader with
    | true =>
        have hclears : drop.any (clears i) = false := by
          rw [Bool.eq_false_iff, ne_eq, h.clears_iff (Nat.le_refl i) (by omega)]
          rintro ⟨e', -, -, hnot⟩
          exact hnot ⟨hopen, rfl⟩
        have hcuts : drop.any (cuts i) = true :=
          (h.cuts_iff (Nat.le_refl i) (by omega)).mpr ⟨e, he, hown, hopen, rfl⟩
        rw [hclears, hcuts]
        cases headerGone all drop i <;> rfl
    | false =>
        have hclears : drop.any (clears i) = true :=
          (h.clears_iff (Nat.le_refl i) (by omega)).mpr ⟨e, he, hown, fun hj => by rw [hopen] at hj; cases hj.1⟩
        rw [hclears]
        cases headerGone all drop i <;> rfl
  rw [remaining, hfirst]
  congr 1
  nth_rewrite 1 [← List.take_append_drop (more line rest) rest]
  rw [remaining_append, hmore, hlen]
  rfl

end

end AgentRuntime.Shell
