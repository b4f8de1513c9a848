import AgentRuntime.Shell.ConfigRevert
import Mathlib

/-!
# `Shell.ConfigExact` — the rewrite removes exactly what it reports

Reading goes on in the same section, or in one whose header is gone with all of its entries; so the entries that are kept
are read again, in order, with those of the orphaned lines between them (`remaining_reads`). Counting them gives the
condition under which there are no others (`config_rewrite_iff`).
-/

namespace AgentRuntime.Shell

open Text

/-- The keys and values of some entries. -/
def pairs (es : List ConfigEntry) : List (Line × Line) := es.map ConfigEntry.pair

/-- How many entries the orphaned lines hold. -/
def orphaned (os : List (List Line)) : ℕ := (os.map fun o => (parseLines [] none 0 0 o).length).sum

theorem pairs_append (es es' : List ConfigEntry) : pairs (es ++ es') = pairs es ++ pairs es' := List.map_append

/-- An entry's key and value depend on the section alone. -/
theorem pairs_entryOn {sec sec' : Line} {line : Line} (hsec : (opening line).sec sec = (opening line).sec sec')
    (header header' : Option ℕ) (i i' : ℕ) (rest : List Line) :
    pairs (entryOn sec header i line rest).toList = pairs (entryOn sec' header' i' line rest).toList := by
  unfold entryOn entryAt
  rw [hsec]
  cases keyValue (joinedLine line rest) <;> rfl

theorem entryOn_isNone {sec : Line} {header : Option ℕ} {i : ℕ} {line : Line} {rest : List Line} :
    (entryOn sec header i line rest) = none ↔ (keyValue (joinedLine line rest)).isNone = true := by
  unfold entryOn entryAt
  rw [Option.map_eq_none_iff, Option.isNone_iff_eq_none]

/-- **What is read of the lines that stay.** The kept entries in order, and those of the orphaned lines. -/
theorem remaining_reads {all drop : List ConfigEntry} {ls : List Line} {sec sec' : Line} {header header' : Option ℕ}
    {i i' : ℕ} (hall : ∀ e ∈ parseLines sec header i 0 ls, e ∈ all)
    (hplaced : Placed drop i (parseLines sec header i 0 ls)) (hheader : ∀ k, header = some k → k < i)
    (hsync : sec' = sec ∨ ∃ k, header = some k ∧ headerGone all drop k = true) :
    (pairs ((parseLines sec header i 0 ls).filter fun e => !drop.contains e)).Sublist
        (pairs (parseLines sec' header' i' 0 (remaining all drop i ls))) ∧
      (parseLines sec' header' i' 0 (remaining all drop i ls)).length =
        ((parseLines sec header i 0 ls).filter fun e => !drop.contains e).length +
          orphaned (orphans (headerGone all drop) i 0 ls) := by
  induction ls using lines_induction generalizing sec sec' header header' i i' with
  | nil => exact ⟨List.Sublist.refl _, rfl⟩
  | cons line rest ih =>
      have hbehind := hplaced.behind hheader
      have hbound := @headerAt_lt header i line hheader (more line rest)
      have hallBehind : ∀ e ∈ parseLines ((opening line).sec sec) ((opening line).headerAt i header)
          (i + 1 + more line rest) 0 (rest.drop (more line rest)), e ∈ all := by
        intro e he
        refine hall e ?_
        rw [parseLines_cons]
        exact List.mem_append_right _ he
      have hnothing : rest.drop (more line rest) = [] →
          remaining all drop (i + 1 + more line rest) (rest.drop (more line rest)) = [] := by
        intro hnil
        rw [hnil]
        rfl
      -- A kept line: its header opens the same section again, or nothing was left of the section before it.
      have hgone : headerGone all drop i = true → (opening line).isHeader = true := by
        intro hgone
        by_contra hplain
        rw [hplaced.not_gone_plain hheader (eq_false_of_ne_true hplain)] at hgone
        cases hgone
      have hgoneAt : headerGone all drop i = true →
          ∃ k, (opening line).headerAt i header = some k ∧ headerGone all drop k = true := by
        intro hi
        have hopen := hgone hi
        cases hline : opening line with
        | header name body => exact ⟨i, rfl, hi⟩
        | unclosed =>
            rw [hline] at hopen
            cases hopen
        | plain body =>
            rw [hline] at hopen
            cases hopen
      have hsyncBehind : (opening line).sec sec' = (opening line).sec sec ∨
          ∃ k, (opening line).headerAt i header = some k ∧ headerGone all drop k = true := by
        cases opening line with
        | header name body => exact .inl rfl
        | unclosed => exact hsync
        | plain body => exact hsync
      rw [parseLines_cons, List.filter_append, orphans_cons]
      cases hown : entryOn sec header i line rest with
      | none =>
          have hnone := entryOn_isNone.mp hown
          have hkept : ∀ e ∈ drop, entryOn sec header i line rest ≠ some e := by
            intro e _ h
            rw [hown] at h
            cases h
          rw [hplaced.remaining_kept hheader hkept, hnone]
          cases hi : headerGone all drop i with
          | true =>
              -- The header goes, and what continued it is read on its own.
              have hopen := hgone hi
              obtain ⟨sec'', header'', hread⟩ : ∃ sec'' header'', parseLines sec' header' i' 0
                  (rest.take (more line rest) ++ remaining all drop (i + 1 + more line rest) (rest.drop (more line rest))) =
                  parseLines sec' header' i' 0 (rest.take (more line rest)) ++
                    parseLines sec'' header'' (i' + (rest.take (more line rest)).length) 0
                      (remaining all drop (i + 1 + more line rest) (rest.drop (more line rest))) := by
                by_cases hend : rest.drop (more line rest) = []
                · refine ⟨sec', header', ?_⟩
                  rw [hnothing hend, List.append_nil]
                  simp [parseLines]
                · refine @parseLines_behind (opening line).body _ _ _ hend ?_ sec' header' i'
                  rw [List.take_append_drop, List.length_take, min_eq_left (more_le line rest)]
                  rfl
              obtain ⟨hsub, hlen⟩ := @ih _ sec'' _ header'' _ (i' + (rest.take (more line rest)).length) hallBehind
                hbehind hbound (.inr (hgoneAt hi))
              have hsame := parseLines_length sec' [] header' none i' 0 (rest.take (more line rest))
              rw [if_pos rfl, List.nil_append, hread, hopen]
              simp only [Option.toList_none, List.filter_nil, List.nil_append, pairs_append, List.length_append, hlen,
                Bool.and_self, if_true, List.singleton_append, orphaned, List.map_cons, List.sum_cons, hsame]
              refine ⟨hsub.trans (List.sublist_append_right _ _), ?_⟩
              omega
          | false =>
              obtain ⟨hsub, hlen⟩ := @ih _ ((opening line).sec sec') _ ((opening line).headerAt i' header') _
                (i' + 1 + more line rest) hallBehind hbehind hbound hsyncBehind
              have hown' : entryOn sec' header' i' line rest = none := entryOn_isNone.mpr hnone
              rw [if_neg Bool.false_ne_true, List.singleton_append, parseLines_block _ _ _ _ _ _ hnothing, hown']
              simp only [Bool.and_false, Bool.false_and, Option.toList_none, List.nil_append, List.filter_nil]
              exact ⟨hsub, hlen⟩
      | some e =>
          have hsome : (keyValue (joinedLine line rest)).isNone = false := by
            rw [Bool.eq_false_iff, ne_eq, ← @entryOn_isNone sec header i, hown]
            simp
          have hmem : e ∈ all := by
            refine hall e ?_
            rw [parseLines_cons, hown]
            exact List.mem_append_left _ (List.mem_singleton_self e)
          rw [hsome]
          simp only [Bool.and_false, Bool.false_eq_true, if_false, List.nil_append, Option.toList_some]
          cases hdropped : drop.contains e with
          | true =>
              have he : e ∈ drop := List.contains_iff_mem.mp hdropped
              have hfilter : [e].filter (fun e => !drop.contains e) = [] := by
                rw [List.filter_cons, hdropped]
                rfl
              rw [hplaced.remaining_dropped he hown, hfilter, List.nil_append]
              cases hcut : (opening line).isHeader && !headerGone all drop i with
              | true =>
                  -- The header stays without the key behind it.
                  obtain ⟨hopen, -⟩ := Bool.and_eq_true_iff.mp hcut
                  cases hline : opening line with
                  | header name body =>
                      have honly := opening_headerOnly hline
                      rw [hline] at hallBehind hbehind hbound
                      obtain ⟨hsub, hlen⟩ := @ih _ name _ (some i') _ (i' + 1) hallBehind hbehind hbound (.inl rfl)
                      have hblank : ∀ ls, continued [] ls = ([], 0) := fun ls => by cases ls <;> rfl
                      rw [if_pos rfl, List.singleton_append, parseLines_cons]
                      unfold entryOn more joinedLine
                      rw [honly]
                      simp only [Opening.body, hblank]
                      exact ⟨hsub, hlen⟩
                  | unclosed =>
                      rw [hline] at hopen
                      cases hopen
                  | plain body =>
                      rw [hline] at hopen
                      cases hopen
              | false =>
                  rw [if_neg Bool.false_ne_true, List.nil_append]
                  refine ih hallBehind hbehind hbound ?_
                  rcases Bool.and_eq_false_iff.mp hcut with hplain | hi
                  · cases hline : opening line with
                    | header name body =>
                        rw [hline] at hplain
                        cases hplain
                    | unclosed => exact hsync
                    | plain body => exact hsync
                  · exact .inr (hgoneAt (by simpa using hi))
          | false =>
              have hnot : e ∉ drop := fun he => by
                rw [List.contains_iff_mem.mpr he] at hdropped
                cases hdropped
              have hkept : ∀ e' ∈ drop, entryOn sec header i line rest ≠ some e' := by
                intro e' he' h
                rw [hown] at h
                cases h
                exact hnot he'
              have hat := (entryOn_readFrom hown).2.2.1
              -- The section of a kept entry is not gone.
              have hstays : ∀ k, e.header = some k → headerGone all drop k = false := by
                intro k hk
                unfold headerGone
                rw [Bool.and_eq_false_iff]
                right
                rw [List.all_eq_false]
                refine ⟨e, hmem, ?_⟩
                rw [hk, hdropped]
                simp
              have hi : headerGone all drop i = false := by
                rw [Bool.eq_false_iff]
                intro hi
                obtain ⟨k, hk, hgonek⟩ := hgoneAt hi
                rw [hstays k (hat.trans hk)] at hgonek
                cases hgonek
              have hsec : (opening line).sec sec' = (opening line).sec sec := by
                rcases hsyncBehind with hsec | ⟨k, hk, hgonek⟩
                · exact hsec
                · rw [hstays k (hat.trans hk)] at hgonek
                  cases hgonek
              obtain ⟨hsub, hlen⟩ := @ih _ ((opening line).sec sec') _ ((opening line).headerAt i' header') _
                (i' + 1 + more line rest) hallBehind hbehind hbound hsyncBehind
              have hfilter : [e].filter (fun e => !drop.contains e) = [e] := by
                rw [List.filter_cons, hdropped]
                rfl
              have hpair := pairs_entryOn hsec header' header i' i rest
              rw [hplaced.remaining_kept hheader hkept, hi, if_neg Bool.false_ne_true, List.singleton_append,
                parseLines_block _ _ _ _ _ _ hnothing, hfilter, pairs_append, pairs_append, hpair, hown, List.length_append,
                List.length_append, hlen]
              refine ⟨hsub.append_left _, ?_⟩
              have hone : (entryOn sec' header' i' line rest).toList.length = 1 := by
                have hlength := congrArg List.length hpair
                rw [hown] at hlength
                simpa [pairs] using hlength
              rw [hone]
              simp
              omega

/-! ## Reading the file again -/

/-- The lines of the written text: an empty last one is none, where no line feed follows it. -/
def reread (text : Line) (written : List Line) : List Line :=
  if text.getLast? ≠ some '\n' ∧ written.getLast? = some [] then written.dropLast else written

theorem not_mem_remaining {all drop : List ConfigEntry} {i : ℕ} {ls : List Line} (h : ∀ l ∈ ls, '\n' ∉ l) :
    ∀ l ∈ remaining all drop i ls, '\n' ∉ l := by
  induction ls generalizing i with
  | nil => exact fun l hl => absurd hl List.not_mem_nil
  | cons line rest ih =>
      obtain ⟨hline, hrest⟩ := List.forall_mem_cons.mp h
      intro l hl
      rcases List.mem_append.mp hl with hl | hl
      · rw [Option.mem_toList] at hl
        unfold slotOf at hl
        split at hl
        · cases hl
        · split at hl
          · cases hl
            exact fun hmem => hline (mem_headerOnly hmem)
          · cases hl
            exact hline
      · exact ih hrest l hl

/-- What is read of the written text is what is read of the lines that were written. -/
theorem parseConfig_joinLines (text : Line) {written : List Line} (h : ∀ l ∈ written, '\n' ∉ l) :
    parseConfig (joinLines text written) = parseLines [] none 0 0 (reread text written) := by
  have hreturns : ∀ ls rest : List Line,
      parseLines [] none 0 0 (ls.map withoutReturn ++ rest) = parseLines [] none 0 0 (ls ++ rest) := by
    intro ls rest
    refine parseLines_congr ?_ [] none 0 0
    refine List.rel_append ?_ (List.forall₂_same.mpr fun _ _ => rfl)
    exact List.forall₂_map_left_iff.mpr (List.forall₂_same.mpr fun l _ => trim_withoutReturn l)
  unfold parseConfig joinLines reread
  rcases List.eq_nil_or_concat written with rfl | ⟨ls, last, rfl⟩
  · by_cases hfeed : text.getLast? = some '\n'
    · rw [if_pos hfeed, if_neg (by simp [hfeed])]
      rfl
    · rw [if_neg hfeed, if_neg (by simp)]
      rfl
  · rw [List.concat_eq_append] at h ⊢
    have hls : ∀ l ∈ ls, '\n' ∉ l := fun l hl => h l (List.mem_append_left _ hl)
    have hlast : '\n' ∉ last := h last (by simp)
    rw [intercalate_concat, List.getLast?_concat, List.dropLast_concat]
    by_cases hfeed : text.getLast? = some '\n'
    · have hterminated := @lines_terminated_append (ls ++ [last]) [] h (by simp)
      rw [List.flatMap_append, List.flatMap_singleton, List.append_nil, if_pos rfl, List.append_nil] at hterminated
      rw [if_pos hfeed, if_neg (by simp [hfeed]), List.append_assoc, hterminated]
      have hsame := hreturns (ls ++ [last]) []
      rwa [List.append_nil, List.append_nil] at hsame
    · rw [if_neg hfeed, List.append_nil, lines_terminated_append hls hlast, hreturns]
      cases last with
      | nil => rw [if_pos rfl, if_pos ⟨hfeed, rfl⟩, List.append_nil]
      | cons c last => rw [if_neg (List.cons_ne_nil c last), if_neg (by simp)]

/-- A line that a backslash ends says something if the line without it does. -/
theorem keyValue_backslash {joined : Line} (h : keyValue joined ≠ none) : keyValue (joined ++ ['\\']) ≠ none := by
  obtain ⟨before, after, hsplit, hbefore, -⟩ := trim_decomp joined
  unfold keyValue at h
  split at h
  · exact absurd rfl h
  · rename_i first rest htrim
    split at h
    · exact absurd rfl h
    · rename_i hfirst
      have htrimmed : trim (joined ++ ['\\']) = first :: (rest ++ after ++ ['\\']) := by
        have hself : trim (first :: (rest ++ after ++ ['\\'])) = first :: (rest ++ after ++ ['\\']) := by
          refine trim_eq_self ?_ ?_
          · intro c hc
            cases hc
            exact @trim_head joined _ (by rw [htrim]; rfl)
          · intro c hc
            rw [← List.cons_append, List.getLast?_concat] at hc
            cases hc
            decide
        have hspace := @trim_append before (first :: (rest ++ after ++ ['\\'])) [] hbefore (by simp)
        rw [List.append_nil, hself] at hspace
        rw [← hspace]
        congr 1
        rw [hsplit, htrim]
        simp
      unfold keyValue
      rw [htrimmed]
      simp only [hfirst, if_false]
      simp

/-- An empty line at the end adds no entry. -/
theorem parseLines_blank (sec : Line) (header : Option ℕ) (i : ℕ) (ls : List Line) :
    (parseLines sec header i 0 (ls ++ [[]])).length ≤ (parseLines sec header i 0 ls).length := by
  induction ls using lines_induction generalizing sec header i with
  | nil => exact Nat.le_refl 0
  | cons line rest ih =>
      by_cases hend : rest.drop (more line rest) = []
      · -- The line goes on to the end, and the empty line continues it or stands alone.
        have hall : more line rest = rest.length := le_antisymm (more_le line rest) (List.drop_eq_nil_iff.mp hend)
        have hblank : ∀ (body : Line) (ls : List Line), (continued body ls).2 = ls.length →
            continued body (ls ++ [[]]) = continued body ls ∨
              ∃ joined, continued body ls = (joined ++ ['\\'], ls.length) ∧
                continued body (ls ++ [[]]) = (joined, ls.length + 1) := by
          intro body ls hls
          induction ls generalizing body with
          | nil =>
              by_cases hgoes : body.getLast? = some '\\'
              · right
                obtain ⟨joined, rfl⟩ := List.getLast?_eq_some_iff.mp hgoes
                refine ⟨joined, rfl, ?_⟩
                rw [List.nil_append, continued, if_pos hgoes, List.dropLast_concat]
                simp only [show trim [] = ([] : Line) from rfl, List.append_nil]
                cases joined <;> rfl
              · left
                show continued body [[]] = (body, 0)
                rw [continued, if_neg hgoes]
          | cons l ls ih =>
              rw [continued] at hls
              split at hls
              · rename_i hgoes
                rw [List.cons_append, continued, if_pos hgoes, continued, if_pos hgoes]
                rcases ih _ (Nat.succ.inj hls) with hsame | ⟨joined, hjoined, hlonger⟩
                · left
                  rw [hsame]
                · right
                  refine ⟨joined, ?_, ?_⟩
                  · rw [hjoined]
                    rfl
                  · rw [hlonger]
                    rfl
              · cases hls
        rw [List.cons_append, parseLines_cons, parseLines_cons, hend]
        rcases hblank (opening line).body rest hall with hsame | ⟨joined, hjoined, hlonger⟩
        · have hmore : more line (rest ++ [[]]) = more line rest := congrArg Prod.snd hsame
          have hline : joinedLine line (rest ++ [[]]) = joinedLine line rest := congrArg Prod.fst hsame
          unfold entryOn
          rw [hmore, hline, hall, List.drop_left]
          exact Nat.le_refl _
        · have hmore : more line (rest ++ [[]]) = rest.length + 1 := congrArg Prod.snd hlonger
          have hdrop : (rest ++ [[]]).drop (rest.length + 1) = ([] : List Line) := List.drop_eq_nil_iff.mpr (by simp)
          rw [hmore, hdrop]
          simp only [parseLines, List.append_nil]
          unfold entryOn entryAt joinedLine
          rw [hjoined, hlonger]
          simp only
          have hmonotone := @keyValue_backslash joined
          cases hkv : keyValue joined with
          | none => exact Nat.zero_le _
          | some kv =>
              cases hkv' : keyValue (joined ++ ['\\']) with
              | none => exact absurd hkv' (hmonotone (by rw [hkv]; simp))
              | some kv' => exact Nat.le_refl _
      · -- The line is over before the end.
        have hsplit : rest ++ [[]] = rest.take (more line rest) ++ (rest.drop (more line rest) ++ [[]]) := by
          rw [← List.append_assoc, List.take_append_drop]
        have hleft := parseLines_block sec header i line rest (rest.drop (more line rest) ++ [[]])
          (fun h => absurd h hend)
        rw [List.cons_append, hsplit, hleft, parseLines_cons, List.length_append, List.length_append]
        exact Nat.add_le_add_left (ih _ _ _) _

/-! ## Dropping again -/

theorem dropped_subset {kept : List (Line × Line)} {es : List ConfigEntry} : ∀ e ∈ dropped kept es, e ∈ es := by
  induction es generalizing kept with
  | nil => exact fun e he => absurd he List.not_mem_nil
  | cons first rest ih =>
      intro e he
      rw [dropped] at he
      split at he
      · exact List.mem_cons_of_mem _ (ih e he)
      · split at he
        · exact List.mem_cons_of_mem _ (ih e he)
        · rcases List.mem_cons.mp he with rfl | he
          · exact List.mem_cons_self ..
          · exact List.mem_cons_of_mem _ (ih e he)

/-- What is kept is kept again. -/
theorem dropped_kept {kept : List (Line × Line)} {es es' : List ConfigEntry} (hnodup : es.Nodup)
    (h : pairs es' = pairs (es.filter fun e => !(dropped kept es).contains e)) : dropped kept es' = [] := by
  induction es generalizing kept es' with
  | nil =>
      rw [List.map_eq_nil_iff.mp h]
      rfl
  | cons e rest ih =>
      obtain ⟨hnew, hnodup⟩ := List.nodup_cons.mp hnodup
      -- Dropping the first entry or not, the others are dropped as they would be without it.
      have hrest : ∀ D : List ConfigEntry, (rest.filter fun e' => !(e :: D).contains e') = rest.filter fun e' => !D.contains e' := by
        intro D
        refine List.filter_congr fun e' he' => ?_
        have hne : e' ≠ e := fun heq => hnew (heq ▸ he')
        simp [hne]
      have hkept : ∀ D : List ConfigEntry, (∀ e' ∈ D, e' ∈ rest) →
          ((e :: rest).filter fun e' => !D.contains e') = e :: rest.filter fun e' => !D.contains e' := by
        intro D hD
        have hnot : D.contains e = false := by
          rw [Bool.eq_false_iff, ne_eq, List.contains_iff_mem]
          exact fun hmem => hnew (hD e hmem)
        rw [List.filter_cons, hnot]
        rfl
      rw [dropped] at h
      split at h
      · rename_i hharmless
        rw [hkept _ dropped_subset] at h
        obtain ⟨e', rest', rfl, hpair, hrest'⟩ := List.map_eq_cons_iff.mp h
        have hsame : e'.key = e.key ∧ e'.value = e.value := Prod.ext_iff.mp hpair
        rw [dropped, hsame.1, hsame.2, if_pos hharmless]
        exact ih hnodup hrest'
      · rename_i hrisky
        split at h
        · rename_i hmem
          rw [hkept _ dropped_subset] at h
          obtain ⟨e', rest', rfl, hpair, hrest'⟩ := List.map_eq_cons_iff.mp h
          have hsame : e'.key = e.key ∧ e'.value = e.value := Prod.ext_iff.mp hpair
          rw [dropped, hsame.1, hsame.2, if_neg hrisky, if_pos (hpair ▸ hmem), hpair]
          exact ih hnodup hrest'
        · rename_i hnotMem
          have hgone : ((e :: rest).filter fun e' => !(e :: dropped kept rest).contains e') =
              rest.filter fun e' => !(dropped kept rest).contains e' := by
            rw [← hrest, List.filter_cons]
            simp only [List.contains_cons, beq_self_eq_true, Bool.true_or, Bool.not_true, Bool.false_eq_true, if_false]
          rw [hgone] at h
          exact ih hnodup h

theorem parseLines_nodup (sec : Line) (header : Option ℕ) (i : ℕ) (ls : List Line) :
    (parseLines sec header i 0 ls).Nodup := by
  induction ls using lines_induction generalizing sec header i with
  | nil => exact List.nodup_nil
  | cons line rest ih =>
      rw [parseLines_cons]
      cases hown : entryOn sec header i line rest with
      | none => exact ih _ _ _
      | some e =>
          refine List.nodup_cons.mpr ⟨?_, ih _ _ _⟩
          intro hmem
          have hstart := (mem_parseLines hmem).start
          have := (entryOn_readFrom hown).1
          omega

/-! ## The result -/

/-- A line of no dropped entry, and not a header whose entries were all dropped. -/
def Untouched (all drop : List ConfigEntry) (i : ℕ) : Prop :=
  (∀ e ∈ drop, ¬ (e.start ≤ i ∧ i < e.end_)) ∧ headerGone all drop i = false

/-- The untouched lines are written, in their places. -/
def KeepsLines (text new : Line) (all drop : List ConfigEntry) : Prop :=
  ∃ slots : List (Option Line), new = joinLines text slots.reduceOption ∧ slots.length = (lines text).length ∧
    ∀ i line, (lines text)[i]? = some line → Untouched all drop i → slots[i]? = some (some line)

/-- When the file is written: the entries read again are the others, the untouched lines are kept, and doing it again
    changes nothing. -/
def RemovesReported (risky : List (Line × Line)) (text : Line) : Prop :=
  ∀ new reported, revertConfig risky text = some (new, reported) →
    pairs (parseConfig new) = pairs ((parseConfig text).filter fun e => !reported.contains e) ∧
      KeepsLines text new (parseConfig text) reported ∧ revertConfig risky new = none

/-- Nothing that stays is read otherwise: no header goes whose comment goes on over lines that hold an entry; and the file
    ends in a line feed, or not in an empty line that an entry ends with. -/
def ReadsAlike (risky : List (Line × Line)) (text : Line) : Prop :=
  let all := parseConfig text
  let drop := dropped risky all
  let stays := remaining all drop 0 (lines text)
  drop ≠ [] →
    (∀ o ∈ orphans (headerGone all drop) 0 0 (lines text), parseLines [] none 0 0 o = []) ∧
      (text.getLast? ≠ some '\n' → stays.getLast? = some [] →
        pairs (parseLines [] none 0 0 stays.dropLast) = pairs (parseLines [] none 0 0 stays))

theorem keepsLines (text : Line) (drop : List ConfigEntry) :
    KeepsLines text (rewrite text drop) (parseConfig text) drop := by
  refine ⟨(lines text).mapIdx (slotOf (parseConfig text) drop), ?_, List.length_mapIdx, ?_⟩
  · rw [rewrite_eq, ← reduceOption_mapIdx]
    simp only [Nat.zero_add]
  · rintro i line hline ⟨hspans, hgone⟩
    have hclears : drop.any (clears i) = false := by
      rw [List.any_eq_false]
      intro e he
      unfold clears
      rw [decide_eq_false (hspans e he)]
      exact Bool.false_ne_true
    have hcuts : drop.any (cuts i) = false := by
      rw [List.any_eq_false]
      intro e he
      unfold cuts
      rw [decide_eq_false (hspans e he)]
      exact Bool.false_ne_true
    rw [List.getElem?_mapIdx, hline, Option.map_some]
    unfold slotOf
    rw [hgone, hclears, hcuts]
    rfl

/-- **The config rewrite.** It removes exactly what it reports precisely when what stays is read alike. -/
theorem config_rewrite_iff (risky : List (Line × Line)) (text : Line) :
    RemovesReported risky text ↔ ReadsAlike risky text := by
  have hrevert : ∀ new reported, revertConfig risky text = some (new, reported) ↔
      dropped risky (parseConfig text) ≠ [] ∧ new = rewrite text (dropped risky (parseConfig text)) ∧
        reported = dropped risky (parseConfig text) := by
    intro new reported
    unfold revertConfig
    cases hdrop : dropped risky (parseConfig text) with
    | nil => simp
    | cons e drop => simp [eq_comm]
  unfold RemovesReported ReadsAlike
  simp only
  set all := parseConfig text with hall
  set drop := dropped risky all with hdrop
  set stays := remaining all drop 0 (lines text) with hstays
  obtain ⟨hsub, hlen⟩ := @remaining_reads all drop (lines text) [] [] none none 0 0 (fun e he => he)
    (fun e he => .inl (dropped_subset e he)) (fun k hk => nomatch hk) (.inl rfl)
  have hparse : parseLines [] none 0 0 (lines text) = all := rfl
  rw [hparse, ← hstays] at hsub hlen
  have hread : parseConfig (rewrite text drop) = parseLines [] none 0 0 (reread text stays) := by
    rw [rewrite_eq]
    exact parseConfig_joinLines text (not_mem_remaining (not_mem_lines text))
  have horphaned : orphaned (orphans (headerGone all drop) 0 0 (lines text)) = 0 ↔
      ∀ o ∈ orphans (headerGone all drop) 0 0 (lines text), parseLines [] none 0 0 o = [] := by
    unfold orphaned
    rw [List.sum_eq_zero_iff_forall_eq_nat]
    simp only [List.mem_map, forall_exists_index, and_imp, forall_apply_eq_imp_iff₂, List.length_eq_zero_iff]
  have hpairs : ∀ es : List ConfigEntry, (pairs es).length = es.length := fun es => List.length_map _
  constructor
  · intro hexact hwritten
    obtain ⟨hsame, -, -⟩ := hexact _ _ ((hrevert _ _).mpr ⟨hwritten, rfl, rfl⟩)
    rw [hread] at hsame
    have hcount := congrArg List.length hsame
    rw [hpairs, hpairs] at hcount
    by_cases hblank : text.getLast? ≠ some '\n' ∧ stays.getLast? = some []
    · -- The empty line at the end is lost, which adds entries at most.
      unfold reread at hsame hcount
      rw [if_pos hblank] at hsame hcount
      have hsplit : stays.dropLast ++ [[]] = stays := List.dropLast_append_getLast? _ hblank.2
      have hle := parseLines_blank [] none 0 stays.dropLast
      rw [hsplit] at hle
      have hnone : orphaned (orphans (headerGone all drop) 0 0 (lines text)) = 0 := by
        omega
      refine ⟨horphaned.mp hnone, fun _ _ => ?_⟩
      rw [hsame]
      refine hsub.eq_of_length ?_
      rw [hpairs, hpairs]
      omega
    · unfold reread at hcount
      rw [if_neg hblank] at hcount
      have hnone : orphaned (orphans (headerGone all drop) 0 0 (lines text)) = 0 := by
        omega
      exact ⟨horphaned.mp hnone, fun hfeed hlast => absurd ⟨hfeed, hlast⟩ hblank⟩
  · intro halike new reported hnew
    obtain ⟨hwritten, rfl, rfl⟩ := (hrevert _ _).mp hnew
    obtain ⟨hnone, hblank⟩ := halike hwritten
    rw [horphaned.mpr hnone, Nat.add_zero] at hlen
    have hkept : pairs (all.filter fun e => !drop.contains e) = pairs (parseLines [] none 0 0 stays) := by
      refine hsub.eq_of_length ?_
      rw [hpairs, hpairs, hlen]
    have hsame : pairs (parseConfig (rewrite text drop)) = pairs (all.filter fun e => !drop.contains e) := by
      rw [hread, hkept]
      unfold reread
      split
      · rename_i hlost
        exact hblank hlost.1 hlost.2
      · rfl
    refine ⟨hsame, keepsLines text drop, ?_⟩
    have hagain : dropped risky (parseConfig (rewrite text drop)) = [] :=
      dropped_kept (parseLines_nodup [] none 0 (lines text)) hsame
    unfold revertConfig
    simp [hagain]

/-! ## A comment that goes on -/

namespace Continued

/-- An alias is added under a header whose comment ends in a backslash. -/
def text : Line := "[user]\n\tname = A\n[alias] # shortcuts \\\n\temail = evil\n\tco = !sh\n".toList

/-- The header goes with the alias, and the line that continued its comment is an entry of the section before it. -/
theorem rewrite_adds :
    pairs (parseConfig text) = [("user.name".toList, "A".toList), ("alias.co".toList, "!sh".toList)] ∧
      (revertConfig [] text).map (fun r => (pairs r.2, pairs (parseConfig r.1))) =
        some ([("alias.co".toList, "!sh".toList)],
          [("user.name".toList, "A".toList), ("user.email".toList, "evil".toList)]) ∧
      ¬ RemovesReported [] text := by
  have hread : pairs (parseConfig text) = [("user.name".toList, "A".toList), ("alias.co".toList, "!sh".toList)] := by
    decide +kernel
  have hrevert : (revertConfig [] text).map (fun r => (pairs r.2, pairs (parseConfig r.1))) =
      some ([("alias.co".toList, "!sh".toList)],
        [("user.name".toList, "A".toList), ("user.email".toList, "evil".toList)]) := by
    decide +kernel
  refine ⟨hread, hrevert, ?_⟩
  intro hexact
  obtain ⟨⟨new, reported⟩, hrun, hpairs⟩ := Option.map_eq_some_iff.mp hrevert
  obtain ⟨hsame, -, -⟩ := hexact new reported hrun
  have hadded : pairs (parseConfig new) = _ := (Prod.ext_iff.mp hpairs).2
  rw [hadded] at hsame
  have hsub : (pairs ((parseConfig text).filter fun e => !reported.contains e)).Sublist (pairs (parseConfig text)) :=
    List.filter_sublist.map _
  rw [← hsame, hread] at hsub
  revert hsub
  decide +kernel

end Continued

end AgentRuntime.Shell
