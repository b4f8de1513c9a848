import AgentRuntime.Shell.GitConfig
import AgentRuntime.Lib.TextLines

/-!
# `Shell.ConfigLines` — a config read line by line

A line is read together with the lines that continue it, and what is read from there on depends on the lines before it
only through the section they leave (`parseLines_cons`). Where a line that is left out was continued, the lines that
continued it are read on their own: they end where they ended before (`parseLines_behind`).
-/

namespace AgentRuntime.Shell

open Text

/-! ## One line with its continuations -/

/-- What a line says behind its header. -/
def Opening.body : Opening → Line
  | .unclosed => []
  | .header _ body => body
  | .plain body => body

def Opening.isHeader : Opening → Bool
  | .header _ _ => true
  | _ => false

/-- The section a line leaves. -/
def Opening.sec (o : Opening) (sec : Line) : Line :=
  match o with
  | .header sec _ => sec
  | _ => sec

/-- The header of the section a line leaves. -/
def Opening.headerAt (o : Opening) (i : ℕ) (header : Option ℕ) : Option ℕ :=
  match o with
  | .header _ _ => some i
  | _ => header

/-- How many lines continue a line. -/
def more (line : Line) (rest : List Line) : ℕ := (continued (opening line).body rest).2

/-- The line with the lines that continue it. -/
def joinedLine (line : Line) (rest : List Line) : Line := (continued (opening line).body rest).1

/-- The entry a line begins. -/
def entryOn (sec : Line) (header : Option ℕ) (i : ℕ) (line : Line) (rest : List Line) : Option ConfigEntry :=
  entryAt ((opening line).sec sec) ((opening line).headerAt i header) i (more line rest) (opening line).isHeader
    (joinedLine line rest)

theorem continued_le (body : Line) (rest : List Line) : (continued body rest).2 ≤ rest.length := by
  induction rest generalizing body with
  | nil => exact Nat.le_refl 0
  | cons line rest ih =>
      unfold continued
      split
      · exact Nat.succ_le_succ (ih _)
      · exact Nat.zero_le _

theorem more_le (line : Line) (rest : List Line) : more line rest ≤ rest.length := continued_le _ rest

/-- Lines that were joined already are passed over. -/
theorem parseLines_skip (sec : Line) (header : Option ℕ) (i skip : ℕ) (ls : List Line) (h : skip ≤ ls.length) :
    parseLines sec header i skip ls = parseLines sec header (i + skip) 0 (ls.drop skip) := by
  induction skip generalizing i ls with
  | zero => rfl
  | succ skip ih =>
      cases ls with
      | nil => cases h
      | cons line rest =>
          rw [parseLines, ih (i + 1) rest (Nat.le_of_succ_le_succ h), List.drop_succ_cons]
          congr 1
          omega

/-- **One line is read.** -/
theorem parseLines_cons (sec : Line) (header : Option ℕ) (i : ℕ) (line : Line) (rest : List Line) :
    parseLines sec header i 0 (line :: rest) =
      (entryOn sec header i line rest).toList ++
        parseLines ((opening line).sec sec) ((opening line).headerAt i header) (i + 1 + more line rest) 0
          (rest.drop (more line rest)) := by
  rw [parseLines]
  unfold entryOn more joinedLine
  cases opening line with
  | unclosed =>
      have hnone : continued [] rest = ([], 0) := by
        cases rest <;> rfl
      simp only [Opening.body, hnone]
      rfl
  | header name body =>
      simp only [Opening.body]
      rw [parseLines_skip _ _ _ _ _ (continued_le body rest)]
      rfl
  | plain body =>
      simp only [Opening.body]
      rw [parseLines_skip _ _ _ _ _ (continued_le body rest)]
      rfl

/-- Induction over the lines, each with those that continue it. -/
theorem lines_induction {P : List Line → Prop} (nil : P [])
    (cons : ∀ line rest, P (rest.drop (more line rest)) → P (line :: rest)) (ls : List Line) : P ls := by
  induction h : ls.length using Nat.strong_induction_on generalizing ls with
  | _ n ih =>
      cases ls with
      | nil => exact nil
      | cons line rest =>
          refine cons line rest (ih _ ?_ _ rfl)
          rw [List.length_drop, ← h, List.length_cons]
          omega

/-! ## Where the entries are -/

/-- What is known of an entry read from the `i`-th line on, up to the line `stop`. -/
structure ReadFrom (header : Option ℕ) (i stop : ℕ) (e : ConfigEntry) : Prop where
  start : i ≤ e.start
  nonempty : e.start < e.end_
  stop : e.end_ ≤ stop
  header : e.header = header ∨ ∃ h, e.header = some h ∧ i ≤ h ∧ h ≤ e.start
  inline : e.inline = true → e.header = some e.start

theorem entryOn_readFrom {sec : Line} {header : Option ℕ} {i : ℕ} {line : Line} {rest : List Line} {e : ConfigEntry}
    (h : entryOn sec header i line rest = some e) :
    e.start = i ∧ e.end_ = i + 1 + more line rest ∧ e.header = (opening line).headerAt i header ∧
      e.inline = (opening line).isHeader ∧ e.key = (opening line).sec sec ++ '.' :: ((keyValue (joinedLine line rest)).map Prod.fst).getD [] ∧
      some e.value = (keyValue (joinedLine line rest)).map Prod.snd := by
  unfold entryOn entryAt at h
  obtain ⟨⟨k, v⟩, hkv, rfl⟩ := Option.map_eq_some_iff.mp h
  rw [hkv]
  exact ⟨rfl, rfl, rfl, rfl, rfl, rfl⟩

theorem mem_parseLines {sec : Line} {header : Option ℕ} {i : ℕ} {ls : List Line} {e : ConfigEntry}
    (h : e ∈ parseLines sec header i 0 ls) : ReadFrom header i (i + ls.length) e := by
  induction ls using lines_induction generalizing sec header i with
  | nil => cases h
  | cons line rest ih =>
      have hle := more_le line rest
      rw [parseLines_cons, List.mem_append, Option.mem_toList] at h
      rcases h with h | h
      · obtain ⟨hstart, hend, hheader, hinline, -⟩ := entryOn_readFrom h
        refine ⟨hstart.ge, by omega, by rw [List.length_cons]; omega, ?_, ?_⟩
        · rw [hheader]
          cases opening line with
          | header name body => exact .inr ⟨i, rfl, Nat.le_refl i, hstart.ge⟩
          | _ => exact .inl rfl
        · intro h
          rw [hinline] at h
          rw [hheader, hstart]
          cases hopen : opening line with
          | header name body => rfl
          | _ =>
              rw [hopen] at h
              cases h
      · have hread := ih h
        refine ⟨?_, hread.nonempty, ?_, ?_, hread.inline⟩
        · have := hread.start
          omega
        · have := hread.stop
          rw [List.length_drop] at this
          rw [List.length_cons]
          omega
        · rcases hread.header with hheader | ⟨k, hk, hle, hstart⟩
          · have := hread.start
            cases hopen : opening line with
            | header name body =>
                rw [hopen] at hheader
                exact .inr ⟨i, hheader, Nat.le_refl i, by omega⟩
            | _ =>
                rw [hopen] at hheader
                exact .inl hheader
          · exact .inr ⟨k, hk, by omega, hstart⟩

/-! ## Lines read on their own -/

/-- What was joined is joined again, whatever follows, unless it went on to the end of the text. -/
theorem continued_append {body : Line} {ls rest : List Line} (h : (continued body (ls ++ rest)).2 = ls.length)
    {rest' : List Line} (hend : rest = [] → rest' = []) :
    continued body (ls ++ rest') = continued body (ls ++ rest) := by
  induction ls generalizing body with
  | nil =>
      rw [List.nil_append, List.nil_append]
      cases rest with
      | nil => rw [hend rfl]
      | cons line rest =>
          rw [List.nil_append, continued] at h
          split at h
          · cases h
          · rename_i hstops
            rw [continued, if_neg hstops]
            cases rest' with
            | nil => rfl
            | cons line' rest' => rw [continued, if_neg hstops]
  | cons line ls ih =>
      rw [List.cons_append, continued] at h
      split at h
      · rename_i hgoes
        have hrest := ih (Nat.succ.inj h)
        rw [List.cons_append, List.cons_append, continued, if_pos hgoes, continued, if_pos hgoes, hrest]
      · cases h

theorem more_append {line : Line} {rest rest' : List Line} (hend : rest.drop (more line rest) = [] → rest' = []) :
    continued (opening line).body (rest.take (more line rest) ++ rest') = continued (opening line).body rest := by
  have hsplit := List.take_append_drop (more line rest) rest
  have hcount : (continued (opening line).body (rest.take (more line rest) ++ rest.drop (more line rest))).2 =
      (rest.take (more line rest)).length := by
    rw [hsplit, List.length_take, min_eq_left (more_le line rest)]
    rfl
  rw [continued_append hcount hend, hsplit]

/-- A line read with its continuations, whatever follows them. -/
theorem parseLines_block (sec : Line) (header : Option ℕ) (i : ℕ) (line : Line) (rest rest' : List Line)
    (hend : rest.drop (more line rest) = [] → rest' = []) :
    parseLines sec header i 0 (line :: (rest.take (more line rest) ++ rest')) =
      (entryOn sec header i line rest).toList ++
        parseLines ((opening line).sec sec) ((opening line).headerAt i header) (i + 1 + more line rest) 0 rest' := by
  have hsame := more_append hend
  have hmore : more line (rest.take (more line rest) ++ rest') = more line rest := congrArg Prod.snd hsame
  have hjoined : joinedLine line (rest.take (more line rest) ++ rest') = joinedLine line rest := congrArg Prod.fst hsame
  rw [parseLines_cons]
  unfold entryOn
  rw [hmore, hjoined]
  have hdrop : (rest.take (more line rest) ++ rest').drop (more line rest) = rest' :=
    List.drop_left' (by rw [List.length_take, min_eq_left (more_le line rest)])
  rw [hdrop]

/-- A text that ends as another one does is continued no longer. -/
theorem continued_suffix {body shorter : Line} {ls rest : List Line} (rest' : List Line) (hsuffix : shorter <:+ body)
    (hrest : rest ≠ []) (h : (continued body (ls ++ rest)).2 = ls.length) :
    continued shorter (ls ++ rest') = continued shorter ls ∧
      ∃ body', (continued body' (ls.drop (continued shorter ls).2 ++ rest)).2 =
        (ls.drop (continued shorter ls).2).length := by
  have hlast : shorter.getLast? = some '\\' → body.getLast? = some '\\' := by
    intro hends
    obtain ⟨before, rfl⟩ := hsuffix
    rw [List.getLast?_append, hends]
    rfl
  induction ls generalizing body shorter with
  | nil =>
      obtain ⟨line, rest, rfl⟩ := List.exists_cons_of_ne_nil hrest
      have hstops : shorter.getLast? ≠ some '\\' := by
        intro hends
        rw [List.nil_append, continued, if_pos (hlast hends)] at h
        cases h
      refine ⟨?_, body, h⟩
      cases rest' with
      | nil => rfl
      | cons line' rest' =>
          show continued shorter (line' :: rest') = (shorter, 0)
          rw [continued, if_neg hstops]
  | cons line ls ih =>
      by_cases hends : shorter.getLast? = some '\\'
      · have hgoes := hlast hends
        rw [List.cons_append, continued, if_pos hgoes] at h
        have hshorter : shorter.dropLast ++ trim line <:+ body.dropLast ++ trim line := by
          obtain ⟨before, rfl⟩ := hsuffix
          have hne : shorter ≠ [] := by
            rintro rfl
            cases hends
          rw [List.dropLast_append_of_ne_nil hne, List.append_assoc]
          exact List.suffix_append _ _
        obtain ⟨hsame, body', hbody'⟩ := ih hshorter (Nat.succ.inj h) (by
          intro hends
          obtain ⟨before, hbefore⟩ := hshorter
          rw [← hbefore, List.getLast?_append, hends]
          rfl)
        rw [List.cons_append, continued, if_pos hends, continued, if_pos hends, hsame]
        exact ⟨rfl, body', hbody'⟩
      · rw [List.cons_append, continued, if_neg hends, continued, if_neg hends]
        exact ⟨rfl, body, h⟩

/-- A header that is closed: what stands in it and behind it. -/
theorem opening_header {line name body : Line} (h : opening line = .header name body) :
    ∃ inner after, trim line = '[' :: (inner ++ ']' :: after) ∧ ']' ∉ inner ∧ name = sectionName (trim inner) ∧
      body = trim after := by
  unfold opening at h
  split at h
  · rename_i rest hstrip
    split at h
    · cases h
    · rename_i inner close hbreak
      obtain ⟨hnot, ⟨after, rfl⟩, rfl⟩ := breakOn_singleton.mp hbreak
      cases h
      exact ⟨inner, after, strip_singleton.mp hstrip, hnot, rfl, rfl⟩
  · cases h

theorem opening_of_header {line inner after : Line} (h : trim line = '[' :: (inner ++ ']' :: after)) (hnot : ']' ∉ inner) :
    opening line = .header (sectionName (trim inner)) (trim after) := by
  unfold opening
  rw [strip_singleton.mpr h]
  simp only [breakOn_singleton.mpr ⟨hnot, ⟨after, rfl⟩, rfl⟩]
  rfl

/-- What a line says is the end of the trimmed line. -/
theorem opening_body_suffix (line : Line) : (opening line).body <:+ trim line := by
  cases hopen : opening line with
  | unclosed => exact List.nil_suffix
  | header name body =>
      obtain ⟨inner, after, htrim, -, -, rfl⟩ := opening_header hopen
      have hafter : after <:+ trim line := ⟨'[' :: (inner ++ [']']), by rw [htrim]; simp⟩
      -- The line ends in no white space, so nothing is taken off the end.
      have hend : trim after = after.dropWhile isWhitespace := by
        refine List.rdropWhile_eq_self_iff.mpr fun hne => ?_
        have hlast : (trim line).getLast? = some ((after.dropWhile isWhitespace).getLast hne) := by
          obtain ⟨before, hbefore⟩ := (List.dropWhile_suffix isWhitespace).trans hafter
          rw [← hbefore, List.getLast?_append, List.getLast?_eq_some_getLast hne]
          rfl
        rw [trim_last hlast]
        exact Bool.false_ne_true
      show trim after <:+ trim line
      rw [hend]
      exact (List.dropWhile_suffix isWhitespace).trans hafter
  | plain body =>
      unfold opening at hopen
      split at hopen
      · split at hopen
        · cases hopen
        · cases hopen
      · cases hopen
        exact List.suffix_refl _

/-- A header that loses the key behind it still opens its section, and says nothing more. -/
theorem opening_headerOnly {line name body : Line} (h : opening line = .header name body) :
    opening (headerOnly line) = .header name [] := by
  obtain ⟨inner, after, htrim, hnot, rfl, -⟩ := opening_header h
  obtain ⟨before, behind, hline, hbefore, -⟩ := trim_decomp line
  have hclean : ']' ∉ before ++ '[' :: inner := by
    intro hmem
    rcases List.mem_append.mp hmem with hmem | hmem
    · have hspace := hbefore _ hmem
      revert hspace
      decide
    · rcases List.mem_cons.mp hmem with hmem | hmem
      · revert hmem
        decide
      · exact hnot hmem
  have hcut : headerOnly line = before ++ '[' :: inner ++ [']'] := by
    unfold headerOnly
    have hbreak : breakOn [']'] line = some (before ++ '[' :: inner, ']' :: (after ++ behind)) := by
      refine breakOn_singleton.mpr ⟨hclean, ⟨_, rfl⟩, ?_⟩
      rw [hline, htrim]
      simp
    rw [hbreak]
  have htrimmed : trim (headerOnly line) = '[' :: (inner ++ ']' :: []) := by
    have hspace := @trim_append before ('[' :: (inner ++ [']'])) [] hbefore (by simp)
    rw [List.append_nil] at hspace
    have hself : trim ('[' :: (inner ++ [']'])) = '[' :: (inner ++ [']']) := by
      refine trim_eq_self ?_ ?_
      · intro c hc
        cases hc
        decide
      · intro c hc
        rw [← List.cons_append, List.getLast?_concat] at hc
        cases hc
        decide
    rw [hcut]
    refine Eq.trans ?_ (hspace.trans hself)
    simp
  exact opening_of_header htrimmed hnot

/-- **Lines that continued another.** Read on their own, whatever follows, they end where they ended. -/
theorem parseLines_behind {body : Line} {ls rest : List Line} (rest' : List Line) (hrest : rest ≠ [])
    (h : (continued body (ls ++ rest)).2 = ls.length) (sec : Line) (header : Option ℕ) (i : ℕ) :
    ∃ sec' header', parseLines sec header i 0 (ls ++ rest') =
      parseLines sec header i 0 ls ++ parseLines sec' header' (i + ls.length) 0 rest' := by
  induction ls using lines_induction generalizing body sec header i with
  | nil => exact ⟨sec, header, rfl⟩
  | cons line ls ih =>
      rw [List.cons_append, continued] at h
      split at h
      · obtain ⟨hsame, body', hbody'⟩ := continued_suffix rest'
          ((opening_body_suffix line).trans (List.suffix_append body.dropLast _)) hrest (Nat.succ.inj h)
        have hmore : more line (ls ++ rest') = more line ls := congrArg Prod.snd hsame
        have hjoined : joinedLine line (ls ++ rest') = joinedLine line ls := congrArg Prod.fst hsame
        have hle := more_le line ls
        obtain ⟨sec', header', hrec⟩ := ih hbody' ((opening line).sec sec) ((opening line).headerAt i header)
          (i + 1 + more line ls)
        refine ⟨sec', header', ?_⟩
        rw [List.cons_append, parseLines_cons, parseLines_cons]
        unfold entryOn
        rw [hmore, hjoined, List.drop_append_of_le_length hle, hrec, List.append_assoc, List.length_drop, List.length_cons]
        congr 3
        omega
      · cases h

/-- How many entries lines hold does not depend on the section they are in. -/
theorem parseLines_length (sec sec' : Line) (header header' : Option ℕ) (i i' : ℕ) (ls : List Line) :
    (parseLines sec header i 0 ls).length = (parseLines sec' header' i' 0 ls).length := by
  induction ls using lines_induction generalizing sec sec' header header' i i' with
  | nil => rfl
  | cons line rest ih =>
      rw [parseLines_cons, parseLines_cons, List.length_append, List.length_append]
      congr 1
      · unfold entryOn entryAt
        cases keyValue (joinedLine line rest) <;> rfl
      · exact ih ..

/-- A reader of trimmed lines does not see what is trimmed. -/
theorem parseLines_congr {ls ls' : List Line} (h : List.Forall₂ (fun l l' => trim l = trim l') ls ls') (sec : Line)
    (header : Option ℕ) (i skip : ℕ) : parseLines sec header i skip ls = parseLines sec header i skip ls' := by
  have hcontinued : ∀ {ls ls' : List Line}, List.Forall₂ (fun l l' => trim l = trim l') ls ls' →
      ∀ body, continued body ls = continued body ls' := by
    intro ls ls' h
    induction h with
    | nil => exact fun body => rfl
    | cons hline _ ih =>
        intro body
        rw [continued, continued, hline]
        split
        · rw [ih]
        · rfl
  induction h generalizing sec header i skip with
  | nil => rfl
  | cons hline hrest ih =>
      rename_i line line' rest rest'
      cases skip with
      | succ skip => exact ih sec header (i + 1) skip
      | zero =>
          have hopening : opening line = opening line' := by
            unfold opening
            rw [hline]
          rw [parseLines, parseLines, hopening]
          cases opening line' with
          | unclosed => exact ih sec header (i + 1) 0
          | header name body =>
              simp only [hcontinued hrest]
              rw [ih]
          | plain body =>
              simp only [hcontinued hrest]
              rw [ih]

end AgentRuntime.Shell
