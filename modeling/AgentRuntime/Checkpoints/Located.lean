import AgentRuntime.Checkpoints.Undo

/-!
# `Checkpoints.Located` — paths that no link is on

A path of the member's folder is taken through the kernel's walk at every system call. When no link is on the way to it,
each call reads or changes what stands at the path itself: `lstat`, `replace`, `removeFile` and `removeDir` do, and
`mkdirAll` makes the folders that are missing on the way and nothing else.
-/

namespace AgentRuntime.Checkpoints

open FileTree
open AgentRuntime.Guard (route)

namespace Files

variable {files files' : Files} {loc l : List String} {node : Node}

/-! ## What is where -/

theorem at?_put (hloc : loc ≠ []) : (files.put loc node).at? l = if l = loc then some node else files.at? l := by
  unfold at? put
  by_cases hl : l = loc
  · rw [if_pos hl, hl, if_neg hloc, AList.lookup_insert]
  · rw [if_neg hl, AList.lookup_insert_ne hl]

theorem at?_remove (hloc : loc ≠ []) : (files.remove loc).at? l = if l = loc then none else files.at? l := by
  unfold at? remove
  by_cases hl : l = loc
  · rw [if_pos hl, hl, if_neg hloc, AList.lookup_erase]
  · rw [if_neg hl, AList.lookup_erase_ne hl]

theorem view_none : files.view loc = none ↔ files.at? loc = none := by simp [view]

theorem view_folder : files.view loc = some .folder ↔ files.at? loc = some .folder := by
  unfold view
  cases h : files.at? loc with
  | none => simp
  | some node => cases node <;> simp

theorem view_link {target : String} :
    files.view loc = some (.link target) ↔ ∃ utf8, files.at? loc = some (.link target utf8) := by
  unfold view
  cases h : files.at? loc with
  | none => simp
  | some node => cases node <;> simp

/-- No link stands there. -/
theorem unlinked_iff : Unlinked files.view loc ↔ ∀ p target utf8, p <+: loc → files.at? p ≠ some (.link target utf8) := by
  constructor
  · intro h p target utf8 hp hlink
    exact h p target hp (view_link.mpr ⟨utf8, hlink⟩)
  · intro h p target hp hlink
    obtain ⟨utf8, hlink⟩ := view_link.mp hlink
    exact h p target utf8 hp hlink

/-! ## Changes that leave every entry in a folder -/

theorem grounded_put (hground : Grounded files.view) (hloc : loc ≠ []) (hparent : files.at? loc.dropLast = some .folder)
    (hnot : files.at? loc ≠ some .folder) : Grounded (files.put loc node).view := by
  intro l n hsome
  have hsome' : (files.put loc node).at? (l ++ [n]) ≠ none := fun hnone => hsome (view_none.mpr hnone)
  have hfolder : files.at? l = some .folder := by
    rw [at?_put hloc] at hsome'
    by_cases hl : l ++ [n] = loc
    · rw [← hl, List.dropLast_concat] at hparent
      exact hparent
    · rw [if_neg hl] at hsome'
      exact view_folder.mp (hground l n fun hnone => hsome' (view_none.mp hnone))
  have hne : l ≠ loc := by
    rintro rfl
    exact hnot hfolder
  exact view_folder.mpr (by rw [at?_put hloc, if_neg hne, hfolder])

theorem grounded_remove (hground : Grounded files.view) (hloc : loc ≠ [])
    (hempty : ∀ n, files.at? (loc ++ [n]) = none) : Grounded (files.remove loc).view := by
  intro l n hsome
  have hsome' : (files.remove loc).at? (l ++ [n]) ≠ none := fun hnone => hsome (view_none.mpr hnone)
  rw [at?_remove hloc] at hsome'
  have hkept : files.at? (l ++ [n]) ≠ none := by
    intro hnone
    rw [hnone, ite_self] at hsome'
    exact hsome' rfl
  have hne : l ≠ loc := by
    rintro rfl
    exact hkept (hempty n)
  have hfolder := view_folder.mp (hground l n fun hnone => hkept (view_none.mp hnone))
  exact view_folder.mpr (by rw [at?_remove hloc, if_neg hne, hfolder])

theorem nothing_below (hground : Grounded files.view) (h : files.at? loc ≠ some .folder) (n : String) :
    files.at? (loc ++ [n]) = none := by
  by_contra hsome
  exact h (view_folder.mp (hground loc n fun hnone => hsome (view_none.mp hnone)))

/-- Where nothing is, nothing is further down. -/
theorem nothing_under (hground : Grounded files.view) (h : files.at? loc = none) (more : List String) :
    files.at? (loc ++ more) = none := by
  rcases List.eq_nil_or_concat more with rfl | ⟨below, n, rfl⟩
  · rw [List.append_nil]
    exact h
  · have hnot : files.view loc ≠ some .folder := by
      rw [view_none.mpr h]
      exact nofun
    rw [List.concat_eq_append, ← List.append_assoc]
    exact view_none.mp (hground.nothing_below hnot below n)

theorem below_isEmpty (h : files.isEmpty loc = true) (n : String) : files.at? (loc ++ [n]) = none := by
  unfold isEmpty at h
  rw [List.all_eq_true] at h
  unfold at?
  rw [if_neg (by simp)]
  by_contra hsome
  have hkey : loc ++ [n] ∈ files.nodes.keys := by
    obtain ⟨node, hnode⟩ := Option.ne_none_iff_exists'.mp hsome
    exact AList.mem_keys.mp (AList.lookup_isSome.mp (by rw [hnode]; rfl))
  have := h _ hkey
  simp at this

/-! ## One call at a path -/

section

variable (hground : Grounded files.view) (h : Unlinked files.view loc.dropLast)

include hground h

/-- The walk to the entry ends at the path, or there is nothing. -/
theorem locate_cases : files.locate loc = .ok loc ∨ (∃ e, files.locate loc = .error e) ∧ files.at? loc = none := by
  unfold locate
  cases hlast : loc.getLast? with
  | none =>
      rw [List.getLast?_eq_none_iff] at hlast
      exact .inl (by rw [hlast])
  | some name =>
      have hloc : loc.dropLast ++ [name] = loc := List.dropLast_append_getLast? name hlast
      have hwalk := @resolveWith_names _ _ _ route hground (FileTree.resolve files.view route 39) [] _ h
      rcases hwalk with hok | ⟨⟨e, -, herr⟩, hnone⟩
      · refine .inl ?_
        show (files.resolve [] (loc.dropLast.map .name)).map (· ++ [name]) = .ok loc
        have hres : files.resolve [] (loc.dropLast.map .name) = .ok loc.dropLast := by
          unfold resolve
          rw [show FileTree.resolve files.view route 40 [] (loc.dropLast.map .name) = .ok loc.dropLast from hok]
        rw [hres, ← hloc]
        simp [Except.map]
      · refine .inr ⟨?_, ?_⟩
        · show ∃ e, (files.resolve [] (loc.dropLast.map .name)).map (· ++ [name]) = .error e
          unfold resolve
          rw [show FileTree.resolve files.view route 40 [] (loc.dropLast.map .name) = .error e from herr]
          cases e <;> exact ⟨_, rfl⟩
        · rw [← hloc]
          exact view_none.mp (hnone name)

theorem lstat_ok {node : Node} (hrun : files.lstat loc = .ok node) : files.at? loc = some node := by
  unfold lstat at hrun
  rcases locate_cases hground h with hloc | ⟨⟨e, hloc⟩, -⟩
  · rw [hloc] at hrun
    dsimp only at hrun
    split at hrun
    · cases hrun
      assumption
    · cases hrun
  · rw [hloc] at hrun
    cases hrun

theorem lstat_error {e : IoError} (hrun : files.lstat loc = .error e) : files.at? loc = none := by
  unfold lstat at hrun
  rcases locate_cases hground h with hloc | ⟨⟨e, hloc⟩, hnone⟩
  · rw [hloc] at hrun
    dsimp only at hrun
    split at hrun
    · cases hrun
    · assumption
  · exact hnone

theorem replace_ok (hrun : files.replace loc node = .ok files') :
    files.at? loc ≠ some .folder ∧ files' = files.put loc node := by
  unfold replace at hrun
  rcases locate_cases hground h with hloc | ⟨⟨e, hloc⟩, -⟩
  · rw [hloc] at hrun
    dsimp only at hrun
    split at hrun
    · cases hrun
    · rename_i hnot
      cases hrun
      exact ⟨hnot, rfl⟩
  · rw [hloc] at hrun
    cases hrun

theorem removeFile_ok (hrun : files.removeFile loc = .ok files') :
    files.at? loc ≠ some .folder ∧ files' = files.remove loc := by
  unfold removeFile at hrun
  rcases locate_cases hground h with hloc | ⟨⟨e, hloc⟩, -⟩
  · rw [hloc] at hrun
    dsimp only at hrun
    split at hrun
    · cases hrun
    · cases hrun
    · rename_i node hnot hnode
      cases hrun
      refine ⟨?_, rfl⟩
      rw [hnode]
      intro heq
      exact hnot (Option.some.inj heq)
  · rw [hloc] at hrun
    cases hrun

theorem removeDir_ok (hrun : files.removeDir loc = .ok files') :
    files.at? loc = some .folder ∧ (∀ n, files.at? (loc ++ [n]) = none) ∧ files' = files.remove loc := by
  unfold removeDir at hrun
  rcases locate_cases hground h with hloc | ⟨⟨e, hloc⟩, -⟩
  · rw [hloc] at hrun
    dsimp only at hrun
    split at hrun
    · rename_i hdir
      cases hrun
      exact ⟨hdir.1, below_isEmpty hdir.2, rfl⟩
    · cases hrun
  · rw [hloc] at hrun
    cases hrun

end

/-! ## Folders on the way -/

/-- What has changed from `files` to `files'`: folders were made where nothing was, on the way to `loc`. -/
def MadeDirs (loc : List String) (files files' : Files) : Prop :=
  ∀ l, files'.at? l = files.at? l ∨ l <+: loc ∧ files.at? l = none ∧ files'.at? l = some .folder

theorem MadeDirs.refl (loc : List String) (files : Files) : MadeDirs loc files files := fun _ => .inl rfl

theorem MadeDirs.trans {files'' : Files} (h : MadeDirs loc files files') (h' : MadeDirs loc files' files'') :
    MadeDirs loc files files'' := by
  intro l
  rcases h l with heq | ⟨hp, hnone, hdir⟩
  · rcases h' l with heq' | ⟨hp', hnone', hdir'⟩
    · exact .inl (heq'.trans heq)
    · exact .inr ⟨hp', heq ▸ hnone', hdir'⟩
  · rcases h' l with heq' | ⟨-, hnone', -⟩
    · exact .inr ⟨hp, hnone, heq'.trans hdir⟩
    · rw [hdir] at hnone'
      cases hnone'

/-- The folders made have no link in them. -/
theorem MadeDirs.unlinked (h : MadeDirs loc files files') (hl : Unlinked files.view l) : Unlinked files'.view l := by
  rw [unlinked_iff] at hl ⊢
  intro p target utf8 hp hlink
  rcases h p with heq | ⟨-, -, hdir⟩
  · exact hl p target utf8 hp (heq ▸ hlink)
  · rw [hdir] at hlink
    cases hlink

theorem mkdirAll_ok {seen rest : List String} (hground : Grounded files.view) (hunlinked : Unlinked files.view (seen ++ rest))
    (hseen : files.at? seen = some .folder) (hrun : files.mkdirAll seen rest = .ok files') :
    Grounded files'.view ∧ files'.at? (seen ++ rest) = some .folder ∧ MadeDirs (seen ++ rest) files files' := by
  induction rest generalizing seen files with
  | nil =>
      cases hrun
      rw [List.append_nil]
      exact ⟨hground, hseen, .refl _ _⟩
  | cons name rest ih =>
      have happend : seen ++ name :: rest = seen ++ [name] ++ rest := by rw [List.append_assoc]; rfl
      rw [happend] at hunlinked ⊢
      have hdir : Unlinked files.view (seen ++ [name]) := hunlinked.of_prefix (List.prefix_append _ _)
      have hwalk := @resolveWith_names _ _ _ route hground (FileTree.resolve files.view route 39) [] _ hdir
      have hresolve : files.resolve [] ((seen ++ [name]).map .name) = .ok (seen ++ [name]) ∨
          ∃ e, files.resolve [] ((seen ++ [name]).map .name) = .error e := by
        rcases hwalk with hok | ⟨⟨e, -, herr⟩, -⟩
        · left
          unfold resolve
          rw [show FileTree.resolve files.view route 40 [] ((seen ++ [name]).map .name) = .ok (seen ++ [name]) from hok]
        · right
          unfold resolve
          rw [show FileTree.resolve files.view route 40 [] ((seen ++ [name]).map .name) = .error e from herr]
          cases e <;> exact ⟨_, rfl⟩
      unfold mkdirAll at hrun
      dsimp only at hrun
      split at hrun
      · rename_i real hok
        have hreal : real = seen ++ [name] := by
          rcases hresolve with hok' | ⟨e, herr⟩
          · rw [hok'] at hok
            cases hok
            rfl
          · rw [herr] at hok
            cases hok
        subst hreal
        split at hrun
        · rename_i hfolder
          exact ih hground hunlinked hfolder hrun
        · cases hrun
      · split at hrun
        · rename_i real hloc
          -- the folder itself is made
          have hreal : real = seen ++ [name] := by
            have hparent : Unlinked files.view (seen ++ [name]).dropLast := by
              rw [List.dropLast_concat]
              exact hdir.of_prefix (List.prefix_append _ _)
            rcases locate_cases hground hparent with hok' | ⟨⟨e, herr⟩, -⟩
            · rw [hok'] at hloc
              cases hloc
              rfl
            · rw [herr] at hloc
              cases hloc
          subst hreal
          split at hrun
          · cases hrun
          · rename_i hnone
            rw [Option.not_isSome_iff_eq_none] at hnone
            have hne : seen ++ [name] ≠ [] := by simp
            have hmade : MadeDirs (seen ++ [name] ++ rest) files (files.put (seen ++ [name]) .folder) := by
              intro l
              rw [at?_put hne]
              by_cases hl : l = seen ++ [name]
              · rw [if_pos hl, hl]
                exact .inr ⟨List.prefix_append _ _, hnone, rfl⟩
              · rw [if_neg hl]
                exact .inl rfl
            have hground' : Grounded (files.put (seen ++ [name]) .folder).view :=
              grounded_put hground hne (by rw [List.dropLast_concat]; exact hseen) (by rw [hnone]; exact nofun)
            obtain ⟨hg, hf, hm⟩ := ih hground' (hmade.unlinked hunlinked) (by rw [at?_put hne, if_pos rfl]) hrun
            exact ⟨hg, hf, hmade.trans hm⟩
        · cases hrun
      · cases hrun

end Files

end AgentRuntime.Checkpoints
