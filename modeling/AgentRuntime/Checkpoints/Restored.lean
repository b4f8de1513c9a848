import AgentRuntime.Checkpoints.Captured
import AgentRuntime.Checkpoints.Steps

/-!
# `Checkpoints.Restored` — what an undo restores (`agent-checkpoints/src/store.rs`)

Restoring a path changes what stands at the path, and makes the folders that are missing on the way (`restore_ok`). So
does a whole step, when no path of it is below another one that is put back, and then every path of it holds what it held
before the step (`undoOne_ok`). Of several steps, what the oldest one found is what stays (`undoEach_ok`).
-/

namespace AgentRuntime.Checkpoints

open FileTree

/-! ## What changes, and what does not -/

/-- What has changed from `files` to `files'`: apart from the places `L`, no file and no link; folders were made at places
    `M` only, and folders are gone at places `G` only. -/
structure Only (L M G : List String → Prop) (files files' : Files) : Prop where
  same : ∀ l, ¬ L l → ∀ node, node ≠ .folder → (files'.at? l = some node ↔ files.at? l = some node)
  made : ∀ l, ¬ L l → files'.at? l = some .folder → files.at? l = some .folder ∨ M l
  gone : ∀ l, ¬ L l → files.at? l = some .folder → files'.at? l = some .folder ∨ G l

section

variable {L M G : List String → Prop} {files files' files'' : Files} {l loc : List String}

theorem Only.refl (files : Files) : Only L M G files files :=
  ⟨fun _ _ _ _ => Iff.rfl, fun _ _ h => .inl h, fun _ _ h => .inl h⟩

theorem Only.trans (h : Only L M G files files') (h' : Only L M G files' files'') : Only L M G files files'' := by
  refine ⟨fun l hl node hnode => (h'.same l hl node hnode).trans (h.same l hl node hnode), ?_, ?_⟩
  · intro l hl hfolder
    rcases h'.made l hl hfolder with hfolder | hM
    · exact h.made l hl hfolder
    · exact .inr hM
  · intro l hl hfolder
    rcases h.gone l hl hfolder with hfolder | hG
    · exact h'.gone l hl hfolder
    · exact .inr hG

theorem Only.mono {L' M' G' : List String → Prop} (h : Only L M G files files') (hL : ∀ l, L l → L' l)
    (hM : ∀ l, M l → M' l) (hG : ∀ l, G l → G' l) : Only L' M' G' files files' :=
  ⟨fun l hl => h.same l fun hl' => hl (hL l hl'), fun l hl hf => (h.made l (fun hl' => hl (hL l hl')) hf).imp_right (hM l),
    fun l hl hf => (h.gone l (fun hl' => hl (hL l hl')) hf).imp_right (hG l)⟩

/-- No link comes on the way to a place, when none comes to the places that change. -/
theorem Only.unlinked (h : Only L M G files files') (hl : Unlinked files.view l)
    (hL : ∀ p target utf8, p <+: l → L p → files'.at? p ≠ some (.link target utf8)) : Unlinked files'.view l := by
  rw [Files.unlinked_iff] at hl ⊢
  intro p target utf8 hp hlink
  by_cases hLp : L p
  · exact hL p target utf8 hp hLp hlink
  · exact hl p target utf8 hp ((h.same p hLp (.link target utf8) (by simp)).mp hlink)

/-- Elsewhere a path goes on holding what it holds, unless a folder is made where nothing was. -/
theorem Only.holds {env : Env} {prior : Prior} (h : Only L M G files files') (hL : ¬ L loc)
    (hM : prior = .absent → ¬ M loc) (hholds : Holds env files loc prior) : Holds env files' loc prior := by
  cases prior with
  | absent =>
      show files'.at? loc = none
      have hnone : files.at? loc = none := hholds
      cases hat : files'.at? loc with
      | none => rfl
      | some node =>
          by_cases hnode : node = .folder
          · subst hnode
            rcases h.made loc hL hat with hfolder | hmade
            · rw [hnone] at hfolder
              cases hfolder
            · exact absurd hmade (hM rfl)
          · have hold := (h.same loc hL node hnode).mp hat
            rw [hnone] at hold
            cases hold
  | file blob size mode =>
      obtain ⟨bytes, hat, hhash⟩ := hholds
      exact ⟨bytes, (h.same loc hL (.file bytes mode) (by simp)).mpr hat, hhash⟩
  | symlink target => exact (h.same loc hL (.link target true) (by simp)).mpr hholds

/-- Only one place is changed. -/
theorem Only.of_at (h : ∀ l, l ≠ loc → files'.at? l = files.at? l) : Only (· = loc) M G files files' := by
  refine ⟨fun l hl node _ => by rw [h l hl], fun l hl hfolder => .inl ?_, fun l hl hfolder => .inl ?_⟩
  · rwa [h l hl] at hfolder
  · rwa [h l hl]

/-- Folders that are made on the way. -/
theorem Only.of_madeDirs (h : Files.MadeDirs loc files files') :
    Only (fun _ => False) (fun l => l <+: loc) (fun _ => False) files files' := by
  refine ⟨fun l _ node hnode => ?_, fun l _ hfolder => ?_, fun l _ hfolder => ?_⟩
  · rcases h l with heq | ⟨-, hnone, hdir⟩
    · rw [heq]
    · rw [hnone, hdir]
      exact ⟨fun h => absurd (Option.some.inj h).symm hnode, nofun⟩
  · rcases h l with heq | ⟨hp, -, -⟩
    · exact .inl (heq ▸ hfolder)
    · exact .inr hp
  · rcases h l with heq | ⟨-, hnone, -⟩
    · exact .inl (heq ▸ hfolder)
    · rw [hnone] at hfolder
      cases hfolder

end

section

variable (env : Env)

/-! ## One path -/

/-- What an edit that succeeds has done. -/
theorem edit_ok {path : List String} {f : Files → Except IoError Files} {w w' : World}
    (h : edit env path f w = (.ok (), w')) :
    ∃ files', f w.files = .ok files' ∧ w'.files = files' ∧ w'.disk = w.disk ∧ w'.inner = w.inner := by
  have h := Prog.mapError_ok h
  unfold io Prog.act at h
  dsimp only at h
  split at h
  · cases h
  · split at h
    · rename_i files' hf
      cases h
      exact ⟨files', hf, rfl, rfl, rfl⟩
    · cases h

/-- One that fails has done nothing. -/
theorem edit_error {path : List String} {f : Files → Except IoError Files} {e : Error} {w w' : World}
    (h : edit env path f w = (.error e, w')) : (∃ source, e = .io path source) ∧ Still w w' := by
  obtain ⟨source, he, hrun⟩ := Prog.mapError_error h
  refine ⟨⟨source, he⟩, ?_⟩
  unfold io Prog.act at hrun
  dsimp only at hrun
  split at hrun
  · cases hrun
    exact ⟨rfl, rfl, rfl⟩
  · split at hrun
    · cases hrun
    · cases hrun
      exact ⟨rfl, rfl, rfl⟩

theorem readBlob_looks (hex : String) : Looks (readBlob env hex) := by
  refine Looks.bind (call_looks env _) fun _ => Looks.bind (.read _) fun found => ?_
  split
  · exact .throw _
  · split
    · exact .pure _
    · exact .throw _

theorem readBlob_ok {hex : String} {bytes : List UInt8} {w w' : World} (h : readBlob env hex w = (.ok bytes, w')) :
    w.disk.blobs.lookup hex = some bytes ∧ env.sha256Hex bytes = hex := by
  obtain ⟨_, t, hcall, h⟩ := Prog.bind_ok h
  have ht : Still w t := Looks.run (call_looks env _) hcall
  obtain ⟨found, _, hfound, h⟩ := Prog.bind_ok h
  obtain ⟨rfl, rfl⟩ := Prog.read_ok hfound
  rw [← ht.disk]
  cases hlookup : t.disk.blobs.lookup hex with
  | none =>
      rw [hlookup] at h
      cases h
  | some stored =>
      rw [hlookup] at h
      dsimp only at h
      split at h
      · rename_i hhash
        cases h
        exact ⟨rfl, hhash⟩
      · cases h

/-- The store keeps what it has, on the disk and in memory. -/
structure SameStore (w w' : World) : Prop where
  disk : w'.disk = w.disk
  inner : w'.inner = w.inner

theorem Still.sameStore {w w' : World} (h : Still w w') : SameStore w w' := ⟨h.disk, h.inner⟩

theorem SameStore.trans {w w' w'' : World} (h : SameStore w w') (h' : SameStore w' w'') : SameStore w w'' :=
  ⟨h'.disk.trans h.disk, h'.inner.trans h.inner⟩

/-- The places that are changed, and those where a folder may be made, when `prior` is put back at `abs`. -/
structure RestoredAt (abs : List String) (prior : Prior) (w w' : World) : Prop where
  ground : Grounded w'.files.view
  holds : Holds env w'.files abs prior
  only : Only (· = abs) (fun l => prior ≠ .absent ∧ l <+: abs.dropLast) (fun _ => False) w.files w'.files
  store : SameStore w w'

section

variable {abs : List String} {w w' : World} (hground : Grounded w.files.view)
  (hclear : Unlinked w.files.view abs.dropLast)

include hground hclear

/-- The folders above the path are made. -/
theorem mkdirAll_edit (h : edit env abs.dropLast (fun files => files.mkdirAll [] abs.dropLast) w = (.ok (), w')) :
    Grounded w'.files.view ∧ w'.files.at? abs.dropLast = some .folder ∧ Unlinked w'.files.view abs.dropLast ∧
      Only (fun _ => False) (fun l => l <+: abs.dropLast) (fun _ => False) w.files w'.files ∧ SameStore w w' := by
  obtain ⟨files', hmk, hfiles, hdisk, hinner⟩ := edit_ok env h
  have hhere : w.files.at? [] = some .folder := by simp [Files.at?]
  obtain ⟨hg, hf, hm⟩ := Files.mkdirAll_ok hground hclear hhere hmk
  rw [hfiles]
  exact ⟨hg, hf, hm.unlinked hclear, .of_madeDirs hm, ⟨hdisk, hinner⟩⟩

/-- The entry is put over whatever file or link is there. -/
theorem putBack_ok {node : Node} (habs : abs ≠ []) (hparent : w.files.at? abs.dropLast = some .folder)
    (h : putBack env abs node w = (.ok (), w')) :
    Grounded w'.files.view ∧ w'.files = w.files.put abs node ∧ w.files.at? abs ≠ some .folder ∧ SameStore w w' := by
  obtain ⟨_, t, hedit, h⟩ := Prog.bind_ok h
  obtain ⟨files', hreplace, hfiles, hdisk, hinner⟩ := edit_ok env hedit
  have ht : Still t w' := Looks.run (call_looks env _) h
  obtain ⟨hnot, rfl⟩ := Files.replace_ok hground hclear hreplace
  refine ⟨?_, ht.files.trans hfiles, hnot, ⟨ht.disk.trans hdisk, ht.inner.trans hinner⟩⟩
  rw [ht.files, hfiles]
  exact Files.grounded_put hground habs hparent hnot

/-- **One path is restored**: it holds what it held, nothing else has changed, but for the folders on the way. -/
theorem restore_ok (habs : abs ≠ []) (hfault : Honest env.fault) {prior : Prior} (h : restore env abs prior w = (.ok (), w')) :
    RestoredAt env abs prior w w' := by
  cases prior with
  | absent =>
      obtain ⟨found, t, hfound, h⟩ := Prog.bind_ok h
      have ht : Still w t := Looks.run (Prog.Moves.attempt (lstat_looks env _)) hfound
      split at h
      · cases h
      · obtain ⟨files', hremove, hfiles, hdisk, hinner⟩ := edit_ok env h
        obtain ⟨hnot, rfl⟩ := Files.removeFile_ok (ht.files ▸ hground) (ht.files ▸ hclear) hremove
        rw [ht.files] at hnot hfiles
        refine ⟨?_, ?_, ?_, ht.sameStore.trans ⟨hdisk, hinner⟩⟩
        · rw [hfiles]
          exact Files.grounded_remove hground habs (Files.nothing_below hground hnot)
        · show w'.files.at? abs = none
          rw [hfiles, Files.at?_remove habs, if_pos rfl]
        · refine .of_at fun l hl => ?_
          rw [hfiles, Files.at?_remove habs, if_neg hl]
      · cases h
        refine ⟨ht.files ▸ hground, ?_, ?_, ht.sameStore⟩
        · show w'.files.at? abs = none
          rw [ht.files]
          exact lstat_nothing env hfault hground hclear (Prog.attempt_ok hfound)
        · refine .of_at fun l hl => ?_
          rw [ht.files]
      · cases h
  | file blob size mode =>
      obtain ⟨_, t, hmk, h⟩ := Prog.bind_ok h
      obtain ⟨hg, hf, hu, hmade, hstore⟩ := mkdirAll_edit env hground hclear hmk
      obtain ⟨bytes, u, hread, h⟩ := Prog.bind_ok h
      have hu' : Still t u := Looks.run (readBlob_looks env _) hread
      obtain ⟨_, v, hcall, h⟩ := Prog.bind_ok h
      have hv : Still t v := hu'.trans _ _ _ (Looks.run (call_looks env _) hcall)
      obtain ⟨hg', hput, -, hstore'⟩ := putBack_ok env (hv.files ▸ hg) (hv.files ▸ hu) habs (hv.files ▸ hf) h
      rw [hv.files] at hput
      refine ⟨hg', ⟨bytes, ?_, (readBlob_ok env hread).2⟩, ?_, hstore.trans (hv.sameStore.trans hstore')⟩
      · rw [hput, Files.at?_put habs, if_pos rfl]
      · refine (hmade.mono (fun _ h => h.elim) (fun l hl => ⟨nofun, hl⟩) fun _ h => h).trans (.of_at fun l hl => ?_)
        rw [hput, Files.at?_put habs, if_neg hl]
  | symlink target =>
      obtain ⟨_, t, hmk, h⟩ := Prog.bind_ok h
      obtain ⟨hg, hf, hu, hmade, hstore⟩ := mkdirAll_edit env hground hclear hmk
      obtain ⟨_, v, hcall, h⟩ := Prog.bind_ok h
      have hv : Still t v := Looks.run (call_looks env _) hcall
      obtain ⟨hg', hput, -, hstore'⟩ := putBack_ok env (hv.files ▸ hg) (hv.files ▸ hu) habs (hv.files ▸ hf) h
      rw [hv.files] at hput
      refine ⟨hg', ?_, ?_, hstore.trans (hv.sameStore.trans hstore')⟩
      · show w'.files.at? abs = some (.link target true)
        rw [hput, Files.at?_put habs, if_pos rfl]
      · refine (hmade.mono (fun _ h => h.elim) (fun l hl => ⟨nofun, hl⟩) fun _ h => h).trans (.of_at fun l hl => ?_)
        rw [hput, Files.at?_put habs, if_neg hl]

end

/-! ## One step -/

/-- The places of a step's paths. -/
def At (root : List String) (entries : List Entry) (l : List String) : Prop := ∃ e ∈ entries, root ++ e.path = l

/-- The places on the way to a path that is put back. -/
def Above (root : List String) (entries : List Entry) (l : List String) : Prop :=
  ∃ e ∈ entries, e.before ≠ .absent ∧ l <+: (root ++ e.path).dropLast

/-- The places of the folders that a step made. -/
def Made (m : Manifest) (l : List String) : Prop := ∃ d ∈ m.createdDirs, m.root ++ d = l

theorem Sound.tail {e : Entry} {entries : List Entry} {dirs : List (List String)} (h : Sound (e :: entries) dirs) :
    Sound entries [] :=
  ⟨fun e' he' => h.nonempty e' (List.mem_cons_of_mem _ he'), (List.nodup_cons.mp h.distinct).2,
    fun e₁ h₁ e₂ h₂ => h.apart e₁ (List.mem_cons_of_mem _ h₁) e₂ (List.mem_cons_of_mem _ h₂), by simp⟩

/-- A place on the way to a path is not the path. -/
theorem prefix_of_dropLast {q l : List String} (hl : l ≠ []) (h : q <+: l.dropLast) : q <+: l ∧ q ≠ l := by
  refine ⟨h.trans (List.dropLast_prefix l), ?_⟩
  rintro rfl
  have hlen := h.length_le
  rw [List.length_dropLast] at hlen
  have := List.length_pos_iff.mpr hl
  omega

theorem dropLast_below {root path : List String} (hpath : path ≠ []) : (root ++ path).dropLast = root ++ path.dropLast :=
  List.dropLast_append_of_ne_nil hpath

/-- A path that was not there does not hold a link. -/
theorem Holds.not_link {files : Files} {l : List String} {target : String} {utf8 : Bool} {prior : Prior}
    (h : Holds env files l prior) (hprior : prior = .absent) : files.at? l ≠ some (.link target utf8) := by
  subst hprior
  have hnone : files.at? l = none := h
  rw [hnone]
  exact nofun

/-- What holds when the paths of a step are put back. -/
structure RestoredAll (root : List String) (entries : List Entry) (w w' : World) : Prop where
  ground : Grounded w'.files.view
  holds : ∀ e ∈ entries, Holds env w'.files (root ++ e.path) e.before
  only : Only (At root entries) (Above root entries) (fun _ => False) w.files w'.files
  store : SameStore w w'

theorem restoreEntries_ok (hfault : Honest env.fault) {root : List String} {entries : List Entry} {w w' : World}
    (hground : Grounded w.files.view) (hsound : Sound entries [])
    (hclear : ∀ e ∈ entries, Unlinked w.files.view (root ++ e.path.dropLast))
    (h : restoreEntries env root entries w = (.ok (), w')) : RestoredAll env root entries w w' := by
  induction entries generalizing w with
  | nil =>
      cases h
      exact ⟨hground, by simp, .refl _, ⟨rfl, rfl⟩⟩
  | cons e entries ih =>
      obtain ⟨_, t, hone, hrest⟩ := Prog.bind_ok h
      have hne := hsound.nonempty e List.mem_cons_self
      have hdrop : (root ++ e.path).dropLast = root ++ e.path.dropLast := dropLast_below hne
      have hr : RestoredAt env (root ++ e.path) e.before w t :=
        restore_ok env hground (by rw [hdrop]; exact hclear e List.mem_cons_self) (by simp [hne]) hfault hone
      -- the ways to the other paths stay clear: only a path that was not there is above another one
      have hclear' : ∀ e' ∈ entries, Unlinked t.files.view (root ++ e'.path.dropLast) := by
        intro e' he'
        refine hr.only.unlinked (hclear e' (List.mem_cons_of_mem _ he')) ?_
        rintro p target utf8 hp rfl
        have hpre := (List.prefix_append_right_inj root).mp hp
        obtain ⟨hbelow, hdiff⟩ := prefix_of_dropLast (hsound.nonempty e' (List.mem_cons_of_mem _ he')) hpre
        exact hr.holds.not_link env (hsound.apart e List.mem_cons_self e' (List.mem_cons_of_mem _ he') hbelow hdiff).1
      have hs := ih hr.ground hsound.tail hclear' hrest
      have hnew : e.path ∉ entries.map Entry.path := (List.nodup_cons.mp hsound.distinct).1
      refine ⟨hs.ground, ?_, ?_, hr.store.trans hs.store⟩
      · intro e' he'
        rcases List.mem_cons.mp he' with rfl | he'
        · refine hs.only.holds ?_ ?_ hr.holds
          · rintro ⟨e'', he'', heq⟩
            exact hnew (List.mem_map.mpr ⟨e'', he'', List.append_cancel_left heq⟩)
          · rintro - ⟨e'', he'', hbefore, hp⟩
            have hne'' := hsound.nonempty e'' (List.mem_cons_of_mem _ he'')
            rw [dropLast_below hne''] at hp
            obtain ⟨hbelow, hdiff⟩ := prefix_of_dropLast hne'' ((List.prefix_append_right_inj root).mp hp)
            exact hbefore (hsound.apart e' List.mem_cons_self e'' (List.mem_cons_of_mem _ he'') hbelow hdiff).2
        · exact hs.holds e' he'
      · refine (hr.only.mono ?_ ?_ fun _ h => h).trans (hs.only.mono ?_ ?_ fun _ h => h)
        · rintro l rfl
          exact ⟨e, List.mem_cons_self, rfl⟩
        · rintro l ⟨hbefore, hp⟩
          exact ⟨e, List.mem_cons_self, hbefore, hp⟩
        · rintro l ⟨e', he', rfl⟩
          exact ⟨e', List.mem_cons_of_mem _ he', rfl⟩
        · rintro l ⟨e', he', hrest⟩
          exact ⟨e', List.mem_cons_of_mem _ he', hrest⟩

/-- Where the paths of a step are put back, the ways to other paths stay clear that no path put back is on. -/
theorem RestoredAll.clear {root : List String} {entries : List Entry} {w w' : World} (h : RestoredAll env root entries w w')
    {l : List String} (hl : Unlinked w.files.view l)
    (habsent : ∀ e ∈ entries, root ++ e.path <+: l → e.before = .absent) : Unlinked w'.files.view l := by
  refine h.only.unlinked hl ?_
  rintro p target utf8 hp ⟨e, he, rfl⟩
  exact (h.holds e he).not_link env (habsent e he hp)

/-- Removing folders takes folders only. -/
theorem removeDirs_ok {root : List String} {dirs : List (List String)} {w w' : World} (hground : Grounded w.files.view)
    (hclear : ∀ d ∈ dirs, d ≠ [] ∧ Unlinked w.files.view (root ++ d)) (h : removeDirs env root dirs w = (.ok (), w')) :
    Grounded w'.files.view ∧
      Only (fun _ => False) (fun _ => False) (fun l => ∃ d ∈ dirs, root ++ d = l) w.files w'.files ∧ SameStore w w' := by
  induction dirs generalizing w with
  | nil =>
      cases h
      exact ⟨hground, .refl _, ⟨rfl, rfl⟩⟩
  | cons d dirs ih =>
      obtain ⟨found, t, hfound, h⟩ := Prog.bind_ok h
      have hfound := Prog.attempt_ok hfound
      obtain ⟨hne, hd⟩ := hclear d List.mem_cons_self
      have hloc : root ++ d ≠ [] := by simp [hne]
      have hone : Grounded t.files.view ∧
          Only (fun _ => False) (fun _ => False) (fun l => root ++ d = l) w.files t.files ∧ SameStore w t := by
        cases found with
        | error e =>
            have ht := (edit_error env hfound).2
            rw [ht.files]
            exact ⟨hground, .refl _, ht.sameStore⟩
        | ok u =>
            obtain ⟨files', hremove, hfiles, hdisk, hinner⟩ := edit_ok env hfound
            obtain ⟨hfolder, hempty, rfl⟩ :=
              Files.removeDir_ok hground (hd.of_prefix (List.dropLast_prefix _)) hremove
            rw [hfiles]
            refine ⟨Files.grounded_remove hground hloc hempty, ⟨?_, ?_, ?_⟩, ⟨hdisk, hinner⟩⟩
            · intro l _ node hnode
              rw [Files.at?_remove hloc]
              split
              · rename_i heq
                rw [heq, hfolder]
                exact ⟨nofun, fun h => absurd (Option.some.inj h).symm hnode⟩
              · exact Iff.rfl
            · intro l _ hl
              rw [Files.at?_remove hloc] at hl
              split at hl
              · cases hl
              · exact .inl hl
            · intro l _ hl
              rw [Files.at?_remove hloc]
              split
              · rename_i heq
                exact .inr heq.symm
              · exact .inl hl
      obtain ⟨hg, honly, hstore⟩ := hone
      have hclear' : ∀ d' ∈ dirs, d' ≠ [] ∧ Unlinked t.files.view (root ++ d') := by
        intro d' hd'
        obtain ⟨hne', hu'⟩ := hclear d' (List.mem_cons_of_mem _ hd')
        exact ⟨hne', honly.unlinked hu' fun _ _ _ _ h => h.elim⟩
      obtain ⟨hg', honly', hstore'⟩ := ih hg hclear' h
      refine ⟨hg', ?_, hstore.trans hstore'⟩
      refine (honly.mono (fun _ h => h) (fun _ h => h) ?_).trans (honly'.mono (fun _ h => h) (fun _ h => h) ?_)
      · rintro l rfl
        exact ⟨d, List.mem_cons_self, rfl⟩
      · rintro l ⟨d', hd', rfl⟩
        exact ⟨d', List.mem_cons_of_mem _ hd', rfl⟩

/-- What a manifest that is written has changed. -/
theorem writeManifest_ok {m : Manifest} {w w' : World} (h : writeManifest env m w = (.ok (), w')) :
    w'.files = w.files ∧ w'.inner = w.inner ∧
      w'.disk = { w.disk with manifests := w.disk.manifests.insert (m.session, m.seq) m } := by
  obtain ⟨_, t₁, h₁, h⟩ := Prog.bind_ok h
  obtain ⟨_, t₂, h₂, h⟩ := Prog.bind_ok h
  obtain ⟨_, t₃, h₃, h⟩ := Prog.bind_ok h
  obtain ⟨_, t₄, h₄, h⟩ := Prog.bind_ok h
  obtain ⟨_, t₅, h₅, h⟩ := Prog.bind_ok h
  have hbefore : Still w t₄ := (Looks.run (call_looks env _) h₁).trans _ _ _ ((Looks.run (call_looks env _) h₂).trans _ _ _
    ((Looks.run (call_looks env _) h₃).trans _ _ _ (Looks.run (call_looks env _) h₄)))
  have hafter : Still t₅ w' := Looks.run (call_looks env _) h
  have hchange := Prog.mapError_ok h₅
  unfold io Prog.act at hchange
  dsimp only at hchange
  split at hchange
  · cases hchange
  · cases hchange
    refine ⟨hafter.files.trans hbefore.files, hafter.inner.trans hbefore.inner, hafter.disk.trans ?_⟩
    dsimp only
    rw [hbefore.disk]

/-- What is left of one step that was undone. -/
structure UndoneOne (key : String) (m : Manifest) (w w' : World) : Prop where
  ground : Grounded w'.files.view
  holds : ∀ e ∈ m.entries, Holds env w'.files (m.root ++ e.path) e.before
  only : Only (At m.root m.entries) (Above m.root m.entries) (Made m) w.files w'.files
  inner : w'.inner =
    { w.inner with manifests := w.inner.manifests.insert (key, m.seq) { m with status := .undone } }

theorem undoOne_ok (hfault : Honest env.fault) {key : String} {m : Manifest} {w w' : World}
    (hground : Grounded w.files.view) (hsound : Sound m.entries m.createdDirs)
    (hclear : ∀ e ∈ m.entries, Unlinked w.files.view (m.root ++ e.path.dropLast))
    (h : undoOne env key m w = (.ok (), w')) : UndoneOne env key m w w' := by
  obtain ⟨_, t₁, hrestore, h⟩ := Prog.bind_ok h
  obtain ⟨_, t₂, hremove, h⟩ := Prog.bind_ok h
  obtain ⟨_, t₃, hwrite, h⟩ := Prog.bind_ok h
  cases h
  have hentries : Sound m.entries [] := ⟨hsound.nonempty, hsound.distinct, hsound.apart, by simp⟩
  have hr := restoreEntries_ok env hfault hground hentries hclear hrestore
  have hdirs : ∀ d ∈ m.createdDirs.reverse, d ≠ [] ∧ Unlinked t₁.files.view (m.root ++ d) := by
    intro d hd
    obtain ⟨hne, e, he, hpre⟩ := hsound.dirs d (List.mem_reverse.mp hd)
    refine ⟨hne, ?_⟩
    have hway : Unlinked t₁.files.view (m.root ++ e.path.dropLast) := by
      refine hr.clear env (hclear e he) fun e' he' hp => ?_
      obtain ⟨hbelow, hdiff⟩ :=
        prefix_of_dropLast (hsound.nonempty e he) ((List.prefix_append_right_inj m.root).mp hp)
      exact (hsound.apart e' he' e he hbelow hdiff).1
    exact hway.of_prefix ((List.prefix_append_right_inj m.root).mpr hpre)
  obtain ⟨hg, honly, hstore⟩ := removeDirs_ok env hr.ground hdirs hremove
  obtain ⟨hfiles, hinner, -⟩ := writeManifest_ok env hwrite
  refine ⟨?_, ?_, ?_, ?_⟩
  · show Grounded t₃.files.view
    rw [hfiles]
    exact hg
  · intro e he
    show Holds env t₃.files _ _
    rw [hfiles]
    exact honly.holds id (fun _ => id) (hr.holds e he)
  · show Only _ _ _ w.files t₃.files
    rw [hfiles]
    refine (hr.only.mono (fun _ h => h) (fun _ h => h) fun _ h => h.elim).trans
      (honly.mono (fun _ h => h.elim) (fun _ h => h.elim) ?_)
    rintro l ⟨d, hd, rfl⟩
    exact ⟨d, List.mem_reverse.mp hd, rfl⟩
  · show ({ t₃.inner with manifests := _ } : Inner) = _
    rw [hinner, hstore.inner, hr.store.inner]

/-! ## Several steps -/

/-- Where a path of the steps is below another one, neither was there. -/
def Apart (steps : List Manifest) : Prop :=
  ∀ m ∈ steps, ∀ m' ∈ steps, ∀ e ∈ m.entries, ∀ e' ∈ m'.entries, m.root ++ e.path <+: m'.root ++ e'.path →
    m.root ++ e.path ≠ m'.root ++ e'.path → e.before = .absent ∧ e'.before = .absent

/-- What is left when the steps are undone, one after the other. -/
structure UndoneEach (key : String) (steps : List Manifest) (w w' : World) : Prop where
  ground : Grounded w'.files.view
  /-- Of several steps at one path, the one undone last decides. -/
  holds : ∀ before m after, steps = before ++ m :: after → ∀ e ∈ m.entries,
    (∀ m' ∈ after, ¬ At m'.root m'.entries (m.root ++ e.path)) → Holds env w'.files (m.root ++ e.path) e.before
  only : Only (fun l => ∃ m ∈ steps, At m.root m.entries l) (fun l => ∃ m ∈ steps, Above m.root m.entries l)
    (fun l => ∃ m ∈ steps, Made m l) w.files w'.files
  undone : ∀ m ∈ steps, ∃ m', w'.inner.manifests.lookup (key, m.seq) = some m' ∧ m'.status = .undone
  others : ∀ k, (∀ m ∈ steps, k ≠ (key, m.seq)) → w'.inner.manifests.lookup k = w.inner.manifests.lookup k

theorem undoEach_ok (hfault : Honest env.fault) {key : String} {steps : List Manifest} {w w' : World}
    (hground : Grounded w.files.view) (hsound : ∀ m ∈ steps, Sound m.entries m.createdDirs) (hapart : Apart steps)
    (hclear : ∀ m ∈ steps, ∀ e ∈ m.entries, Unlinked w.files.view (m.root ++ e.path.dropLast))
    (h : undoEach env key steps w = (.ok (), w')) : UndoneEach env key steps w w' := by
  induction steps generalizing w with
  | nil =>
      cases h
      exact ⟨hground, by simp, .refl _, by simp, fun _ _ => rfl⟩
  | cons m steps ih =>
      obtain ⟨_, t, hone, hrest⟩ := Prog.bind_ok h
      have hm := List.mem_cons_self (a := m) (l := steps)
      have hr := undoOne_ok env hfault hground (hsound m hm) (hclear m hm) hone
      have hclear' : ∀ m' ∈ steps, ∀ e ∈ m'.entries, Unlinked t.files.view (m'.root ++ e.path.dropLast) := by
        intro m' hm' e he
        have hm' := List.mem_cons_of_mem m hm'
        refine hr.only.unlinked (hclear m' hm' e he) ?_
        rintro p target utf8 hp ⟨e', he', rfl⟩
        have hne := (hsound m' hm').nonempty e he
        rw [← dropLast_below hne] at hp
        obtain ⟨hbelow, hdiff⟩ := prefix_of_dropLast (by simp [hne]) hp
        exact (hr.holds e' he').not_link env (hapart m hm m' hm' e' he' e he hbelow hdiff).1
      have hs := ih hr.ground (fun m' hm' => hsound m' (List.mem_cons_of_mem _ hm'))
        (fun m₁ h₁ m₂ h₂ => hapart m₁ (List.mem_cons_of_mem _ h₁) m₂ (List.mem_cons_of_mem _ h₂)) hclear' hrest
      refine ⟨hs.ground, ?_, ?_, ?_, ?_⟩
      · intro before m' after heq e he hlast
        cases before with
        | nil =>
            obtain ⟨rfl, rfl⟩ := List.cons.inj heq
            refine hs.only.holds ?_ ?_ (hr.holds e he)
            · rintro ⟨m', hm', hat⟩
              exact hlast m' hm' hat
            · rintro - ⟨m', hm', e', he', hbefore, hp⟩
              have hm' := List.mem_cons_of_mem m hm'
              have hne := (hsound m' hm').nonempty e' he'
              obtain ⟨hbelow, hdiff⟩ := prefix_of_dropLast (by simp [hne]) hp
              exact hbefore (hapart m hm m' hm' e he e' he' hbelow hdiff).2
        | cons m₀ before =>
            obtain ⟨rfl, hrest⟩ := List.cons.inj heq
            exact hs.holds before m' after hrest e he hlast
      · refine (hr.only.mono ?_ ?_ ?_).trans (hs.only.mono ?_ ?_ ?_)
        · exact fun l hl => ⟨m, hm, hl⟩
        · exact fun l hl => ⟨m, hm, hl⟩
        · exact fun l hl => ⟨m, hm, hl⟩
        · exact fun l ⟨m', hm', hl⟩ => ⟨m', List.mem_cons_of_mem _ hm', hl⟩
        · exact fun l ⟨m', hm', hl⟩ => ⟨m', List.mem_cons_of_mem _ hm', hl⟩
        · exact fun l ⟨m', hm', hl⟩ => ⟨m', List.mem_cons_of_mem _ hm', hl⟩
      · intro m' hm'
        by_cases hin : ∃ m₁ ∈ steps, m₁.seq = m'.seq
        · obtain ⟨m₁, hm₁, hseq⟩ := hin
          rw [← hseq]
          exact hs.undone m₁ hm₁
        · rcases List.mem_cons.mp hm' with rfl | hm'
          · refine ⟨{ m' with status := .undone }, ?_, rfl⟩
            rw [hs.others (key, m'.seq) fun m₁ hm₁ heq => hin ⟨m₁, hm₁, (Prod.mk.inj heq).2.symm⟩, hr.inner]
            exact AList.lookup_insert _
          · exact absurd ⟨m', hm', rfl⟩ hin
      · intro k hk
        rw [hs.others k fun m₁ hm₁ => hk m₁ (List.mem_cons_of_mem _ hm₁), hr.inner]
        exact AList.lookup_insert_ne (hk m hm)

/-! ## Before anything is restored -/

/-- The paths of the steps are where they were, with no link on the way. -/
structure Rechecked (files : Files) (m : Manifest) : Prop where
  root : Unlinked files.view m.root
  folder : files.at? m.root = some .folder
  way : ∀ e ∈ m.entries, Way files m.root e.path.dropLast

theorem recheckEntries_looks (root : List String) (entries : List Entry) : Looks (recheckEntries env root entries) := by
  induction entries with
  | nil => exact .pure _
  | cons e entries ih => exact Looks.bind (walkParents_looks env _ _ _ _) fun _ => ih

theorem recheck_looks (steps : List Manifest) : Looks (recheck env steps) := by
  induction steps with
  | nil => exact .pure _
  | cons m steps ih =>
      exact Looks.bind (canonicalRoot_looks env _ _ _) fun _ => Looks.bind (.ofExcept _) fun _ =>
        Looks.bind (recheckEntries_looks env _ _) fun _ => ih

theorem recheckEntries_ok (hfault : Honest env.fault) {files : Files} (hground : Grounded files.view) {root : List String}
    (hroot : Unlinked files.view root) (hfolder : files.at? root = some .folder) {entries : List Entry} {w w' : World}
    (hw : w.files = files) (h : recheckEntries env root entries w = (.ok (), w')) :
    ∀ e ∈ entries, Way files root e.path.dropLast := by
  induction entries generalizing w with
  | nil => exact fun e he => absurd he List.not_mem_nil
  | cons e entries ih =>
      obtain ⟨dirs, t, hwalk, h⟩ := Prog.bind_ok h
      have ht : t.files = files := (Looks.run (walkParents_looks env _ _ _ _) hwalk).files.trans hw
      have hhere : Way files root [] := by
        intro q hq
        rw [List.prefix_nil.mp hq, List.append_nil]
        exact .inl hfolder
      have hway := (walkParents_ok env hfault hground hroot hw hhere hwalk).1
      intro e' he'
      rcases List.mem_cons.mp he' with rfl | he'
      · simpa using hway
      · exact ih ht h e' he'

theorem recheck_ok (hfault : Honest env.fault) {files : Files} (hground : Grounded files.view) {steps : List Manifest}
    {w w' : World} (hw : w.files = files) (h : recheck env steps w = (.ok (), w')) :
    ∀ m ∈ steps, Rechecked files m := by
  induction steps generalizing w with
  | nil => exact fun m hm => absurd hm List.not_mem_nil
  | cons m steps ih =>
      obtain ⟨now, t, hnow, hchecked⟩ := Prog.bind_ok h
      have ht : t.files = files := (Looks.run (canonicalRoot_looks env _ _ _) hnow).files.trans hw
      obtain ⟨_, _, hcompared, hlooked⟩ := Prog.bind_ok hchecked
      obtain ⟨hsame, rfl⟩ := Prog.ofExcept_ok hcompared
      obtain ⟨_, v, hentries, hothers⟩ := Prog.bind_ok hlooked
      have hv : v.files = files := (Looks.run (recheckEntries_looks env _ _) hentries).files.trans ht
      have hroot : now = m.root := by
        unfold sameRoot at hsame
        split at hsame
        · assumption
        · cases hsame
      subst hroot
      obtain ⟨hunlinked, hfolder⟩ := canonicalRoot_ok env (hw ▸ hground) (.inl rfl) hnow
      rw [hw] at hunlinked hfolder
      intro m' hm'
      rcases List.mem_cons.mp hm' with rfl | hm'
      · exact ⟨hunlinked, hfolder, recheckEntries_ok env hfault hground hunlinked hfolder ht hentries⟩
      · exact ih hv hothers m' hm'

/-- What a path holds, to be compared. -/
def fingerprintAt (files : Files) (loc : List String) : Fingerprint :=
  match files.at? loc with
  | none => .absent
  | some (.file bytes _) => .file (env.sha256Hex bytes)
  | some (.link target true) => .symlink target
  | some (.link _ false) => .other "symlink with a non-UTF-8 target"
  | some .folder => .other "directory"
  | some .special => .other "special file"

theorem fingerprintNow_looks (loc : List String) : Looks (fingerprintNow env loc) := by
  refine Looks.bind (Prog.Moves.attempt (lstat_looks env _)) fun found => ?_
  split
  · exact .pure _
  · exact .throw _
  · exact Looks.bind (call_looks env _) fun _ => .pure _
  · exact .pure _
  · exact .pure _
  · exact Looks.bind (call_looks env _) fun _ => .pure _

theorem fingerprintNow_ok (hfault : Honest env.fault) {loc : List String} {f : Fingerprint} {w w' : World}
    (hground : Grounded w.files.view) (hclear : Unlinked w.files.view loc.dropLast)
    (h : fingerprintNow env loc w = (.ok f, w')) : f = fingerprintAt env w.files loc := by
  obtain ⟨found, t, hfound, h⟩ := Prog.bind_ok h
  have hlstat := Prog.attempt_ok hfound
  unfold fingerprintAt
  split at h
  · rw [lstat_nothing env hfault hground hclear hlstat]
    cases h
    rfl
  · cases h
  · rename_i target utf8
    rw [lstat_found env hground hclear hlstat]
    obtain ⟨_, u, -, h⟩ := Prog.bind_ok h
    cases h
    cases utf8 <;> rfl
  · rw [lstat_found env hground hclear hlstat]
    cases h
    rfl
  · rw [lstat_found env hground hclear hlstat]
    cases h
    rfl
  · rw [lstat_found env hground hclear hlstat]
    obtain ⟨_, u, -, h⟩ := Prog.bind_ok h
    cases h
    rfl

theorem current_looks (virt : Virtual) (abs : List String) : Looks (current env virt abs) := by
  unfold current
  split
  · exact .pure _
  · exact fingerprintNow_looks env abs

theorem preflightEntries_looks (m : Manifest) (entries : List Entry) (virt : Virtual) :
    Looks (preflightEntries env m entries virt) := by
  induction entries generalizing virt with
  | nil => exact .pure _
  | cons e entries ih => exact Looks.bind (current_looks env _ _) fun _ => Looks.bind (ih _) fun _ => .pure _

theorem preflight_looks (steps : List Manifest) (virt : Virtual) : Looks (preflight env steps virt) := by
  induction steps generalizing virt with
  | nil => exact .pure _
  | cons m steps ih => exact Looks.bind (preflightEntries_looks env _ _ _) fun _ => Looks.bind (ih _) fun _ => .pure _

/-- An entry that may be undone: its path holds what it held before the step, or what the step left. -/
def Expected (files : Files) (m : Manifest) (e : Entry) : Prop :=
  fingerprintAt env files (m.root ++ e.path) = e.before.fingerprint ∨ fingerprintAt env files (m.root ++ e.path) = e.post

section

variable (hfault : Honest env.fault) {files : Files} (hground : Grounded files.view)

include hfault hground

theorem preflightEntries_ok {m : Manifest} {entries : List Entry} {virt virt' : Virtual} {found : List Conflict}
    {w w' : World} (hw : w.files = files) (hclear : ∀ e ∈ entries, Unlinked files.view (m.root ++ e.path).dropLast)
    (hdistinct : (entries.map Entry.path).Nodup)
    (h : preflightEntries env m entries virt w = (.ok (found, virt'), w')) :
    (found = [] → ∀ e ∈ entries, virt.lookup (m.root ++ e.path) = none → Expected env files m e) ∧
      ∀ l, ¬ At m.root entries l → virt'.lookup l = virt.lookup l := by
  induction entries generalizing virt virt' found w with
  | nil =>
      cases h
      exact ⟨by simp, fun _ _ => rfl⟩
  | cons e entries ih =>
      obtain ⟨now, t, hnow, h⟩ := Prog.bind_ok h
      have ht : t.files = files := (Looks.run (current_looks env _ _) hnow).files.trans hw
      obtain ⟨⟨more, virt₂⟩, u, hmore, h⟩ := Prog.bind_ok h
      cases h
      obtain ⟨hnew, hdistinct'⟩ := List.nodup_cons.mp hdistinct
      obtain ⟨hfound, hrest⟩ := ih ht (fun e' he' => hclear e' (List.mem_cons_of_mem _ he')) hdistinct' hmore
      constructor
      · intro hnil e' he' hvirt
        obtain ⟨hconflict, hmore'⟩ := List.append_eq_nil_iff.mp hnil
        rcases List.mem_cons.mp he' with rfl | he'
        · have hnow' : now = fingerprintAt env files (m.root ++ e'.path) := by
            unfold current at hnow
            rw [hvirt] at hnow
            have := fingerprintNow_ok env hfault (hw ▸ hground) (hw ▸ hclear e' List.mem_cons_self) hnow
            rwa [hw] at this
          unfold Expected
          rw [← hnow']
          unfold conflictOf at hconflict
          split at hconflict
          · cases hconflict
          · rename_i hok
            by_contra hboth
            exact hok (not_or.mp hboth)
        · refine hfound hmore' e' he' ?_
          have hdiff : m.root ++ e'.path ≠ m.root ++ e.path := by
            intro heq
            exact hnew (List.mem_map.mpr ⟨e', he', List.append_cancel_left heq⟩)
          rw [AList.lookup_insert_ne hdiff]
          exact hvirt
      · intro l hl
        rw [hrest l fun ⟨e', he', heq⟩ => hl ⟨e', List.mem_cons_of_mem _ he', heq⟩]
        exact AList.lookup_insert_ne fun heq => hl ⟨e, List.mem_cons_self, heq.symm⟩

theorem preflight_ok {steps : List Manifest} {virt : Virtual} {w w' : World} (hw : w.files = files)
    (hclear : ∀ m ∈ steps, ∀ e ∈ m.entries, Unlinked files.view (m.root ++ e.path).dropLast)
    (hdistinct : ∀ m ∈ steps, (m.entries.map Entry.path).Nodup) (h : preflight env steps virt w = (.ok [], w')) :
    ∀ before m after, steps = before ++ m :: after → ∀ e ∈ m.entries, virt.lookup (m.root ++ e.path) = none →
      (∀ m' ∈ before, ¬ At m'.root m'.entries (m.root ++ e.path)) → Expected env files m e := by
  induction steps generalizing virt w with
  | nil => simp
  | cons m₀ steps ih =>
      obtain ⟨⟨found, virt₂⟩, t, hone, hthen⟩ := Prog.bind_ok h
      have ht : t.files = files := (Looks.run (preflightEntries_looks env _ _ _) hone).files.trans hw
      obtain ⟨more, u, hmore, hboth⟩ := Prog.bind_ok hthen
      obtain ⟨hnil, rfl⟩ := Prod.mk.inj hboth
      obtain ⟨rfl, rfl⟩ := List.append_eq_nil_iff.mp (Except.ok.inj hnil)
      have hm₀ := List.mem_cons_self (a := m₀) (l := steps)
      obtain ⟨hfound, hrest⟩ := preflightEntries_ok env hfault hground hw (hclear m₀ hm₀) (hdistinct m₀ hm₀) hone
      have hlater := ih ht (fun m hm => hclear m (List.mem_cons_of_mem _ hm))
        (fun m hm => hdistinct m (List.mem_cons_of_mem _ hm)) hmore
      intro before m after heq e he hvirt hfirst
      cases before with
      | nil =>
          obtain ⟨rfl, rfl⟩ := List.cons.inj heq
          exact hfound rfl e he hvirt
      | cons m₁ before =>
          obtain ⟨rfl, hrest'⟩ := List.cons.inj heq
          refine hlater before m after hrest' e he ?_ fun m' hm' => hfirst m' (List.mem_cons_of_mem _ hm')
          rw [hrest _ (hfirst m₀ List.mem_cons_self)]
          exact hvirt

end

theorem verifyEntries_looks (entries : List Entry) : Looks (verifyEntries env entries) := by
  induction entries with
  | nil => exact .pure _
  | cons e entries ih =>
      unfold verifyEntries
      split
      · exact Looks.bind (readBlob_looks env _) fun _ => ih
      · exact ih

theorem verifyAll_looks (steps : List Manifest) : Looks (verifyAll env steps) := by
  induction steps with
  | nil => exact .pure _
  | cons m steps ih => exact Looks.bind (verifyEntries_looks env _) fun _ => ih

/-! ## The whole undo -/

/-- The session's metadata is all that a `touch` changes. -/
theorem touch_files (session : String) : Prog.Moves (fun w w' => w'.files = w.files) (touch env session) := by
  have htrans : ∀ s t u : World, t.files = s.files → u.files = t.files → u.files = s.files := fun _ _ _ h h' => h'.trans h
  have hcall (path : List String) : Prog.Moves (fun w w' : World => w'.files = w.files) (call env path) :=
    (call_looks env path).mono fun _ _ h => h.files
  have hchange (path : List String) (f : Disk → Disk) :
      Prog.Moves (fun w w' : World => w'.files = w.files) (change env path f) := by
    refine Prog.Moves.mapError fun w => ?_
    unfold io Prog.act
    dsimp only
    split <;> rfl
  refine Prog.Moves.bind htrans (fun w => rfl) fun _ => Prog.Moves.bind htrans (fun w => rfl) fun m => ?_
  exact Prog.Moves.bind htrans (hcall _) fun _ => Prog.Moves.bind htrans (hcall _) fun _ =>
    Prog.Moves.bind htrans (hcall _) fun _ => Prog.Moves.bind htrans (hcall _) fun _ =>
      Prog.Moves.bind htrans (hchange _ _) fun _ => hcall _

/-- What an undo that succeeds has done. -/
structure Undone (key : String) (steps : List Manifest) (w w' : World) : Prop where
  each : UndoneEach env key steps w w'
  /-- No path was overwritten that held anything else. -/
  expected : ∀ before m after, steps = before ++ m :: after → ∀ e ∈ m.entries,
    (∀ m' ∈ before, ¬ At m'.root m'.entries (m.root ++ e.path)) → Expected env w.files m e

theorem undoMany_ok (hfault : Honest env.fault) {key : String} {steps : List Manifest} {report : UndoReport} {w w' : World}
    (hground : Grounded w.files.view) (hsound : ∀ m ∈ steps, Sound m.entries m.createdDirs) (hapart : Apart steps)
    (h : undoMany env key steps w = (.ok report, w')) : Undone env key steps w w' ∧ report = .of steps := by
  obtain ⟨_, _, hg, h⟩ := Prog.bind_ok h
  obtain ⟨rfl, rfl⟩ := Prog.read_ok hg
  obtain ⟨_, _, hbusy, h⟩ := Prog.bind_ok h
  obtain ⟨-, rfl⟩ := Prog.ofExcept_ok hbusy
  obtain ⟨_, t₂, hrecheck, h⟩ := Prog.bind_ok h
  obtain ⟨conflicts, t₄, hpreflight, h⟩ := Prog.bind_ok h
  obtain ⟨_, _, hrefuse, h⟩ := Prog.bind_ok h
  obtain ⟨hrefuse, rfl⟩ := Prog.ofExcept_ok hrefuse
  obtain ⟨_, t₅, hverify, h⟩ := Prog.bind_ok h
  obtain ⟨_, t₆, heach, h⟩ := Prog.bind_ok h
  obtain ⟨_, t₇, htouch, hdone⟩ := Prog.bind_ok h
  obtain ⟨hreport, rfl⟩ := Prod.mk.inj hdone
  have h₂ : Still w t₂ := Looks.run (recheck_looks env _) hrecheck
  have h₄ : Still w t₄ := h₂.trans _ _ _ (Looks.run (preflight_looks env _ _) hpreflight)
  have h₅ : Still w t₅ := h₄.trans _ _ _ (Looks.run (verifyAll_looks env _) hverify)
  have hchecked := recheck_ok env hfault hground rfl hrecheck
  have hclear : ∀ m ∈ steps, ∀ e ∈ m.entries, Unlinked w.files.view (m.root ++ e.path.dropLast) :=
    fun m hm e he => ((hchecked m hm).way e he).unlinked (hchecked m hm).root
  have hclear' : ∀ m ∈ steps, ∀ e ∈ m.entries, Unlinked w.files.view (m.root ++ e.path).dropLast := by
    intro m hm e he
    rw [dropLast_below ((hsound m hm).nonempty e he)]
    exact hclear m hm e he
  have hnone : conflicts = [] := by
    unfold refuseConflicts at hrefuse
    split at hrefuse
    · assumption
    · cases hrefuse
  subst hnone
  have hexpected := preflight_ok env hfault hground h₂.files hclear' (fun m hm => (hsound m hm).distinct) hpreflight
  have hu := undoEach_ok env hfault (h₅.files ▸ hground) hsound hapart (fun m hm e he => h₅.files ▸ hclear m hm e he) heach
  have hfiles : t₇.files = t₆.files := by
    have := touch_files env key t₆
    rwa [htouch] at this
  have hmanifests : t₇.inner.manifests = t₆.inner.manifests := by
    have := touch_manifests env key t₆
    rwa [htouch] at this
  refine ⟨⟨⟨?_, ?_, ?_, ?_, ?_⟩, ?_⟩, (Except.ok.inj hreport).symm⟩
  · rw [hfiles]
    exact hu.ground
  · rw [hfiles]
    exact hu.holds
  · rw [hfiles, ← h₅.files]
    exact hu.only
  · rw [hmanifests]
    exact hu.undone
  · intro k hk
    rw [hmanifests, hu.others k hk, h₅.inner]
  · exact fun before m after heq e he hfirst => hexpected before m after heq e he (AList.lookup_empty _) hfirst

end

end AgentRuntime.Checkpoints
