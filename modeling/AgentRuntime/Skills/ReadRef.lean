import AgentRuntime.Lib.Acceptor
import AgentRuntime.Lib.Text
import AgentRuntime.Skills.Precedence

/-!
# `Skills.ReadRef` — reading a file of a skill (`agent-loop/src/skills.rs`)

A file is read when it was listed, and through the links on its way. Listing goes by the file's own place below the
skill (`Listed`), so a link that is listed may lead to a script. What `skills.lock` pins is checked against the bytes.
-/

namespace AgentRuntime.Skills

open FileTree
open AgentRuntime.Guard (hasRoot components component component_toList NormalName)

/-! ## Reading -/

section

variable (env : Env)

def blank (s : String) : Bool := s.toList.all Text.isWhitespace

def noSkill (name : String) : String := s!"no skill named '{name}'"

def unavailable (rel : String) : String := s!"'{rel}' is unavailable"

def notListed (s : Skill) (rel : String) : String :=
  let listed := if s.refs = [] then "none" else ", ".intercalate s.refs
  s!"'{rel}' is not a listed file of skill '{s.name}' (listed: {listed})"

def scriptReason (rel : String) : String :=
  s!"'{rel}' is a script; skill scripts are listed for reference only and are never executed or loaded"

/-- Only what is listed is read, and no script. -/
def checkListed (s : Skill) (rel : String) : Except String Unit :=
  if blank rel then .error "ref is empty"
  else if rel ∈ s.scripts then .error (scriptReason rel)
  else if rel ∈ s.refs then .ok ()
  else .error (notListed s rel)

/-- The regular file of the skill that a path leads to. -/
def locateRef (s : Skill) (rel : String) : Except String (List String) := do
  let canon ← (env.fs.canonicalize ((Path.ofLoc s.dir).join rel)).mapError fun _ => unavailable rel
  if s.dir <+: canon then
    if env.fs.isFile (.ofLoc canon) then .ok canon else .error s!"'{rel}' is not a file"
  else .error s!"'{rel}' resolves outside the skill"

/-- The text of the file, which must have the hash that is pinned for it. -/
def readPinnedText (s : Skill) (rel : String) (loc : List String) : Except String String :=
  if maxRefBytes < (env.fs.bytes loc).length then .error s!"'{rel}' is too large (over {maxRefBytes} bytes)"
  else if (s.refSha256.lookup rel).any fun want => decide (env.sha256Hex (env.fs.bytes loc) ≠ want) then
    .error s!"'{rel}' no longer matches the sha256 skills.lock pins; it was not read"
  else (fromUtf8 (env.fs.bytes loc)).elim (.error s!"'{rel}' is not a text file") .ok

/-- `read_ref`. -/
def readRef (lib : SkillLibrary) (name rel : String) : Except String String := do
  let s ← (lib.get name).elim (.error (noSkill name)) .ok
  checkListed s rel
  let loc ← locateRef env s rel
  readPinnedText env s rel loc

variable {env}

theorem checkListed_eq_ok {s : Skill} {rel : String} :
    checkListed s rel = .ok () ↔ blank rel = false ∧ rel ∉ s.scripts ∧ rel ∈ s.refs := by
  unfold checkListed
  split
  · simp [*]
  · split
    · simp [*]
    · split
      · simp [*]
      · simp [*]

theorem locateRef_eq_ok {s : Skill} {rel : String} {loc : List String} :
    locateRef env s rel = .ok loc ↔
      env.fs.canonicalize ((Path.ofLoc s.dir).join rel) = .ok loc ∧ s.dir <+: loc ∧
        env.fs.isFile (.ofLoc loc) = true := by
  unfold locateRef
  rw [Except.bind_eq_ok]
  cases env.fs.canonicalize ((Path.ofLoc s.dir).join rel) with
  | error e => simp [Except.mapError]
  | ok canon =>
      constructor
      · rintro ⟨_, ⟨⟩, h⟩
        split at h
        · rename_i hinside
          split at h
          · rename_i hfile
            cases h
            exact ⟨rfl, hinside, hfile⟩
          · cases h
        · cases h
      · rintro ⟨⟨⟩, hinside, hfile⟩
        refine ⟨loc, rfl, ?_⟩
        rw [if_pos hinside, if_pos hfile]

theorem readPinnedText_eq_ok {s : Skill} {rel text : String} {loc : List String} :
    readPinnedText env s rel loc = .ok text ↔
      (env.fs.bytes loc).length ≤ maxRefBytes ∧
        (∀ want, s.refSha256.lookup rel = some want → env.sha256Hex (env.fs.bytes loc) = want) ∧
        fromUtf8 (env.fs.bytes loc) = some text := by
  have hpins : ((s.refSha256.lookup rel).any fun want => decide (env.sha256Hex (env.fs.bytes loc) ≠ want)) = false ↔
      ∀ want, s.refSha256.lookup rel = some want → env.sha256Hex (env.fs.bytes loc) = want := by
    cases s.refSha256.lookup rel with
    | none => simp
    | some want => simp
  unfold readPinnedText
  split
  · rename_i hlarge
    simp [Nat.not_le.mpr hlarge]
  · rename_i hsmall
    split
    · rename_i hpin
      rw [← hpins, hpin]
      simp
    · rename_i hpin
      rw [← hpins, Bool.eq_false_of_not_eq_true hpin]
      cases fromUtf8 (env.fs.bytes loc) with
      | none => simp
      | some t => simp [Nat.not_lt.mp hsmall]

/-- **A read** that succeeds, in full. -/
theorem readRef_eq_ok {lib : SkillLibrary} {name rel text : String} {s : Skill} (h : lib.get name = some s) :
    readRef env lib name rel = .ok text ↔
      (blank rel = false ∧ rel ∉ s.scripts ∧ rel ∈ s.refs) ∧ ∃ loc,
        (env.fs.canonicalize ((Path.ofLoc s.dir).join rel) = .ok loc ∧ s.dir <+: loc ∧
          env.fs.isFile (.ofLoc loc) = true) ∧
        (env.fs.bytes loc).length ≤ maxRefBytes ∧
        (∀ want, s.refSha256.lookup rel = some want → env.sha256Hex (env.fs.bytes loc) = want) ∧
        fromUtf8 (env.fs.bytes loc) = some text := by
  unfold readRef
  rw [h, Except.bind_eq_ok]
  constructor
  · rintro ⟨_, ⟨⟩, hrest⟩
    obtain ⟨_, hlisted, hrest⟩ := Except.bind_eq_ok.mp hrest
    obtain ⟨loc, hloc, htext⟩ := Except.bind_eq_ok.mp hrest
    exact ⟨checkListed_eq_ok.mp hlisted, loc, locateRef_eq_ok.mp hloc, readPinnedText_eq_ok.mp htext⟩
  · rintro ⟨hlisted, loc, hloc, htext⟩
    refine ⟨s, rfl, Except.bind_eq_ok.mpr ⟨(), checkListed_eq_ok.mpr hlisted, ?_⟩⟩
    exact Except.bind_eq_ok.mpr ⟨loc, locateRef_eq_ok.mpr hloc, readPinnedText_eq_ok.mpr htext⟩

end

/-! ## What is listed -/

section

variable {fs : Fs}

theorem root_unlinked : Unlinked fs.view [] := Unlinked.of_prefix fs.cwd_unlinked List.nil_prefix

theorem canonicalize_unlinked {p : Path} {loc : List String} (h : fs.canonicalize p = .ok loc) :
    Unlinked fs.view loc := by
  refine resolve_unlinked ?_ h
  split
  · exact root_unlinked
  · exact fs.cwd_unlinked

/-- A folder of the skill, reached without a link. -/
structure Reached (fs : Fs) (dir sub : List String) : Prop where
  names : ∀ n ∈ sub, NormalName n
  unlinked : Unlinked fs.view (dir ++ sub)

/-- A file of the skill, or a link to one. -/
structure Listed (fs : Fs) (dir rel : List String) : Prop where
  nonempty : rel ≠ []
  names : ∀ n ∈ rel, NormalName n
  kind : (Unlinked fs.view (dir ++ rel) ∧ fs.view (dir ++ rel) = some .file) ∨
    ∃ target loc, fs.lstat (.ofLoc (dir ++ rel)) = .ok (dir ++ rel, .link target) ∧
      fs.canonicalize (.ofLoc (dir ++ rel)) = .ok loc ∧ dir <+: loc ∧ fs.isFile (.ofLoc loc) = true

/-- What a listing holds. -/
structure Sound (fs : Fs) (dir : List String) (l : Listing) : Prop where
  refs : ∀ r ∈ l.refs, ∃ rel, r = relString rel ∧ Listed fs dir rel ∧ r.startsWith "scripts/" = false
  scripts : ∀ r ∈ l.scripts, r.startsWith "scripts/" = true
  pushed : ∀ sub ∈ l.pushed, Reached fs dir sub

theorem Sound.add {dir rel : List String} {l : Listing} (h : Sound fs dir l) (hrel : Listed fs dir rel) :
    Sound fs dir (l.add rel) := by
  unfold Listing.add
  split
  · exact h
  · split
    · rename_i hscript
      refine ⟨h.refs, ?_, h.pushed⟩
      intro r hr
      rcases List.mem_append.mp hr with hr | hr
      · exact h.scripts r hr
      · rw [List.mem_singleton.mp hr]
        exact hscript
    · rename_i hscript
      refine ⟨?_, h.scripts, h.pushed⟩
      intro r hr
      rcases List.mem_append.mp hr with hr | hr
      · exact h.refs r hr
      · rw [List.mem_singleton.mp hr]
        exact ⟨rel, rfl, hrel, Bool.eq_false_of_not_eq_true hscript⟩

theorem listEntry_sound {dir sub : List String} {depth : ℕ} {l : Listing} {n : String} (h : Sound fs dir l)
    (hsub : Reached fs dir sub) : Sound fs dir (listEntry fs dir depth l (sub ++ [n])) := by
  unfold listEntry
  cases hstat : fs.lstat (.ofLoc (dir ++ (sub ++ [n]))) with
  | error e => exact h
  | ok found =>
      obtain ⟨d, kind⟩ := found
      have hat := hstat
      rw [← List.append_assoc] at hat
      obtain ⟨rfl, hview⟩ := Fs.lstat_ofLoc_ok hsub.unlinked hat
      have hname : NormalName n := fs.named (dir ++ sub) n fun hnone => nomatch hview.symm.trans hnone
      have hnames : ∀ m ∈ sub ++ [n], NormalName m := by
        intro m hm
        rcases List.mem_append.mp hm with hm | hm
        · exact hsub.names m hm
        · rw [List.mem_singleton.mp hm]
          exact hname
      have hnonempty : sub ++ [n] ≠ [] := List.append_ne_nil_of_right_ne_nil _ (List.cons_ne_nil _ _)
      have hplain : (∀ target, kind ≠ .link target) → Unlinked fs.view (dir ++ (sub ++ [n])) := by
        intro hkind
        rw [← List.append_assoc]
        refine hsub.unlinked.concat fun target hlink => ?_
        rw [hview] at hlink
        exact hkind target (Option.some.inj hlink)
      cases kind with
      | link target =>
          simp only
          split
          · rename_i loc hloc
            split
            · rename_i hinside
              rw [List.append_assoc] at hstat
              exact h.add ⟨hnonempty, hnames, .inr ⟨target, loc, hstat, hloc, hinside.1, hinside.2⟩⟩
            · exact h
          · exact h
      | folder =>
          simp only
          split
          · refine ⟨h.refs, h.scripts, ?_⟩
            intro s hs
            rcases List.mem_append.mp hs with hs | hs
            · exact h.pushed s hs
            · rw [List.mem_singleton.mp hs]
              exact ⟨hnames, hplain nofun⟩
          · exact h
      | file =>
          simp only
          split
          · exact h
          · rw [List.append_assoc] at hview
            exact h.add ⟨hnonempty, hnames, .inl ⟨hplain nofun, hview⟩⟩

theorem listEntries_sound {dir sub : List String} {depth : ℕ} {names : List String} {l : Listing} (h : Sound fs dir l)
    (hsub : Reached fs dir sub) : Sound fs dir (listEntries fs dir sub depth names l) := by
  induction names generalizing l with
  | nil => exact h
  | cons n names ih =>
      unfold listEntries
      split
      · exact h
      · split
        · exact ih h
        · exact ih (listEntry_sound h hsub)

theorem listFolder_sound {dir : List String} (levels : ℕ) {sub refs scripts : List String}
    (h : Sound fs dir ⟨refs, scripts, []⟩) (hsub : Reached fs dir sub) :
    Sound fs dir ⟨(listFolder fs dir levels sub (refs, scripts)).1, (listFolder fs dir levels sub (refs, scripts)).2, []⟩ := by
  induction levels generalizing sub refs scripts with
  | zero =>
      have hentries := @listEntries_sound fs dir sub (maxResourceDepth - 1 - 0)
        (fs.sortedNames (.ofLoc (dir ++ sub))) _ h hsub
      exact ⟨hentries.refs, hentries.scripts, fun _ hs => absurd hs List.not_mem_nil⟩
  | succ levels ih =>
      have hentries := @listEntries_sound fs dir sub (maxResourceDepth - 1 - (levels + 1))
        (fs.sortedNames (.ofLoc (dir ++ sub))) _ h hsub
      unfold listFolder
      simp only
      -- the folders that were pushed are listed one after the other
      generalize listEntries fs dir sub (maxResourceDepth - 1 - (levels + 1)) (fs.sortedNames (.ofLoc (dir ++ sub)))
        ⟨refs, scripts, []⟩ = l at hentries ⊢
      have hpushed : ∀ s ∈ l.pushed.reverse, Reached fs dir s := fun s hs => hentries.pushed s (List.mem_reverse.mp hs)
      have hdone : Sound fs dir ⟨l.refs, l.scripts, []⟩ :=
        ⟨hentries.refs, hentries.scripts, fun _ hs => absurd hs List.not_mem_nil⟩
      generalize l.pushed.reverse = subs at hpushed
      generalize l.refs = done at hdone ⊢
      generalize l.scripts = doneScripts at hdone ⊢
      induction subs generalizing done doneScripts with
      | nil => exact hdone
      | cons s subs ihsubs =>
          have hs := hpushed s List.mem_cons_self
          exact ihsubs (fun s' hs' => hpushed s' (List.mem_cons_of_mem s hs')) _ _ (ih hdone hs)

theorem listResources_sound {dir : List String} (h : Unlinked fs.view dir) :
    Sound fs dir ⟨(listResources fs dir).1, (listResources fs dir).2, []⟩ := by
  have hnone : Sound fs dir ⟨[], [], []⟩ :=
    ⟨fun _ hr => absurd hr List.not_mem_nil, fun _ hr => absurd hr List.not_mem_nil,
      fun _ hs => absurd hs List.not_mem_nil⟩
  have hfolder := listFolder_sound (maxResourceDepth - 1) hnone
    ⟨fun _ hn => absurd hn List.not_mem_nil, by rw [List.append_nil]; exact h⟩
  refine ⟨?_, ?_, fun _ hs => absurd hs List.not_mem_nil⟩
  · intro r hr
    exact hfolder.refs r ((List.mem_insertionSort _).mp hr)
  · intro r hr
    exact hfolder.scripts r ((List.mem_insertionSort _).mp hr)

end

/-! ## A listed file and the path that is read -/

theorem hasRoot_relString {rel : List String} (hnames : ∀ n ∈ rel, NormalName n) : hasRoot (relString rel) = false := by
  unfold hasRoot relString
  rw [String.toList_ofList]
  cases rel with
  | nil => rfl
  | cons n rel =>
      have hn := hnames n List.mem_cons_self
      obtain ⟨c, cs, hcs⟩ := List.exists_cons_of_ne_nil hn.nonempty
      have hc : c ≠ '/' := by
        rintro rfl
        exact hn.noSlash (by rw [hcs]; exact List.mem_cons_self)
      have hhead : (['/'].intercalate ((n :: rel).map String.toList)).head? = some c := by
        rw [List.map_cons, hcs]
        cases rel with
        | nil => simp [List.intercalate]
        | cons m rel => simp [List.intercalate]
      rw [hhead]
      exact beq_eq_false_iff_ne.mpr fun h => hc (Option.some.inj h)

theorem components_relString {rel : List String} (hnonempty : rel ≠ []) (hnames : ∀ n ∈ rel, NormalName n) :
    components (relString rel) = rel.map .name := by
  unfold components relString
  rw [String.toList_ofList, List.splitOn_intercalate]
  · rw [List.filterMap_map]
    clear hnonempty
    induction rel with
    | nil => rfl
    | cons n rel ih =>
        have hname : (component ∘ String.toList) n = some (.name n) := component_toList (hnames n List.mem_cons_self)
        rw [List.filterMap_cons_some hname, List.map_cons, ih fun m hm => hnames m (List.mem_cons_of_mem n hm)]
  · intro piece hpiece
    obtain ⟨n, hn, rfl⟩ := List.mem_map.mp hpiece
    exact (hnames n hn).noSlash
  · exact fun h => hnonempty (List.map_eq_nil_iff.mp h)

theorem join_relString (dir : List String) {rel : List String} (hnonempty : rel ≠ []) (hnames : ∀ n ∈ rel, NormalName n) :
    (Path.ofLoc dir).join (relString rel) = .ofLoc (dir ++ rel) := by
  unfold Path.join
  rw [hasRoot_relString hnames, if_neg Bool.false_ne_true, components_relString hnonempty hnames]
  unfold Path.ofLoc
  rw [List.map_append]

/-- What is below the folder of scripts is written so. -/
theorem relString_scripts (n : String) (rest : List String) :
    (relString ("scripts" :: n :: rest)).startsWith "scripts/" = true := by
  rw [String.startsWith_string_iff]
  unfold relString
  rw [String.toList_ofList]
  exact ⟨['/'].intercalate ((n :: rest).map String.toList), by simp [List.intercalate]⟩

/-! ## Loaded skills -/

/-- Below the skill's folder of scripts. -/
def InScripts (dir loc : List String) : Prop := ∃ n rest, loc = dir ++ "scripts" :: n :: rest

section

variable {env : Env}

/-- What is loaded from a folder. -/
structure FromDir (env : Env) (s : Skill) : Prop where
  unlinked : Unlinked env.fs.view s.dir
  refs : s.refs = (listResources env.fs s.dir).1
  scripts : s.scripts = (listResources env.fs s.dir).2
  provenance : s.provenance = none
  pins : s.refSha256 = []

theorem loadOne_ok {dir : Path} {label : String} {s : Skill} (h : loadOne env dir label = .ok s) : FromDir env s := by
  obtain ⟨text, -, h⟩ := Except.bind_eq_ok.mp h
  obtain ⟨⟨fm, body⟩, -, h⟩ := Except.bind_eq_ok.mp h
  obtain ⟨_, -, h⟩ := Except.bind_eq_ok.mp h
  obtain ⟨canon, hcanon, h⟩ := Except.bind_eq_ok.mp h
  cases h
  unfold canonicalOr at hcanon
  cases hloc : env.fs.canonicalize dir with
  | error e =>
      rw [hloc] at hcanon
      cases hcanon
  | ok loc =>
      rw [hloc] at hcanon
      cases hcanon
      exact ⟨canonicalize_unlinked hloc, rfl, rfl, rfl, rfl⟩

/-- What is loaded by an entry of a lock. -/
structure FromLock (e : LockedSkill) (s : Skill) : Prop where
  name : s.name = e.name
  provenance : s.provenance ≠ none
  pins : ∀ rel ∈ s.refs, ∃ r ∈ e.refs, r.path = rel ∧ s.refSha256.lookup rel = some r.sha256

theorem loadRefs_ok {reject : Path → String → Rejected} {dir : List String} {entries done : List LockRef}
    {refs : List String} {pins : List (String × String)} {out : List String × List (String × String)}
    (hdone : ∀ rel ∈ refs, ∃ r ∈ done, r.path = rel ∧ pins.lookup rel = some r.sha256)
    (h : loadRefs env reject dir entries refs pins = .ok out) :
    ∀ rel ∈ out.1, ∃ r ∈ done ++ entries, r.path = rel ∧ out.2.lookup rel = some r.sha256 := by
  induction entries generalizing done refs pins with
  | nil =>
      cases h
      rw [List.append_nil]
      exact hdone
  | cons r entries ih =>
      unfold loadRefs at h
      split at h
      · cases h
        intro rel hrel
        obtain ⟨r', hr', hpath⟩ := hdone rel hrel
        exact ⟨r', List.mem_append_left _ hr', hpath⟩
      · split at h
        · cases h
        · split at h
          · split at h
            · cases h
            · have hrest := @ih (done ++ [r]) _ _ ?_ h
              · rw [List.append_assoc] at hrest
                exact hrest
              · intro rel hrel
                rw [SortedMap.lookup_insert]
                by_cases hsame : rel = r.path
                · rw [if_pos hsame]
                  exact ⟨r, List.mem_append_right _ (List.mem_singleton_self r), hsame.symm, rfl⟩
                · rw [if_neg hsame]
                  have hrel := (List.mem_append.mp hrel).resolve_right fun h => hsame (List.mem_singleton.mp h)
                  obtain ⟨r', hr', hpath⟩ := hdone rel hrel
                  exact ⟨r', List.mem_append_left _ hr', hpath⟩
          · cases h

theorem lockedMd_name {reject : Path → String → Rejected} {dir : List String} {e : LockedSkill}
    {fm : SkillFrontmatter} {body : String} (h : lockedMd env reject dir e = .ok (fm, body)) : fm.name = e.name := by
  obtain ⟨bytes, -, h⟩ := Except.bind_eq_ok.mp h
  obtain ⟨text, -, h⟩ := Except.bind_eq_ok.mp h
  obtain ⟨⟨fm', body'⟩, -, h⟩ := Except.bind_eq_ok.mp h
  obtain ⟨_, hname, h⟩ := Except.bind_eq_ok.mp h
  obtain ⟨_, -, h⟩ := Except.bind_eq_ok.mp h
  cases h
  unfold ensure at hname
  split at hname
  · rename_i hcond
    exact of_decide_eq_true hcond
  · cases hname

theorem loadLockedOne_ok {root : List String} {label : String} {lock : SkillLock} {e : LockedSkill} {s : Skill}
    (h : loadLockedOne env root label lock e = .ok s) : FromLock e s := by
  obtain ⟨dir, -, h⟩ := Except.bind_eq_ok.mp h
  obtain ⟨⟨fm, body⟩, hmd, h⟩ := Except.bind_eq_ok.mp h
  obtain ⟨⟨refs, pins⟩, hrefs, h⟩ := Except.bind_eq_ok.mp h
  simp only at h
  split at h
  · cases h
  · cases h
    refine ⟨lockedMd_name hmd, nofun, ?_⟩
    intro rel hrel
    have hpinned := @loadRefs_ok env _ dir e.refs [] [] [] _ (fun _ hr => absurd hr List.not_mem_nil) hrefs
    exact hpinned rel ((List.mem_insertionSort _).mp hrel)

/-- A skill of the library comes from a folder, or from an entry of a lock. -/
theorem get_cases {sources : List SkillSource} {name : String} {s : Skill}
    (h : (load env sources).get name = some s) :
    FromDir env s ∨ ∃ src ∈ sources, ∃ lock, src.lock = some lock ∧ ∃ e ∈ lock.admitted, e.name = name ∧ FromLock e s := by
  rw [load_get] at h
  obtain ⟨src, hsrc, hwithin⟩ : ∃ src ∈ sources, within env src name = [s] := by
    induction sources with
    | nil => cases h
    | cons src sources ih =>
        rw [chosen_cons] at h
        split at h
        · obtain ⟨src', hsrc', hwithin⟩ := ih h
          exact ⟨src', List.mem_cons_of_mem src hsrc', hwithin⟩
        · rename_i hwithin
          cases h
          exact ⟨src, List.mem_cons_self, hwithin⟩
        · cases h
  have hcounted : s ∈ counted env src ∧ s.name = name := by
    unfold within at hwithin
    split at hwithin
    · have hmem : s ∈ named name (counted env src) := hwithin ▸ List.mem_singleton_self s
      obtain ⟨hmem, hname⟩ := List.mem_filter.mp hmem
      exact ⟨hmem, of_decide_eq_true hname⟩
    · cases hwithin
  obtain ⟨hmem, hname⟩ := hcounted
  unfold counted at hmem
  cases hlock : src.lock with
  | none =>
      rw [hlock] at hmem
      obtain ⟨d, -, hload⟩ := List.mem_filterMap.mp (Distinct.mem_of_mem_firsts (List.mem_of_mem_take hmem)).1
      refine .inl ?_
      cases hone : loadOne env d src.label with
      | error e =>
          rw [hone] at hload
          cases hload
      | ok t =>
          rw [hone] at hload
          cases hload
          exact loadOne_ok hone
  | some lock =>
      rw [hlock] at hmem
      obtain ⟨result, hresult, hok⟩ := List.mem_filterMap.mp (List.mem_of_mem_take hmem)
      refine .inr ⟨src, hsrc, lock, hlock, ?_⟩
      unfold loadLocked at hresult
      split at hresult
      · rw [List.mem_singleton.mp hresult] at hok
        cases hok
      · rename_i root _
        obtain ⟨e, he, rfl⟩ := List.mem_map.mp hresult
        cases hone : loadLockedOne env root src.label lock e with
        | error r =>
            rw [hone] at hok
            cases hok
        | ok t =>
            rw [hone] at hok
            cases hok
            have hfrom := loadLockedOne_ok hone
            exact ⟨e, he, hfrom.name.symm.trans hname, hfrom⟩

/-! ## Confined reads -/

/-- Reads of a name are confined: only what is listed is read; for a skill of a folder it is a regular file of the
    skill, and no script; for a skill of a lock it has the hash that is pinned for it. -/
structure ConfinedReads (env : Env) (sources : List SkillSource) (name : String) : Prop where
  listed : ∀ rel text, readRef env (load env sources) name rel = .ok text →
    ∃ s, (load env sources).get name = some s ∧ rel ∈ s.refs
  inside : ∀ s, (load env sources).get name = some s → s.provenance = none →
    ∀ rel text, readRef env (load env sources) name rel = .ok text →
      ∃ loc, env.fs.canonicalize ((Path.ofLoc s.dir).join rel) = .ok loc ∧ s.dir <+: loc ∧ env.fs.regular loc = true ∧
        fromUtf8 (env.fs.bytes loc) = some text ∧ ¬ InScripts s.dir loc
  pinned : ∀ s, (load env sources).get name = some s → s.provenance ≠ none →
    ∀ rel text, readRef env (load env sources) name rel = .ok text →
      ∃ src ∈ sources, ∃ lock, src.lock = some lock ∧ ∃ e ∈ lock.admitted, e.name = name ∧ ∃ r ∈ e.refs, r.path = rel ∧
        env.sha256Hex text.toByteArray.data.toList = r.sha256

/-- No listed link leads to a script that can be read. -/
def NoLinkedScript (env : Env) (s : Skill) : Prop :=
  ∀ rel ∈ s.refs, ∀ d target loc, env.fs.lstat ((Path.ofLoc s.dir).join rel) = .ok (d, .link target) →
    env.fs.canonicalize ((Path.ofLoc s.dir).join rel) = .ok loc → InScripts s.dir loc →
      blank rel = true ∨ maxRefBytes < (env.fs.bytes loc).length ∨ fromUtf8 (env.fs.bytes loc) = none

theorem bytes_of_fromUtf8 {bytes : List UInt8} {text : String} (h : fromUtf8 bytes = some text) :
    text.toByteArray.data.toList = bytes := by
  unfold fromUtf8 String.fromUTF8? at h
  split at h
  · cases h
    exact List.toList_data_toByteArray
  · cases h

theorem FromDir.sound {s : Skill} (h : FromDir env s) : Sound env.fs s.dir ⟨s.refs, s.scripts, []⟩ := by
  rw [h.refs, h.scripts]
  exact listResources_sound h.unlinked

/-- What is read by its own place is no script; a link may lead to one. -/
theorem Listed.not_script {dir rel loc : List String} {fs : Fs} (h : Listed fs dir rel)
    (hrel : (relString rel).startsWith "scripts/" = false) (hloc : fs.canonicalize (.ofLoc (dir ++ rel)) = .ok loc)
    (hscript : InScripts dir loc) : ∃ target, fs.lstat (.ofLoc (dir ++ rel)) = .ok (dir ++ rel, .link target) := by
  rcases h.kind with ⟨hunlinked, -⟩ | ⟨target, -, hstat, -⟩
  · obtain rfl := Fs.canonicalize_ofLoc_eq hunlinked hloc
    obtain ⟨n, rest, heq⟩ := hscript
    rw [List.append_cancel_left heq, relString_scripts] at hrel
    cases hrel
  · exact ⟨target, hstat⟩

theorem Listed.of_link {dir rel d : List String} {target : String} {fs : Fs} (h : Listed fs dir rel)
    (hstat : fs.lstat (.ofLoc (dir ++ rel)) = .ok (d, .link target)) :
    ∃ loc, fs.canonicalize (.ofLoc (dir ++ rel)) = .ok loc ∧ dir <+: loc ∧ fs.isFile (.ofLoc loc) = true := by
  rcases h.kind with ⟨hunlinked, hview⟩ | ⟨_, loc, -, hloc, hinside, hfile⟩
  · rcases List.eq_nil_or_concat rel with rfl | ⟨sub, n, rfl⟩
    · exact absurd rfl h.nonempty
    · rw [List.concat_eq_append, ← List.append_assoc] at hunlinked hview hstat
      obtain ⟨-, hlink⟩ := Fs.lstat_ofLoc_ok (hunlinked.of_prefix (List.prefix_append _ _)) hstat
      rw [hview] at hlink
      cases hlink
  · exact ⟨loc, hloc, hinside, hfile⟩

/-- **Confined reads.** Reads are confined exactly when no listed link of a skill that is loaded from a folder leads to a
    text below its scripts. -/
theorem confinedReads_iff (env : Env) (sources : List SkillSource) (name : String) :
    ConfinedReads env sources name ↔
      ∀ s, (load env sources).get name = some s → s.provenance = none → NoLinkedScript env s := by
  constructor
  · intro h s hget hprov rel hrel d target loc hstat hloc hscript
    by_contra hreadable
    obtain ⟨hblank, hreadable⟩ := not_or.mp hreadable
    obtain ⟨hsmall, htext⟩ := not_or.mp hreadable
    rcases get_cases hget with hdir | ⟨_, -, _, -, _, -, -, hlock⟩
    · obtain ⟨text, htext⟩ := Option.ne_none_iff_exists'.mp htext
      obtain ⟨names, rfl, hlisted, hnot⟩ := hdir.sound.refs rel hrel
      have hjoin := join_relString s.dir hlisted.nonempty hlisted.names
      have hnotScript : relString names ∉ s.scripts := by
        intro hmem
        rw [hdir.sound.scripts _ hmem] at hnot
        cases hnot
      -- the listing has seen where the link leads
      have hfile : env.fs.isFile (.ofLoc loc) = true ∧ s.dir <+: loc := by
        obtain ⟨loc', hloc', hinside, hfile⟩ := hlisted.of_link (hjoin ▸ hstat)
        rw [← hjoin, hloc] at hloc'
        cases hloc'
        exact ⟨hfile, hinside⟩
      have hread : readRef env (load env sources) name (relString names) = .ok text := by
        refine (readRef_eq_ok hget).mpr ⟨⟨Bool.eq_false_of_not_eq_true hblank, hnotScript, hrel⟩, loc, ?_⟩
        refine ⟨⟨hloc, hfile.2, hfile.1⟩, Nat.not_lt.mp hsmall, ?_, htext⟩
        intro want hwant
        rw [hdir.pins] at hwant
        cases hwant
      obtain ⟨loc', hloc', -, -, -, hconfined⟩ := h.inside s hget hprov _ _ hread
      rw [hloc] at hloc'
      cases hloc'
      exact hconfined hscript
    · exact hlock.provenance hprov
  · intro h
    refine ⟨?_, ?_, ?_⟩
    · intro rel text hread
      cases hget : (load env sources).get name with
      | none =>
          unfold readRef at hread
          rw [hget] at hread
          cases hread
      | some s => exact ⟨s, rfl, ((readRef_eq_ok hget).mp hread).1.2.2⟩
    · intro s hget hprov rel text hread
      obtain ⟨⟨hblank, -, hrel⟩, loc, ⟨hloc, hinside, hfile⟩, hsmall, -, htext⟩ := (readRef_eq_ok hget).mp hread
      rcases get_cases hget with hdir | ⟨_, -, _, -, _, -, -, hlock⟩
      · refine ⟨loc, hloc, hinside, ?_, htext, ?_⟩
        · rwa [Fs.isFile_ofLoc (canonicalize_unlinked hloc)] at hfile
        · intro hscript
          obtain ⟨names, rfl, hlisted, hnot⟩ := hdir.sound.refs rel hrel
          have hjoin := join_relString s.dir hlisted.nonempty hlisted.names
          obtain ⟨target, hstat⟩ := hlisted.not_script hnot (hjoin ▸ hloc) hscript
          rcases h s hget hprov _ hrel _ target loc (hjoin ▸ hstat) hloc hscript with hb | hl | hu
          · rw [hblank] at hb
            cases hb
          · exact absurd hsmall (Nat.not_le.mpr hl)
          · rw [htext] at hu
            cases hu
      · exact absurd hprov hlock.provenance
    · intro s hget hprov rel text hread
      obtain ⟨⟨-, -, hrel⟩, loc, -, -, hpins, htext⟩ := (readRef_eq_ok hget).mp hread
      rcases get_cases hget with hdir | ⟨src, hsrc, lock, hlock, e, he, hname, hfrom⟩
      · exact absurd hdir.provenance hprov
      · obtain ⟨r, hr, hpath, hpin⟩ := hfrom.pins rel hrel
        refine ⟨src, hsrc, lock, hlock, e, he, hname, r, hr, hpath, ?_⟩
        rw [bytes_of_fromUtf8 htext]
        exact hpins r.sha256 hpin

end

/-! A skill `k` with a script, and a link among its references that leads to it. -/

def linkTree : Tree String String :=
  .folder [("s", .folder [("k", .folder [("SKILL.md", .file),
    ("references", .folder [("x.md", .link "../scripts/run.sh")]), ("scripts", .folder [("run.sh", .file)])])])]

theorem linkTree_all : linkTree.All NormalName fun _ => True := by
  have hname : ∀ n ∈ ["s", "k", "SKILL.md", "references", "x.md", "scripts", "run.sh"], NormalName n := by
    intro n hn
    have hchars : (n.toList ≠ [] ∧ n.toList ≠ ['.'] ∧ n.toList ≠ ['.', '.'] ∧ '/' ∉ n.toList) := by
      revert n
      decide +kernel
    exact ⟨hchars.1, hchars.2.1, hchars.2.2.1, hchars.2.2.2⟩
  have hfolder : ∀ entries : List (String × Tree String String),
      (∀ e ∈ entries, e.1 ∈ ["s", "k", "SKILL.md", "references", "x.md", "scripts", "run.sh"]) →
      (∀ e ∈ entries, e.2.All NormalName fun _ => True) → (Tree.folder entries).All NormalName fun _ => True :=
    fun entries hnames hbelow => .folder (fun e he => hname e.1 (hnames e he)) hbelow
  have hrefs := hfolder [("x.md", .link "../scripts/run.sh")] (by simp) (by simpa using Tree.All.link trivial)
  have hscripts := hfolder [("run.sh", .file)] (by simp) (by simpa using Tree.All.file)
  have hskill := hfolder [("SKILL.md", .file), ("references", .folder [("x.md", .link "../scripts/run.sh")]),
    ("scripts", .folder [("run.sh", .file)])] (by simp) (by simpa using ⟨Tree.All.file, hrefs, hscripts⟩)
  exact hfolder _ (by simp) (by simpa using hfolder _ (by simp) (by simpa using hskill))

def linkFs : Fs where
  tree := linkTree
  special := fun _ => false
  bytes := fun loc => (if loc.getLast? = some "run.sh" then "echo hi" else mdText "k").toByteArray.data.toList
  cwd := []
  cwd_unlinked := by
    intro p target hp
    rw [List.prefix_nil.mp hp]
    exact nofun
  named := fun _ _ => linkTree_all.name

def linkEnv : Env where
  fs := linkFs
  parseSkillMd := parseMdText
  sha256Hex := fun _ => ""

def linkSource : SkillSource where
  label := "m"
  root := .ofLoc ["s"]
  lock := none

/-- The link is listed among the files to be read, and the script's text is returned. -/
theorem linked_script_is_read :
    (readRef linkEnv (load linkEnv [linkSource]) "k" "references/x.md").toOption = some "echo hi" ∧
      linkFs.canonicalize (.ofLoc ["s", "k", "references", "x.md"]) = .ok ["s", "k", "scripts", "run.sh"] ∧
      ¬ ConfinedReads linkEnv [linkSource] "k" := by
  have hread : (readRef linkEnv (load linkEnv [linkSource]) "k" "references/x.md").toOption = some "echo hi" := by
    decide +kernel
  have hget : ((load linkEnv [linkSource]).get "k").map (fun s => (s.dir, s.provenance)) = some (["s", "k"], none) := by
    decide +kernel
  have hloc : linkFs.canonicalize ((Path.ofLoc ["s", "k"]).join "references/x.md") =
      .ok ["s", "k", "scripts", "run.sh"] := by
    decide +kernel
  refine ⟨hread, by decide +kernel, ?_⟩
  intro h
  obtain ⟨s, hs, hskill⟩ := Option.map_eq_some_iff.mp hget
  obtain ⟨hdir, hprov⟩ := Prod.mk.inj hskill
  cases hresult : readRef linkEnv (load linkEnv [linkSource]) "k" "references/x.md" with
  | error e =>
      rw [hresult] at hread
      cases hread
  | ok text =>
      obtain ⟨loc, hat, -, -, -, hconfined⟩ := h.inside s hs hprov _ _ hresult
      rw [hdir, show linkEnv.fs = linkFs from rfl, hloc] at hat
      cases hat
      exact hconfined ⟨"run.sh", [], by rw [hdir]; rfl⟩

end AgentRuntime.Skills
