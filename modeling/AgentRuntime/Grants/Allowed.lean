import AgentRuntime.Grants.Reload

/-!
# `Grants.Allowed` — what an allowed check says (`FolderGrants::check`)

The guard is asked twice, with the live folder roots as project roots and without them. The project roots decide whether
it lets a request through, not where the request leads (`resolveChecked_agree`), so both phases speak of one location. A
grant covers absolute locations only, which is what makes the location of an allowed check absolute, and the guard's
second look at it then comes down from the root without a link (`resolveChecked_unlinked`).
-/

namespace AgentRuntime.Grants

open FileTree Guard Text Words

/-! ## What a grant is -/

/-- A grant that is not taken back, has begun and has not ended, and is for the operation. -/
structure Grant.LiveFor (g : Grant) (op : Op) (now : ℕ) : Prop where
  notRevoked : g.revokedAt = none
  begun : g.grantedAt ≤ now
  notExpired : ∀ t, g.expiresAt = some t → now < t
  access : g.access = op.access

/-- The grant reaches a location from the root: name by name below its own root, or one level. -/
def Grant.Reaches (g : Grant) (names : List String) : Prop :=
  ∃ root : List String, components g.root = root.map .name ∧
    match g.scope with
    | .subtree => root <+: names
    | .shallow => names = root ∨ ∃ n, names = root ++ [n]

theorem Grant.isActive_iff {g : Grant} {now : ℕ} :
    g.isActive now = true ↔ g.revokedAt = none ∧ g.grantedAt ≤ now ∧ ∀ t, g.expiresAt = some t → now < t := by
  unfold Grant.isActive
  cases hexpires : g.expiresAt with
  | none => simp
  | some t => simp [and_assoc]

theorem Grant.liveFor_iff {g : Grant} {op : Op} {now : ℕ} :
    g.LiveFor op now ↔ (g.access == op.access && g.isActive now) = true := by
  rw [Bool.and_eq_true, beq_iff_eq, Grant.isActive_iff]
  constructor
  · intro h
    exact ⟨h.access, h.notRevoked, h.begun, h.notExpired⟩
  · rintro ⟨haccess, hrevoked, hbegun, hexpires⟩
    exact ⟨hrevoked, hbegun, hexpires, haccess⟩

/-- The components of a stored root are names. -/
theorem exists_rootNames {root : String} (h : .up ∉ components root) :
    ∃ names : List String, components root = names.map .name := by
  generalize components root = comps at h
  induction comps with
  | nil => exact ⟨[], rfl⟩
  | cons c rest ih =>
      obtain ⟨names, hnames⟩ := ih fun hmem => h (List.mem_cons_of_mem _ hmem)
      cases c with
      | up => exact absurd (List.mem_cons_self ..) h
      | name n =>
          refine ⟨n :: names, ?_⟩
          rw [List.map_cons, hnames]

theorem map_name_injective : Function.Injective (List.map (Comp.name (N := String))) :=
  List.map_injective_iff.mpr fun _ _ h => Comp.name.inj h

/-- A grant with an absolute root covers absolute locations, those it reaches. -/
theorem Grant.covers_iff {g : Grant} (hroot : hasRoot g.root = true) (hup : .up ∉ components g.root) {l : Location} :
    g.covers l = true ↔ l.rooted = true ∧ g.Reaches l.names := by
  obtain ⟨root, hnames⟩ := exists_rootNames hup
  -- The names of the root are determined, so one choice of them is enough.
  have hreaches : ∀ P : List String → Prop, (∃ r : List String, components g.root = r.map .name ∧ P r) ↔ P root := by
    intro P
    constructor
    · rintro ⟨r, hr, hP⟩
      rwa [map_name_injective (hnames.symm.trans hr)]
    · exact fun hP => ⟨root, hnames, hP⟩
  have hisPath : ∀ p : Location, isPath p g.root = true ↔ p.rooted = true ∧ p.names = root := by
    intro p
    unfold isPath
    rw [Bool.and_eq_true, hroot, hnames, beq_iff_eq, beq_iff_eq, map_name_injective.eq_iff]
  unfold Grant.covers Grant.Reaches
  rw [hreaches]
  cases g.scope with
  | subtree =>
      simp only
      unfold startsWith
      rw [Bool.and_eq_true, hroot, hnames, beq_iff_eq, List.isPrefixOf_iff_prefix]
      refine and_congr_right fun _ => ⟨?_, fun h => h.map _⟩
      rintro ⟨below, hbelow⟩
      obtain ⟨start, rest, hsplit, hstart, -⟩ := List.map_eq_append_iff.mp hbelow.symm
      rw [← map_name_injective hstart, hsplit]
      exact List.prefix_append _ _
  | shallow =>
      simp only
      rw [Bool.or_eq_true, hisPath, Option.any_eq_true, and_or_left]
      refine or_congr_right ?_
      unfold parent
      constructor
      · rintro ⟨p, hp, hpath⟩
        split at hp
        · cases hp
        · rename_i hne
          cases hp
          obtain ⟨hrooted, hdrop⟩ := (hisPath _).mp hpath
          refine ⟨hrooted, l.names.getLast hne, ?_⟩
          have hsplit := List.dropLast_concat_getLast hne
          rw [show l.names.dropLast = root from hdrop] at hsplit
          exact hsplit.symm
      · rintro ⟨hrooted, n, hn⟩
        have hne : l.names ≠ [] := by
          rw [hn]
          exact List.concat_ne_nil n root
        refine ⟨l.pop, by rw [if_neg hne], (hisPath _).mpr ⟨hrooted, ?_⟩⟩
        show l.names.dropLast = root
        rw [hn, List.dropLast_concat]

/-! ## The guard's answers -/

section

variable {disk : Disk} {path : String} {ctx ctx' : GuardContext} {canonical canonical' : Location}

/-- A request from the root is taken from the root. -/
theorem interpret_rooted {input path : String} (hroot : hasRoot input = true) (h : interpret input ctx = .ok path) :
    hasRoot path = true := by
  obtain ⟨rest, hrest⟩ := List.head?_eq_some_iff.mp (eq_of_beq hroot)
  unfold interpret at h
  split at h
  · cases h
  · split at h
    · cases h
    · have hslash : (if '/' = '\\' then '/' else '/') = '/' := ite_self _
      have hunified : input.toList.map (fun c => if c = '\\' then '/' else c) =
          '/' :: rest.map (fun c => if c = '\\' then '/' else c) := by
        rw [hrest, List.map_cons]
        rfl
      have hne : '/' ≠ '~' := by
        decide
      simp only [hunified, List.head?_cons] at h
      rw [if_neg fun heq => hne (List.cons.inj heq).1, if_neg, if_neg fun heq => hne (Option.some.inj heq)] at h
      · have hexpanded : hasRoot (String.ofList ('/' :: rest.map fun c => if c = '\\' then '/' else c)) = true := by
          unfold hasRoot
          rw [String.toList_ofList]
          rfl
        rw [← Except.ok.inj h]
        simp only [if_pos hexpanded]
        exact hexpanded
      · exact Bool.false_ne_true

/-- What is looked at from the root is a location without a link that no rule denies. -/
theorem resolveChecked_unlinked (h : resolveChecked disk path ctx = .ok canonical) (hrooted : canonical.rooted = true) :
    Unlinked disk.files.view canonical.names ∧
      checkLocation disk.unicode (resolvedRoots disk.files ctx) canonical = .ok () := by
  obtain ⟨hlook, -⟩ := resolveChecked_ok h
  obtain ⟨looked, hinterpret, -, hwalk, hallowed⟩ := checkPath_ok.mp hlook
  obtain ⟨-, r, hfrom, hr⟩ := walk_ok (interpret_rooted (hasRoot_text hrooted) hinterpret) hwalk
  have hunlinked := walkFrom_unlinked hfrom rfl (unlinked_nil disk.files) fun n hn => (name_mem_components hn).1
  rw [hr] at hunlinked
  exact ⟨hunlinked, hallowed⟩

/-- Where a request leads does not depend on the project roots. -/
theorem resolveChecked_agree (h : resolveChecked disk path ctx = .ok canonical)
    (h' : resolveChecked disk path ctx' = .ok canonical') (hhome : ctx.home = ctx'.home) (hcwd : ctx.cwd = ctx'.cwd) :
    canonical = canonical' := by
  obtain ⟨-, resolved, hresolved, hspelled⟩ := resolveChecked_ok h
  obtain ⟨-, resolved', hresolved', hspelled'⟩ := resolveChecked_ok h'
  rw [checkPath_agree hhome hcwd hresolved hresolved', hspelled'] at hspelled
  exact (Except.ok.inj hspelled).symm

end

/-- Without project roots no `.env` file passes, and what passes then passes with any roots. -/
theorem checkLocation_no_roots {u : Unicode} {l : Location} (h : checkLocation u [] l = .ok ()) :
    (∀ name, l.fileName = some name → isDotenv (fold u name) = false) ∧
      ∀ roots, checkLocation u roots l = .ok () := by
  unfold checkLocation at h ⊢
  obtain ⟨⟨⟩, hrules, hdotenv⟩ := Except.bind_eq_ok.mp h
  unfold matchDotenv at hdotenv
  cases hname : l.fileName with
  | none =>
      refine ⟨fun name h => (nomatch h), fun roots => ?_⟩
      rw [hrules]
      show matchDotenv u l roots = .ok ()
      unfold matchDotenv
      rw [hname]
  | some name =>
      rw [hname] at hdotenv
      simp only at hdotenv
      split at hdotenv
      · rename_i hplain
        refine ⟨fun name' h => by cases h; exact hplain, fun roots => ?_⟩
        rw [hrules]
        show matchDotenv u l roots = .ok ()
        unfold matchDotenv
        rw [hname]
        exact if_pos hplain
      · cases hdotenv

/-! ## The answer -/

namespace FolderGrants

variable {disk : Disk} {me : FolderGrants} {path : String} {op : Op} {now : ℕ}

/-- The context of the first phase. -/
def folderCtx (me : FolderGrants) (op : Op) (now : ℕ) : GuardContext :=
  { me.guardCtx with projectRoots := (live me op now .folder).map Grant.root }

theorem mem_live {kind : GrantKind} {g : Grant} :
    g ∈ live me op now kind ↔ g ∈ me.state.grants ∧ g.kind = kind ∧ g.LiveFor op now := by
  unfold live
  rw [List.mem_filter, Bool.and_assoc, Bool.and_eq_true, beq_iff_eq, Grant.liveFor_iff]

/-- No grant is the most specific one only where none covers the path. -/
theorem mostSpecific_eq_none {grants : List Grant} {l : Location} :
    mostSpecific grants l = none ↔ ∀ g ∈ grants, g.covers l = false := by
  have hfold : ∀ (f : Option Grant → Grant → Option Grant), (∀ b g, ∃ b', f (some b) g = some b') →
      ∀ (gs : List Grant) (b : Grant), (gs.foldl f (some b)).isSome := by
    intro f hf gs
    induction gs with
    | nil => exact fun b => rfl
    | cons g gs ih =>
        intro b
        obtain ⟨b', hb'⟩ := hf b g
        rw [List.foldl_cons, hb']
        exact ih b'
  unfold mostSpecific
  cases hcovering : grants.filter fun g => g.covers l with
  | nil =>
      refine ⟨fun _ g hg => ?_, fun _ => rfl⟩
      exact eq_false_of_ne_true (List.filter_eq_nil_iff.mp hcovering g hg)
  | cons g gs =>
      rw [List.foldl_cons]
      constructor
      · intro h
        have hsome : (none : Option Grant).isSome := by
          rw [← h]
          refine hfold _ (fun b g => ?_) gs g
          dsimp only
          split
          · exact ⟨g, rfl⟩
          · exact ⟨b, rfl⟩
        cases hsome
      · intro h
        have hg : g ∈ grants.filter fun g => g.covers l := hcovering ▸ List.mem_cons_self ..
        obtain ⟨hmem, hcovers⟩ := List.mem_filter.mp hg
        rw [h g hmem] at hcovers
        cases hcovers

/-- Resolving fails for other reasons than a missing grant. -/
theorem resolveChecked_ne_noGrant {path : String} {ctx : GuardContext} {op : Op} {p : Location} :
    resolveChecked disk path ctx ≠ .error (.noGrant op p) := by
  have hmap : ∀ {ε α : Type} {f : ε → DenialReason} {x : Except ε α}, (∀ e, f e ≠ .noGrant op p) →
      x.mapError f ≠ .error (.noGrant op p) := by
    intro ε α f x hf h
    cases x with
    | error e => exact hf e (Except.error.inj h)
    | ok a => cases h
  intro h
  unfold resolveChecked at h
  rcases Except.bind_eq_error.mp h with h | ⟨resolved, -, h⟩
  · exact hmap (f := .denyList) (fun _ he => by cases he) h
  rcases Except.bind_eq_error.mp h with h | ⟨spelled, -, h⟩
  · exact hmap (f := .unresolvable) (fun _ he => by cases he) h
  rcases Except.bind_eq_error.mp h with h | ⟨canonical, -, h⟩
  · exact hmap (f := .denyList) (fun _ he => by cases he) h
  unfold secondLook at h
  split at h
  · cases h
  · cases h

/-- A grant of a set that loads covers what it reaches. -/
theorem Valid.covers_iff (h : Valid disk me) {g : Grant} (hg : g ∈ me.state.grants) {l : Location} :
    g.covers l = true ↔ l.rooted = true ∧ g.Reaches l.names := by
  have hroot := h.root g hg
  unfold checkRoot at hroot
  split at hroot
  · cases hroot
  · rename_i hplain
    obtain ⟨hrooted, hup⟩ := not_or.mp hplain
    exact Grant.covers_iff (eq_true_of_ne_false hrooted) hup

/-- Full access of a set that loads is for reading. -/
theorem Valid.fullAccess_read (h : Valid disk me) {g : Grant} (hg : g ∈ me.state.grants)
    (hfull : g.kind = .fullAccess) : g.access = .read := by
  have hterms := h.terms g hg
  unfold checkTerms at hterms
  split at hterms
  · cases hterms
  · split at hterms
    · cases hterms
    · split at hterms
      · cases hterms
      · split at hterms
        · cases hterms
        · rename_i hread
          exact not_not.mp hread

/-- What an allowed check says of its location and of the grant it names. -/
structure Granted (disk : Disk) (me : FolderGrants) (op : Op) (now : ℕ) (canonical : Location) (g : Grant) : Prop where
  live : g.LiveFor op now
  absolute : canonical.rooted = true
  reaches : g.Reaches canonical.names
  noLinks : Unlinked disk.files.view canonical.names
  /-- No deny rule matches; the `.env` rule has the roots of the live folder grants. -/
  notDenied : checkLocation disk.unicode (resolvedRoots disk.files (folderCtx me op now)) canonical = .ok ()
  /-- Full access never allows a write. -/
  write : op = .write → g.kind = .folder
  /-- Full access never allows a `.env` file. -/
  dotenv : ∀ name, canonical.fileName = some name → isDotenv (fold disk.unicode name) = true → g.kind = .folder

/-- The two ways to an allowed check. -/
theorem check_allowed {canonical : Location} {id : String} (h : check disk me path op now = .allowed canonical id) :
    ∃ g, g.id = id ∧ g.covers canonical = true ∧
      (g ∈ live me op now .folder ∧ resolveChecked disk path (folderCtx me op now) = .ok canonical ∨
        g ∈ live me op now .fullAccess ∧ resolveChecked disk path me.guardCtx = .ok canonical) := by
  unfold check at h
  split at h
  · rename_i _ _ hinner
    cases h
    unfold checkInner at hinner
    obtain ⟨resolved, hresolved, hinner⟩ := Except.bind_eq_ok.mp hinner
    split at hinner
    · rename_i g hmost
      cases hinner
      obtain ⟨hg, hcovers⟩ := mem_of_mostSpecific hmost
      exact ⟨g, rfl, hcovers, .inl ⟨hg, hresolved⟩⟩
    · unfold checkFull at hinner
      split at hinner
      · cases hinner
      · obtain ⟨looked, hlooked, hinner⟩ := Except.bind_eq_ok.mp hinner
        split at hinner
        · rename_i g hmost
          cases hinner
          obtain ⟨hg, hcovers⟩ := mem_of_mostSpecific hmost
          exact ⟨g, rfl, hcovers, .inr ⟨hg, hlooked⟩⟩
        · cases hinner
  · cases h

/-- An allowed check of a set that loads names a grant that says so. -/
theorem Valid.check_granted (h : Valid disk me) {canonical : Location} {id : String}
    (hcheck : check disk me path op now = .allowed canonical id) :
    ∃ g ∈ me.state.grants, g.id = id ∧ Granted disk me op now canonical g := by
  obtain ⟨g, hid, hcovers, hphase⟩ := check_allowed hcheck
  rcases hphase with ⟨hg, hresolved⟩ | ⟨hg, hresolved⟩
  · obtain ⟨hmem, hkind, hlive⟩ := mem_live.mp hg
    obtain ⟨habsolute, hreaches⟩ := (h.covers_iff hmem).mp hcovers
    obtain ⟨hunlinked, hallowed⟩ := resolveChecked_unlinked hresolved habsolute
    exact ⟨g, hmem, hid, hlive, habsolute, hreaches, hunlinked, hallowed, fun _ => hkind, fun _ _ _ => hkind⟩
  · obtain ⟨hmem, hkind, hlive⟩ := mem_live.mp hg
    obtain ⟨habsolute, hreaches⟩ := (h.covers_iff hmem).mp hcovers
    obtain ⟨hunlinked, hallowed⟩ := resolveChecked_unlinked hresolved habsolute
    -- The second phase has no project roots, which is the stricter of the two.
    obtain ⟨hplain, hany⟩ := checkLocation_no_roots hallowed
    refine ⟨g, hmem, hid, hlive, habsolute, hreaches, hunlinked, hany _, ?_, ?_⟩
    · rintro rfl
      have hread := h.fullAccess_read hmem hkind
      rw [hlive.access] at hread
      cases hread
    · intro name hname hdotenv
      rw [hplain name hname] at hdotenv
      cases hdotenv

/-- A check that finds no grant says where the request leads, and no live grant for the operation reaches that. -/
theorem Valid.check_noGrant (h : Valid disk me) {asked : Op} {resolved : Location}
    (hcheck : check disk me path op now = .denied (.noGrant asked resolved)) :
    asked = op ∧ resolveChecked disk path (folderCtx me op now) = .ok resolved ∧
      ∀ g ∈ me.state.grants, g.LiveFor op now → ¬ (resolved.rooted = true ∧ g.Reaches resolved.names) := by
  have hnone : ∀ kind, mostSpecific (live me op now kind) resolved = none → ∀ g ∈ me.state.grants, g.kind = kind →
      g.LiveFor op now → ¬ (resolved.rooted = true ∧ g.Reaches resolved.names) := by
    intro kind hmost g hg hkind hlive hreaches
    have hcovers := (h.covers_iff hg).mpr hreaches
    rw [mostSpecific_eq_none.mp hmost g (mem_live.mpr ⟨hg, hkind, hlive⟩)] at hcovers
    cases hcovers
  have hboth : mostSpecific (live me op now .folder) resolved = none →
      mostSpecific (live me op now .fullAccess) resolved = none →
      ∀ g ∈ me.state.grants, g.LiveFor op now → ¬ (resolved.rooted = true ∧ g.Reaches resolved.names) := by
    intro hfolder hfull g hg
    cases hkind : g.kind with
    | folder => exact hnone .folder hfolder g hg hkind
    | fullAccess => exact hnone .fullAccess hfull g hg hkind
  have hdenial : ∀ {path : String} {ctx : GuardContext} {op : Op} {p : Location},
      resolveChecked disk path ctx ≠ .error (.noGrant op p) := resolveChecked_ne_noGrant
  unfold check at hcheck
  split at hcheck
  · cases hcheck
  · rename_i _ hinner
    cases hcheck
    unfold checkInner at hinner
    rcases Except.bind_eq_error.mp hinner with hinner | ⟨canonical, hcanonical, hinner⟩
    · exact absurd hinner hdenial
    · split at hinner
      · cases hinner
      · rename_i hfolder
        unfold checkFull at hinner
        split at hinner
        · rename_i hempty
          cases hinner
          refine ⟨rfl, hcanonical, hboth hfolder ?_⟩
          rw [hempty]
          exact mostSpecific_eq_none.mpr fun g hg => absurd hg List.not_mem_nil
        · rcases Except.bind_eq_error.mp hinner with hinner | ⟨looked, hlooked, hinner⟩
          · exact absurd hinner hdenial
          · split at hinner
            · cases hinner
            · rename_i hfull
              cases hinner
              have hsame : canonical = resolved := resolveChecked_agree hcanonical hlooked rfl rfl
              subst hsame
              exact ⟨rfl, hcanonical, hboth hfolder hfull⟩

/-- **Folder grants over every run.** Whatever the calls, an allowed check names a grant of the set that is live for the
    operation and reaches the location, which holds no link and passes the deny list; full access allows neither a
    write nor a `.env` file. And where a check finds no grant, there is none. -/
theorem check_safe (disk : Disk) (home cwd : String) (start : FolderGrants) (hstart : Start disk home cwd start)
    (calls : List Call) :
    let me := Machine.run (exec disk) start calls
    (∀ path op now canonical id, check disk me path op now = .allowed canonical id →
      ∃ g ∈ me.state.grants, g.id = id ∧ Granted disk me op now canonical g) ∧
    ∀ path op now asked resolved, check disk me path op now = .denied (.noGrant asked resolved) →
      asked = op ∧ resolveChecked disk path (folderCtx me op now) = .ok resolved ∧
        ∀ g ∈ me.state.grants, g.LiveFor op now → ¬ (resolved.rooted = true ∧ g.Reaches resolved.names) := by
  intro me
  have hvalid : Valid disk me := (run_valid hstart calls).1
  exact ⟨fun path op now canonical id h => hvalid.check_granted h, fun path op now asked resolved h =>
    hvalid.check_noGrant h⟩

namespace Small

/-- A set with full access to the root folder. -/
def granted : FolderGrants := Machine.run (exec rootDisk) (new "/" "/") [.grant (.fullAccess "/" 3600 "member" "look") 10]

/-- Within the hour the root folder can be read. -/
theorem check_root : check rootDisk granted "/" .read 20 = .allowed { rooted := true, names := [] } "g-1" := by
  have hgranted : granted =
      { new "/" "/" with state := { version := stateVersion, nextId := 2, grants := [rootGrant] } } := grant_root
  have hcovers : rootGrant.covers { rooted := true, names := [] } = true := by
    decide
  have hmost : mostSpecific [rootGrant] { rooted := true, names := [] } = some rootGrant := by
    unfold mostSpecific
    have hkept : [rootGrant].filter (fun g => g.covers { rooted := true, names := [] }) = [rootGrant] := by
      simp [hcovers]
    rw [hkept]
    rfl
  have hfull : checkFull rootDisk granted "/" .read 20 { rooted := true, names := [] } =
      .ok ({ rooted := true, names := [] }, "g-1") := by
    unfold checkFull
    rw [hgranted]
    refine Except.bind_eq_ok.mpr ⟨_, resolveChecked_root, ?_⟩
    dsimp only
    have hlive : live { new "/" "/" with state := { version := stateVersion, nextId := 2, grants := [rootGrant] } }
        .read 20 .fullAccess = [rootGrant] := by
      decide
    rw [hlive, hmost]
    rfl
  have hinner : checkInner rootDisk granted "/" .read 20 = .ok ({ rooted := true, names := [] }, "g-1") := by
    unfold checkInner
    refine Except.bind_eq_ok.mpr ⟨{ rooted := true, names := [] }, ?_, ?_⟩
    · rw [hgranted]
      exact resolveChecked_root
    · rw [← hfull, hgranted]
      rfl
  unfold check
  rw [hinner]

/-- What the check of the root folder says of the grant it names. -/
theorem check_safe_root : ∃ g ∈ granted.state.grants, g.id = "g-1" ∧
    Granted rootDisk granted .read 20 { rooted := true, names := [] } g :=
  (check_safe rootDisk "/" "/" (new "/" "/") (.inl rfl) [.grant (.fullAccess "/" 3600 "member" "look") 10]).1 _ _ _ _ _
    check_root

end Small

end FolderGrants

end AgentRuntime.Grants
