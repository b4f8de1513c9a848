import AgentRuntime.Grants.Store
import AgentRuntime.Lib.Acceptor
import AgentRuntime.Lib.Machine

/-!
# `Grants.Reload` — a stored document always loads again

`Valid` is what a load checks. A fresh grant satisfies it: its root is what the guard said of that root's own spelling,
and is absolute because it is there (`resolveChecked_dir`); its id is the next number. So a set reached by grants and
revocations from one that loads is one that loads.
-/

namespace AgentRuntime.Grants

open FileTree Guard Text Words

/-! ## The root of a fresh grant -/

section

variable {disk : Disk}

/-- The spelling is absolute, or nothing is at the path. -/
theorem spellExisting_ok {path l : Location} {existing tail : List String}
    (h : spellExisting disk path existing tail = .ok l) :
    l.rooted = true ∨
      l = path ∧ inspect disk.files { rooted := path.rooted, names := existing.reverse } = .absent := by
  induction existing generalizing tail with
  | nil =>
      unfold spellExisting at h
      simp only at h
      split at h
      · split at h
        · cases h
          exact .inl rfl
        · cases h
      · split at h
        · cases h
          exact .inl rfl
        · cases h
      · cases h
      · rename_i habsent
        cases h
        exact .inr ⟨rfl, habsent⟩
  | cons name existing ih =>
      unfold spellExisting at h
      simp only at h
      split at h
      · split at h
        · cases h
          exact .inl rfl
        · cases h
      · split at h
        · cases h
          exact .inl rfl
        · cases h
      · cases h
      · rename_i habsent
        rcases ih h with hrooted | ⟨hpath, -⟩
        · exact .inl hrooted
        · exact .inr ⟨hpath, habsent⟩

/-- Where nothing is, no folder is. -/
theorem isDir_of_absent {fs : FileSystem} {l : Location} (hrooted : l.rooted = false)
    (h : inspect fs l = .absent) : isDir fs l = false := by
  unfold isDir
  by_cases hempty : l.rooted = false ∧ l.names = []
  · rw [if_pos hempty]
  · rw [if_neg hempty]
    have hnames : l.names ≠ [] := fun hnil => hempty ⟨hrooted, hnil⟩
    cases hfollowed : followed fs l with
    | error e => rfl
    | ok loc =>
        -- The walk got to the last name, so `symlink_metadata` sees it.
        unfold inspect at h
        rw [if_neg hempty] at h
        unfold followed at hfollowed
        rw [← List.dropLast_concat_getLast hnames, List.map_append] at hfollowed
        obtain ⟨dir, hdir, hthere⟩ := resolve_concat hfollowed
        unfold FileSystem.symlinkMetadata at h
        split at h
        · cases h
        · simp only [hdir, List.getLast?_eq_some_getLast hnames, Option.toList_some] at h
          cases hkind : fs.view (dir ++ [l.names.getLast hnames]) with
          | none => exact absurd hkind hthere
          | some kind =>
              rw [hkind] at h
              cases kind with
              | file => cases h
              | link target => cases h
              | folder => cases h

theorem resolveChecked_ok {path : String} {ctx : GuardContext} {canonical : Location}
    (h : resolveChecked disk path ctx = .ok canonical) :
    checkPath disk.unicode disk.files ctx canonical.text = .ok canonical ∧
      ∃ resolved, checkPath disk.unicode disk.files ctx path = .ok resolved ∧
        onDiskSpelling disk resolved = .ok canonical := by
  unfold resolveChecked at h
  obtain ⟨resolved, hresolved, h⟩ := Except.bind_eq_ok.mp h
  obtain ⟨spelled, hspelled, h⟩ := Except.bind_eq_ok.mp h
  obtain ⟨looked, hlooked, h⟩ := Except.bind_eq_ok.mp h
  have hsame : looked = spelled ∧ looked = canonical := by
    unfold secondLook at h
    split at h
    · cases h
    · rename_i heq
      exact ⟨not_not.mp heq, Except.ok.inj h⟩
  obtain ⟨rfl, rfl⟩ := hsame
  constructor
  · cases hcheck : checkPath disk.unicode disk.files ctx looked.text with
    | error d =>
        rw [hcheck] at hlooked
        cases hlooked
    | ok p =>
        rw [hcheck] at hlooked
        cases hlooked
        rfl
  · refine ⟨resolved, ?_, ?_⟩
    · cases hcheck : checkPath disk.unicode disk.files ctx path with
      | error d =>
          rw [hcheck] at hresolved
          cases hresolved
      | ok p =>
          rw [hcheck] at hresolved
          cases hresolved
          rfl
    · cases hspell : onDiskSpelling disk resolved with
      | error e =>
          rw [hspell] at hspelled
          cases hspelled
      | ok l =>
          rw [hspell] at hspelled
          cases hspelled
          rfl

/-- A folder the guard resolves twice alike is absolute. -/
theorem resolveChecked_dir {path : String} {ctx : GuardContext} {canonical : Location}
    (h : resolveChecked disk path ctx = .ok canonical) (hdir : isDir disk.files canonical = true) :
    canonical.rooted = true := by
  obtain ⟨-, resolved, -, hspelled⟩ := resolveChecked_ok h
  rcases spellExisting_ok hspelled with hrooted | ⟨rfl, habsent⟩
  · exact hrooted
  · rw [List.reverse_reverse] at habsent
    by_contra hrelative
    rw [isDir_of_absent (eq_false_of_ne_true hrelative) habsent] at hdir
    cases hdir

end

/-! ## What a load checks -/

namespace FolderGrants

/-- **A set that loads.** -/
structure Valid (disk : Disk) (me : FolderGrants) : Prop where
  version : me.state.version = stateVersion
  numbered : ∀ g ∈ me.state.grants, ∃ n, idNumber g.id = some n ∧ n < me.state.nextId
  distinct : (me.state.grants.map fun g => idNumber g.id).Nodup
  root : ∀ g ∈ me.state.grants, checkRoot disk me g = .ok ()
  terms : ∀ g ∈ me.state.grants, checkTerms g = .ok ()

variable {disk : Disk} {me : FolderGrants}

theorem checkId_eq_ok {seen : List ℕ} {g : Grant} {n : ℕ} :
    checkId disk me seen g = .ok n ↔ idNumber g.id = some n ∧ n < me.state.nextId ∧ n ∉ seen := by
  unfold checkId
  cases hid : idNumber g.id with
  | none =>
      constructor
      · intro h
        cases h
      · rintro ⟨h, -⟩
        cases h
  | some m =>
      simp only [Option.some.injEq]
      split
      · rename_i hge
        constructor
        · intro h
          cases h
        · rintro ⟨rfl, hlt, -⟩
          omega
      · rename_i hlt
        split
        · rename_i hseen
          constructor
          · intro h
            cases h
          · rintro ⟨rfl, -, hnew⟩
            exact absurd hseen hnew
        · rename_i hnew
          constructor
          · intro h
            cases h
            exact ⟨rfl, Nat.lt_of_not_le hlt, hnew⟩
          · rintro ⟨rfl, -, -⟩
            rfl

/-- The loop over the stored grants, with the numbers `seen` before. -/
theorem validateGrants_eq_ok {gs : List Grant} {seen : List ℕ} :
    validateGrants disk me seen gs = .ok () ↔
      (∀ g ∈ gs, ∃ n, idNumber g.id = some n ∧ n < me.state.nextId ∧ n ∉ seen) ∧
        (gs.map fun g => idNumber g.id).Nodup ∧
        (∀ g ∈ gs, checkRoot disk me g = .ok ()) ∧ ∀ g ∈ gs, checkTerms g = .ok () := by
  induction gs generalizing seen with
  | nil => simp [validateGrants]
  | cons g rest ih =>
      rw [validateGrants, List.map_cons, List.nodup_cons]
      constructor
      · intro h
        obtain ⟨n, hid, h⟩ := Except.bind_eq_ok.mp h
        obtain ⟨⟨⟩, hroot, h⟩ := Except.bind_eq_ok.mp h
        obtain ⟨⟨⟩, hterms, h⟩ := Except.bind_eq_ok.mp h
        obtain ⟨hnumber, hlt, hnew⟩ := checkId_eq_ok.mp hid
        obtain ⟨hrest, hnodup, hroots, htermss⟩ := ih.mp h
        refine ⟨?_, ⟨?_, hnodup⟩, ?_, ?_⟩
        · intro g' hg'
          rcases List.mem_cons.mp hg' with rfl | hg'
          · exact ⟨n, hnumber, hlt, hnew⟩
          · obtain ⟨m, hm, hmlt, hmnew⟩ := hrest g' hg'
            exact ⟨m, hm, hmlt, fun hmem => hmnew (List.mem_cons_of_mem _ hmem)⟩
        · intro hmem
          obtain ⟨g', hg', heq⟩ := List.mem_map.mp hmem
          obtain ⟨m, hm, -, hmnew⟩ := hrest g' hg'
          rw [hm, hnumber] at heq
          cases heq
          exact hmnew (List.mem_cons_self ..)
        · exact List.forall_mem_cons.mpr ⟨hroot, hroots⟩
        · exact List.forall_mem_cons.mpr ⟨hterms, htermss⟩
      · rintro ⟨hall, ⟨hfresh, hnodup⟩, hroots, htermss⟩
        obtain ⟨n, hnumber, hlt, hnew⟩ := hall g (List.mem_cons_self ..)
        obtain ⟨hroot, hroots⟩ := List.forall_mem_cons.mp hroots
        obtain ⟨hterms, htermss⟩ := List.forall_mem_cons.mp htermss
        refine Except.bind_eq_ok.mpr ⟨n, checkId_eq_ok.mpr ⟨hnumber, hlt, hnew⟩, ?_⟩
        refine Except.bind_eq_ok.mpr ⟨(), hroot, ?_⟩
        refine Except.bind_eq_ok.mpr ⟨(), hterms, ih.mpr ⟨?_, hnodup, hroots, htermss⟩⟩
        intro g' hg'
        obtain ⟨m, hm, hmlt, hmnew⟩ := hall g' (List.mem_cons_of_mem _ hg')
        refine ⟨m, hm, hmlt, ?_⟩
        intro hmem
        rcases List.mem_cons.mp hmem with rfl | hmem
        · refine hfresh (List.mem_map.mpr ⟨g', hg', ?_⟩)
          rw [hm, hnumber]
        · exact hmnew hmem

theorem validateState_eq_ok : validateState disk me = .ok () ↔ Valid disk me := by
  unfold validateState
  constructor
  · intro h
    split at h
    · cases h
    · rename_i hversion
      obtain ⟨hall, hnodup, hroots, hterms⟩ := validateGrants_eq_ok.mp h
      refine ⟨not_not.mp hversion, ?_, hnodup, hroots, hterms⟩
      intro g hg
      obtain ⟨n, hn, hlt, -⟩ := hall g hg
      exact ⟨n, hn, hlt⟩
  · intro h
    rw [if_neg (not_not.mpr h.version)]
    refine validateGrants_eq_ok.mpr ⟨?_, h.distinct, h.root, h.terms⟩
    intro g hg
    obtain ⟨n, hn, hlt⟩ := h.numbered g hg
    exact ⟨n, hn, hlt, List.not_mem_nil⟩

/-- A load gives back the stored document, as it is. -/
theorem fromState_eq_ok {state : GrantState} {home cwd : String} :
    fromState disk state home cwd = .ok me ↔
      me = { state := state, home := home, cwd := cwd } ∧ Valid disk me := by
  unfold fromState
  rw [Except.bind_eq_ok]
  constructor
  · rintro ⟨⟨⟩, hvalid, h⟩
    cases h
    exact ⟨rfl, validateState_eq_ok.mp hvalid⟩
  · rintro ⟨rfl, hvalid⟩
    exact ⟨(), validateState_eq_ok.mpr hvalid, rfl⟩

/-- No two grants of a set that loads have one id. -/
theorem Valid.ids (h : Valid disk me) : (me.state.grants.map Grant.id).Nodup := by
  have hnumbers : ((me.state.grants.map Grant.id).map idNumber).Nodup := by
    rw [List.map_map]
    exact h.distinct
  exact hnumbers.of_map

theorem Valid.eq_of_id (h : Valid disk me) {g g' : Grant} (hg : g ∈ me.state.grants)
    (hg' : g' ∈ me.state.grants) (hid : g.id = g'.id) : g = g' :=
  List.inj_on_of_nodup_map h.ids hg hg' hid

theorem new_valid (disk : Disk) (home cwd : String) : Valid disk (new home cwd) where
  version := rfl
  numbered _ hg := absurd hg List.not_mem_nil
  distinct := List.nodup_nil
  root _ hg := absurd hg List.not_mem_nil
  terms _ hg := absurd hg List.not_mem_nil

/-! ## A fresh grant passes its own check -/

/-- What a request asks for is within the limits a load checks. -/
theorem checkTerms_fresh {req : GrantRequest} {now : ℕ} {expiresAt : Option ℕ}
    (h : checkRequest req now = .ok expiresAt) {g : Grant} (hkind : g.kind = req.kind)
    (haccess : g.access = req.access) (hgranted : g.grantedAt = now) (hexpires : g.expiresAt = expiresAt)
    (hby : g.grantedBy = req.grantedBy) (hreason : g.reason = req.reason) : checkTerms g = .ok () := by
  unfold checkRequest at h
  split at h
  · cases h
  · rename_i hnotBlank
    split at h
    · cases h
    · rename_i hgiven
      split at h
      · cases h
      · rename_i hreadOnly
        unfold checkTerms
        rw [hby, hreason, if_neg hnotBlank, if_neg hgiven, hexpires, hgranted, hkind, haccess]
        -- The expiry is after the grant, and bounded for full access.
        have hlimits : (expiresAt.any fun t => decide (t ≤ now)) = false ∧
            (req.kind = .fullAccess → (expiresAt.any fun t => decide (t - now ≤ fullAccessMaxTtlSecs)) = true) := by
          unfold expiry at h
          split at h
          · rename_i t _
            split at h
            · cases h
            · rename_i hpositive
              split at h
              · cases h
              · rename_i hbounded
                split at h
                · rename_i at_ hat
                  cases h
                  have hsum := (checkedAdd_eq_some.mp hat).1
                  simp only [Option.any_some, decide_eq_false_iff_not, decide_eq_true_eq]
                  constructor
                  · omega
                  · intro hfull
                    have hle : t ≤ fullAccessMaxTtlSecs := by
                      by_contra hlt
                      exact hbounded ⟨hfull, Nat.lt_of_not_le hlt⟩
                    omega
                · cases h
          · split at h
            · cases h
            · rename_i hfolder
              cases h
              exact ⟨rfl, fun hfull => absurd hfull hfolder⟩
        rw [hlimits.1, if_neg Bool.false_ne_true]
        split
        · rename_i hfull
          rw [if_neg fun hwrite => hreadOnly ⟨hfull, hwrite⟩, if_pos (hlimits.2 hfull)]
        · rfl

theorem canonicalRoot_ok {root : String} {canonical : Location} (h : canonicalRoot disk me root = .ok canonical) :
    resolveChecked disk root me.guardCtx = .ok canonical ∧ isDir disk.files canonical = true := by
  unfold canonicalRoot at h
  split at h
  · cases h
  · cases h
  · rename_i spelled hspelled
    split at h
    · rename_i hdir
      cases h
      exact ⟨hspelled, hdir⟩
    · cases h

theorem checkRoot_fresh {req : GrantRequest} {canonical : Location}
    (h : canonicalRoot disk me req.root = .ok canonical) (hwrite : checkWriteRoot req canonical = .ok ())
    {g : Grant} (hroot : g.root = canonical.text) (haccess : g.access = req.access) :
    checkRoot disk me g = .ok () := by
  obtain ⟨hresolved, hdir⟩ := canonicalRoot_ok h
  have habsolute := resolveChecked_dir hresolved hdir
  obtain ⟨hcheck, -⟩ := resolveChecked_ok hresolved
  have hcomponents : components g.root = canonical.names.map .name := by
    rw [hroot]
    exact components_text habsolute (checkPath_normal hcheck)
  have hrooted : hasRoot g.root = true := by
    rw [hroot]
    exact hasRoot_text habsolute
  unfold checkRoot
  rw [if_neg]
  · rw [hroot] at hcomponents hrooted ⊢
    rw [hcheck]
    show (if g.access = .write ∧ hasNoParent canonical.text = true then _ else _) = _
    rw [if_neg]
    rintro ⟨hw, hparent⟩
    unfold hasNoParent at hparent
    rw [if_pos hrooted, hcomponents] at hparent
    have hnames : canonical.names = [] := List.map_eq_nil_iff.mp (eq_of_beq hparent)
    unfold checkWriteRoot parent at hwrite
    rw [if_pos hnames, if_pos ⟨haccess ▸ hw, rfl⟩] at hwrite
    cases hwrite
  · rintro (hrelative | hup)
    · rw [hrooted] at hrelative
      cases hrelative
    · rw [hcomponents] at hup
      obtain ⟨n, -, hn⟩ := List.mem_map.mp hup
      cases hn

/-- What a request that goes through makes. -/
theorem prepare_ok {req : GrantRequest} {now : ℕ} {g : Grant} {next : ℕ}
    (h : prepare disk me req now = .ok (g, next)) :
    g.id = "g-" ++ toString me.state.nextId ∧ me.state.nextId + 1 < u64Bound ∧ next = me.state.nextId + 1 ∧
      g.revokedAt = none ∧ checkRoot disk me g = .ok () ∧ checkTerms g = .ok () := by
  unfold prepare at h
  obtain ⟨expiresAt, hrequest, h⟩ := Except.bind_eq_ok.mp h
  obtain ⟨root, hroot, h⟩ := Except.bind_eq_ok.mp h
  obtain ⟨⟨⟩, hwrite, h⟩ := Except.bind_eq_ok.mp h
  cases hnext : checkedAdd u64Bound me.state.nextId 1 with
  | none =>
      rw [hnext] at h
      cases h
  | some n =>
      rw [hnext] at h
      cases h
      obtain ⟨hsum, hbound⟩ := checkedAdd_eq_some.mp hnext
      exact ⟨rfl, hbound, hsum, rfl, checkRoot_fresh hroot hwrite rfl rfl,
        checkTerms_fresh hrequest rfl rfl rfl rfl rfl rfl⟩

/-- The id of a fresh grant has its number. -/
theorem idNumber_fresh {n : ℕ} (h : n < u64Bound) : idNumber ("g-" ++ toString n) = some n := by
  have htext : ("g-" ++ toString n).toList = "g-".toList ++ Nat.toDigits 10 n := by
    rw [String.toList_append, Nat.toString_eq_repr, Nat.toList_repr]
  have hstrip : strip "g-".toList ("g-".toList ++ Nat.toDigits 10 n) = some (Nat.toDigits 10 n) := by
    unfold strip
    rw [if_pos (List.isPrefixOf_iff_prefix.mpr (List.prefix_append _ _)), List.drop_left]
  unfold idNumber
  rw [htext, hstrip]
  exact parseU64_toDigits h

/-! ## Granting and revoking keep what a load checks -/

theorem grant_valid (h : Valid disk me) (req : GrantRequest) (now : ℕ) : Valid disk (grant disk me req now).2 := by
  unfold grant
  cases hprepare : prepare disk me req now with
  | error e => exact h
  | ok made =>
      obtain ⟨g, next⟩ := made
      obtain ⟨hid, hbound, hnext, -, hroot, hterms⟩ := prepare_ok hprepare
      have hnumber : idNumber g.id = some me.state.nextId := by
        rw [hid]
        exact idNumber_fresh (by omega)
      refine ⟨h.version, ?_, ?_, ?_, ?_⟩
      · intro g' hg'
        show ∃ n, idNumber g'.id = some n ∧ n < next
        rcases List.mem_append.mp hg' with hg' | hg'
        · obtain ⟨n, hn, hlt⟩ := h.numbered g' hg'
          exact ⟨n, hn, by omega⟩
        · rw [List.mem_singleton.mp hg']
          exact ⟨_, hnumber, by omega⟩
      · show ((me.state.grants ++ [g]).map fun g => idNumber g.id).Nodup
        rw [List.map_append, List.nodup_append]
        refine ⟨h.distinct, List.nodup_singleton _, ?_⟩
        intro a ha b hb heq
        rw [List.map_singleton, List.mem_singleton, hnumber] at hb
        obtain ⟨g', hg', rfl⟩ := List.mem_map.mp ha
        obtain ⟨n, hn, hlt⟩ := h.numbered g' hg'
        rw [heq, hb] at hn
        cases hn
        omega
      · intro g' hg'
        rcases List.mem_append.mp hg' with hg' | hg'
        · exact h.root g' hg'
        · rw [List.mem_singleton.mp hg']
          exact hroot
      · intro g' hg'
        rcases List.mem_append.mp hg' with hg' | hg'
        · exact h.terms g' hg'
        · rw [List.mem_singleton.mp hg']
          exact hterms

/-- A revocation changes when grants are revoked, and nothing else. -/
theorem mem_setRevoked {id : String} {now : ℕ} {gs : List Grant} {g' : Grant} (h : g' ∈ setRevoked id now gs) :
    ∃ g ∈ gs, g' = { g with revokedAt := g'.revokedAt } := by
  induction gs with
  | nil => cases h
  | cons g rest ih =>
      unfold setRevoked at h
      split at h
      · rcases List.mem_cons.mp h with rfl | h
        · exact ⟨g, List.mem_cons_self .., rfl⟩
        · exact ⟨g', List.mem_cons_of_mem _ h, rfl⟩
      · rcases List.mem_cons.mp h with rfl | h
        · exact ⟨g', List.mem_cons_self .., rfl⟩
        · obtain ⟨g₀, hg₀, heq⟩ := ih h
          exact ⟨g₀, List.mem_cons_of_mem _ hg₀, heq⟩

theorem setRevoked_ids (id : String) (now : ℕ) (gs : List Grant) :
    (setRevoked id now gs).map Grant.id = gs.map Grant.id := by
  induction gs with
  | nil => rfl
  | cons g rest ih =>
      unfold setRevoked
      split
      · rfl
      · rw [List.map_cons, List.map_cons, ih]

theorem revoke_valid (h : Valid disk me) (id : String) (now : ℕ) : Valid disk (revoke me id now).2 := by
  unfold revoke
  split
  · exact h
  · split
    · exact h
    · refine ⟨h.version, ?_, ?_, ?_, ?_⟩
      · intro g' hg'
        obtain ⟨g, hg, heq⟩ := mem_setRevoked hg'
        rw [heq]
        exact h.numbered g hg
      · show ((setRevoked id now me.state.grants).map (idNumber ∘ Grant.id)).Nodup
        rw [← List.map_map, setRevoked_ids, List.map_map]
        exact h.distinct
      · intro g' hg'
        obtain ⟨g, hg, heq⟩ := mem_setRevoked hg'
        rw [heq]
        exact h.root g hg
      · intro g' hg'
        obtain ⟨g, hg, heq⟩ := mem_setRevoked hg'
        rw [heq]
        exact h.terms g hg

/-! ## Runs -/

/-- A call that changes the grants. -/
inductive Call where
  | grant (req : GrantRequest) (now : ℕ)
  | revoke (id : String) (now : ℕ)

def exec (disk : Disk) (me : FolderGrants) : Call → FolderGrants
  | .grant req now => (grant disk me req now).2
  | .revoke id now => (revoke me id now).2

/-- A new set, or a stored one that loads. -/
def Start (disk : Disk) (home cwd : String) (me : FolderGrants) : Prop :=
  me = new home cwd ∨ ∃ state, fromState disk state home cwd = .ok me

theorem Start.valid {home cwd : String} (h : Start disk home cwd me) :
    Valid disk me ∧ me.home = home ∧ me.cwd = cwd := by
  rcases h with rfl | ⟨state, h⟩
  · exact ⟨new_valid disk home cwd, rfl, rfl⟩
  · obtain ⟨rfl, hvalid⟩ := fromState_eq_ok.mp h
    exact ⟨hvalid, rfl, rfl⟩

theorem exec_valid (h : Valid disk me) (call : Call) : Valid disk (exec disk me call) := by
  cases call with
  | grant req now => exact grant_valid h req now
  | revoke id now => exact revoke_valid h id now

/-- The context paths are resolved in stays. -/
theorem exec_context (call : Call) :
    (exec disk me call).home = me.home ∧ (exec disk me call).cwd = me.cwd := by
  cases call with
  | grant req now =>
      show (grant disk me req now).2.home = _ ∧ (grant disk me req now).2.cwd = _
      unfold grant
      split
      · exact ⟨rfl, rfl⟩
      · exact ⟨rfl, rfl⟩
  | revoke id now =>
      show (revoke me id now).2.home = _ ∧ (revoke me id now).2.cwd = _
      unfold revoke
      split
      · exact ⟨rfl, rfl⟩
      · split
        · exact ⟨rfl, rfl⟩
        · exact ⟨rfl, rfl⟩

theorem run_valid {home cwd : String} (h : Start disk home cwd me) (calls : List Call) :
    Valid disk (Machine.run (exec disk) me calls) ∧ (Machine.run (exec disk) me calls).home = home ∧
      (Machine.run (exec disk) me calls).cwd = cwd := by
  refine Machine.invariant (P := fun me => Valid disk me ∧ me.home = home ∧ me.cwd = cwd) h.valid ?_ calls
  rintro me call ⟨hvalid, hhome, hcwd⟩
  obtain ⟨hhome', hcwd'⟩ := @exec_context disk me call
  exact ⟨exec_valid hvalid call, hhome'.trans hhome, hcwd'.trans hcwd⟩

/-! ## What is revoked stays revoked -/

/-- A grant with this id is revoked. -/
def Revoked (me : FolderGrants) (id : String) : Prop :=
  ∃ g ∈ me.state.grants, g.id = id ∧ g.revokedAt.isSome = true

/-- A grant of the list with the id is in the list with the first one revoked, revoked if it was. -/
theorem setRevoked_keeps {id' : String} {now : ℕ} {gs : List Grant} {g : Grant} (hg : g ∈ gs)
    (hrevoked : g.revokedAt.isSome = true) :
    ∃ g' ∈ setRevoked id' now gs, g'.id = g.id ∧ g'.revokedAt.isSome = true := by
  induction gs with
  | nil => cases hg
  | cons first rest ih =>
      unfold setRevoked
      split
      · rcases List.mem_cons.mp hg with rfl | hg
        · exact ⟨_, List.mem_cons_self .., rfl, rfl⟩
        · exact ⟨g, List.mem_cons_of_mem _ hg, rfl, hrevoked⟩
      · rcases List.mem_cons.mp hg with rfl | hg
        · exact ⟨g, List.mem_cons_self .., rfl, hrevoked⟩
        · obtain ⟨g', hg', hkept⟩ := ih hg
          exact ⟨g', List.mem_cons_of_mem _ hg', hkept⟩

theorem Revoked.exec {id : String} (h : Revoked me id) (call : Call) : Revoked (exec disk me call) id := by
  obtain ⟨g, hg, hid, hrevoked⟩ := h
  cases call with
  | grant req now =>
      show Revoked (grant disk me req now).2 id
      unfold grant
      split
      · exact ⟨g, hg, hid, hrevoked⟩
      · exact ⟨g, List.mem_append_left _ hg, hid, hrevoked⟩
  | revoke id' now =>
      show Revoked (revoke me id' now).2 id
      unfold revoke
      split
      · exact ⟨g, hg, hid, hrevoked⟩
      · split
        · exact ⟨g, hg, hid, hrevoked⟩
        · obtain ⟨g', hg', hsame, hkept⟩ := setRevoked_keeps hg hrevoked
          exact ⟨g', hg', hsame.trans hid, hkept⟩

/-- A revocation that goes through revokes. -/
theorem revoked_of_revoke {id : String} {now : ℕ} (h : (revoke me id now).1 = .ok ()) :
    Revoked (revoke me id now).2 id := by
  have hset : ∀ gs : List Grant, (∃ g ∈ gs, g.id = id) →
      ∃ g ∈ setRevoked id now gs, g.id = id ∧ g.revokedAt.isSome = true := by
    intro gs hgs
    induction gs with
    | nil =>
        obtain ⟨g, hg, -⟩ := hgs
        cases hg
    | cons first rest ih =>
        unfold setRevoked
        split
        · rename_i hfirst
          exact ⟨_, List.mem_cons_self .., hfirst, rfl⟩
        · rename_i hother
          obtain ⟨g, hg, hid⟩ := hgs
          rcases List.mem_cons.mp hg with rfl | hg
          · exact absurd hid hother
          · obtain ⟨g', hg', hkept⟩ := ih ⟨g, hg, hid⟩
            exact ⟨g', List.mem_cons_of_mem _ hg', hkept⟩
  unfold revoke at h ⊢
  split at h
  · cases h
  · rename_i g hfind
    split at h
    · cases h
    · rename_i hlive
      simp only [if_neg hlive]
      exact hset _ ⟨g, List.mem_of_find?_eq_some hfind, by simpa using List.find?_some hfind⟩

/-- The most specific grant is one of the grants, and covers the path. -/
theorem mem_of_mostSpecific {grants : List Grant} {path : Location} {g : Grant}
    (h : mostSpecific grants path = some g) : g ∈ grants ∧ g.covers path = true := by
  have hfold : ∀ (f : Option Grant → Grant → Option Grant), (∀ best x b, f best x = some b → b = x ∨ best = some b) →
      ∀ (gs : List Grant) (best : Option Grant), (∀ b, best = some b → b ∈ grants ∧ b.covers path = true) →
      (∀ b ∈ gs, b ∈ grants ∧ b.covers path = true) →
      ∀ b, gs.foldl f best = some b → b ∈ grants ∧ b.covers path = true := by
    intro f hf gs
    induction gs with
    | nil => exact fun best hbest _ => hbest
    | cons x gs ih =>
        intro best hbest hgs
        obtain ⟨hx, hgs⟩ := List.forall_mem_cons.mp hgs
        refine ih _ ?_ hgs
        intro b hb
        rcases hf best x b hb with rfl | hold
        · exact hx
        · exact hbest b hold
  refine hfold _ (fun best x b hb => ?_) _ none (fun b hb => by simp at hb) (fun b hb => List.mem_filter.mp hb) g h
  cases best with
  | none => exact .inl (Option.some.inj hb).symm
  | some b₀ =>
      dsimp only at hb
      split at hb
      · exact .inl (Option.some.inj hb).symm
      · exact .inr hb

/-- What a check reports is the id of a live grant. -/
theorem check_live {path : String} {op : Op} {now : ℕ} {canonical : Location} {id : String}
    (h : check disk me path op now = .allowed canonical id) :
    ∃ g ∈ me.state.grants, g.id = id ∧ g.isActive now = true := by
  have hlive : ∀ kind g, g ∈ live me op now kind → g ∈ me.state.grants ∧ g.isActive now = true := by
    intro kind g hg
    obtain ⟨hg, hchecks⟩ := List.mem_filter.mp hg
    exact ⟨hg, (Bool.and_eq_true_iff.mp hchecks).2⟩
  unfold check at h
  split at h
  · rename_i _ _ hinner
    cases h
    unfold checkInner at hinner
    obtain ⟨resolved, -, hinner⟩ := Except.bind_eq_ok.mp hinner
    split at hinner
    · rename_i g hmost
      cases hinner
      obtain ⟨hg, hactive⟩ := hlive _ _ (mem_of_mostSpecific hmost).1
      exact ⟨g, hg, rfl, hactive⟩
    · unfold checkFull at hinner
      split at hinner
      · cases hinner
      · obtain ⟨looked, -, hinner⟩ := Except.bind_eq_ok.mp hinner
        split at hinner
        · rename_i g hmost
          cases hinner
          obtain ⟨hg, hactive⟩ := hlive _ _ (mem_of_mostSpecific hmost).1
          exact ⟨g, hg, rfl, hactive⟩
        · cases hinner
  · cases h

/-- In a set that loads, no check reports a revoked id. -/
theorem Valid.never_reported (h : Valid disk me) {id : String} (hrevoked : Revoked me id) (path : String) (op : Op)
    (now : ℕ) (canonical : Location) : check disk me path op now ≠ .allowed canonical id := by
  intro hcheck
  obtain ⟨g, hg, hid, hsome⟩ := hrevoked
  obtain ⟨g', hg', hid', hactive⟩ := check_live hcheck
  have hsame := h.eq_of_id hg' hg (hid'.trans hid.symm)
  rw [hsame] at hactive
  unfold Grant.isActive at hactive
  rw [Option.isNone_eq_false_iff.mpr hsome] at hactive
  cases hactive

/-! ## The documents -/

/-- **Grant documents always load again**, to a set that answers alike. Ids are distinct, what fails changes nothing,
    and what is revoked is never reported again. -/
theorem document_reloads (disk : Disk) (home cwd : String) (start : FolderGrants)
    (hstart : Start disk home cwd start) (calls : List Call) :
    let me := Machine.run (exec disk) start calls
    (∃ me', fromState disk me.state home cwd = .ok me' ∧
        (∀ path op now, check disk me' path op now = check disk me path op now) ∧ ∀ now, list me' now = list me now) ∧
      (me.state.grants.map Grant.id).Nodup ∧
      (∀ req now e, (grant disk me req now).1 = .error e → (grant disk me req now).2 = me) ∧
      (∀ id now e, (revoke me id now).1 = .error e → (revoke me id now).2 = me) ∧
      (∀ id now, (revoke me id now).1 = .ok () → Revoked (revoke me id now).2 id) ∧
      ∀ id, Revoked me id → ∀ later path op now canonical,
        check disk (Machine.run (exec disk) me later) path op now ≠ .allowed canonical id := by
  intro me
  obtain ⟨hvalid, hhome, hcwd⟩ := run_valid hstart calls
  refine ⟨⟨me, fromState_eq_ok.mpr ⟨?_, hvalid⟩, fun _ _ _ => rfl, fun _ => rfl⟩, hvalid.ids, ?_, ?_, ?_, ?_⟩
  · show me = { state := me.state, home := home, cwd := cwd }
    rw [← hhome, ← hcwd]
  · intro req now e h
    unfold grant at h ⊢
    split at h
    · rfl
    · cases h
  · intro id now e h
    unfold revoke at h ⊢
    split at h
    · rfl
    · split at h
      · rename_i hsome
        simp only [if_pos hsome]
      · cases h
  · exact fun id now h => revoked_of_revoke h
  · intro id hrevoked later path op now canonical
    have hlater : Valid disk (Machine.run (exec disk) me later) :=
      Machine.invariant hvalid (fun _ call h => exec_valid h call) later
    have hstays : Revoked (Machine.run (exec disk) me later) id :=
      Machine.invariant (P := fun me => Revoked me id) hrevoked (fun _ call h => h.exec call) later
    exact hlater.never_reported hstays path op now canonical

namespace Small

def rootDisk : Disk where
  unicode := Guard.Small.unicode
  files := Guard.Small.files
  spelling loc := loc
  unprinted _ := false

/-- Full access to the root folder for an hour, taken back at once. -/
def calls : List Call := [.grant (.fullAccess "/" 3600 "member" "look") 10, .revoke "g-1" 11]

theorem resolveChecked_root :
    resolveChecked rootDisk "/" (new "/" "/").guardCtx = .ok { rooted := true, names := [] } := by
  have hcheck : checkPath rootDisk.unicode rootDisk.files (new "/" "/").guardCtx "/" =
      .ok { rooted := true, names := [] } := by
    refine checkPath_ok.mpr ⟨"/", by decide, by decide, ?_, by decide⟩
    have hstart : hasRoot "/" = true ∧ components "/" = [] := by
      decide
    have hroot : checkLocation rootDisk.unicode (resolvedRoots rootDisk.files (new "/" "/").guardCtx)
        { rooted := true, names := [] } = .ok () := by
      decide
    unfold walk
    simp only [hstart, hroot, if_true, walkFrom]
    rfl
  have hspelled : onDiskSpelling rootDisk { rooted := true, names := [] } = .ok { rooted := true, names := [] } := by
    show spellExisting rootDisk { rooted := true, names := [] } [] [] = _
    unfold spellExisting
    rfl
  unfold resolveChecked
  rw [hcheck]
  show (Except.mapError DenialReason.unresolvable (onDiskSpelling rootDisk _) >>= _) = _
  rw [hspelled]
  show (Except.mapError DenialReason.denyList (checkPath _ _ _ "/") >>= _) = _
  rw [hcheck]
  rfl

/-- The grant of the first call. -/
def rootGrant : Grant where
  id := "g-1"
  kind := .fullAccess
  root := "/"
  access := .read
  scope := .subtree
  grantedAt := 10
  expiresAt := some 3610
  grantedBy := "member"
  reason := "look"
  revokedAt := none

theorem grant_root : (grant rootDisk (new "/" "/") (.fullAccess "/" 3600 "member" "look") 10).2 =
    { new "/" "/" with state := { version := stateVersion, nextId := 2, grants := [rootGrant] } } := by
  have hdir : isDir rootDisk.files { rooted := true, names := [] } = true := by
    decide
  have hcanonical : canonicalRoot rootDisk (new "/" "/") "/" = .ok { rooted := true, names := [] } := by
    unfold canonicalRoot
    rw [resolveChecked_root]
    simp only [hdir, if_true]
  have hprepare : prepare rootDisk (new "/" "/") (.fullAccess "/" 3600 "member" "look") 10 = .ok (rootGrant, 2) := by
    have hrequest : checkRequest (.fullAccess "/" 3600 "member" "look") 10 = .ok (some 3610) := by
      decide
    unfold prepare
    rw [hrequest]
    show (canonicalRoot rootDisk (new "/" "/") "/" >>= _) = _
    rw [hcanonical]
    rfl
  unfold grant
  rw [hprepare]
  rfl

/-- What the run leaves: one grant, revoked. -/
theorem run_calls :
    (Machine.run (exec rootDisk) (new "/" "/") calls).state.grants.map (fun g => (g.id, g.root, g.revokedAt)) =
      [("g-1", "/", some 11)] := by
  show (revoke (grant rootDisk (new "/" "/") (.fullAccess "/" 3600 "member" "look") 10).2 "g-1" 11).2.state.grants.map _ = _
  rw [grant_root]
  rfl

/-- The document of a run in which a grant was made and taken back loads again. -/
theorem document_reloads_revoked :
    (Machine.run (exec rootDisk) (new "/" "/") calls).state.grants.map (fun g => (g.id, g.root, g.revokedAt)) =
        [("g-1", "/", some 11)] ∧
      ∃ me', fromState rootDisk (Machine.run (exec rootDisk) (new "/" "/") calls).state "/" "/" = .ok me' ∧
        ∀ path op now, check rootDisk me' path op now = check rootDisk (Machine.run (exec rootDisk) (new "/" "/") calls) path op now := by
  obtain ⟨⟨me', hload, hcheck, -⟩, -⟩ := document_reloads rootDisk "/" "/" (new "/" "/") (.inl rfl) calls
  exact ⟨run_calls, me', hload, hcheck⟩

end Small

end FolderGrants

end AgentRuntime.Grants
