import AgentRuntime.Checkpoints.Steps

/-!
# `Checkpoints.Refused` — what a refused step leaves behind (`agent-checkpoints/src/store.rs`)

A step whose recording fails leaves nothing behind (`recordStep_cases`). When it is recorded and the session's metadata
cannot be written after that, `begin_step` reports an error, and nobody holds the step that its paths are busy with.
-/

namespace AgentRuntime.Checkpoints

/-! ## Steps are numbered by their sessions -/

/-- Every step is listed under its own name, with a number its session has given out. -/
structure Ordered (w : World) : Prop where
  named : ∀ key m, w.inner.manifests.lookup key = some m → (m.session, m.seq) = key
  numbered : ∀ key m, w.inner.manifests.lookup key = some m → key.2 ≤ (w.inner.metaOf key.1).lastSeq

theorem Ordered.of_kept {w w' : World} (h : Ordered w) (hkept : Kept w w') : Ordered w' :=
  ⟨fun key m hm => h.named key m (hkept.listed key m hm),
    fun key m hm => (h.numbered key m (hkept.listed key m hm)).trans (hkept.numbered key.1)⟩

theorem Ordered.of_recorded {session : String} {plans : List Plan} {m : Manifest} {w w' : World} (h : Ordered w)
    (hrec : Recorded session w plans m w') : Ordered w' := by
  constructor
  · intro key m' hm'
    by_cases hkey : key = (session, m.seq)
    · subst hkey
      rw [hrec.own] at hm'
      cases hm'
      rw [hrec.name]
    · exact h.named key m' (hrec.others key hkey m' hm')
  · intro key m' hm'
    by_cases hkey : key = (session, m.seq)
    · subst hkey
      exact hrec.last
    · exact (h.numbered key m' (hrec.others key hkey m' hm')).trans (hrec.numbered key.1)

section

variable (env : Env)

/-- Ordered, and these steps have numbers that were given out. -/
def Fine (keys : List (String × ℕ)) (w : World) : Prop :=
  Ordered w ∧ ∀ key ∈ keys, key.2 ≤ (w.inner.metaOf key.1).lastSeq

theorem Fine.of_kept {keys : List (String × ℕ)} {w w' : World} (h : Fine keys w) (hkept : Kept w w') : Fine keys w' :=
  ⟨h.1.of_kept hkept, fun key hkey => (h.2 key hkey).trans (hkept.numbered key.1)⟩

theorem Forgets.fine {ε α : Type} {x : Prog World ε α} (h : Forgets x) (keys : List (String × ℕ)) :
    Prog.Triple (Fine keys) x (fun _ => Fine keys) fun _ => Fine keys :=
  Prog.Moves.triple h fun _ _ hfine hkept => hfine.of_kept hkept

/-- A step that is listed again under its own name. -/
theorem relist_fine {keys : List (String × ℕ)} {key : String × ℕ} {m : Manifest} (hkey : key ∈ keys)
    (hname : (m.session, m.seq) = key) :
    Prog.Triple (Fine keys) (memory fun g => { g with manifests := g.manifests.insert key m }) (fun _ => Fine keys)
      fun _ => Fine keys := by
  refine Prog.Triple.act ?_ (fun s e s' _ h => nomatch h)
  rintro w ⟨⟩ w' ⟨hordered, hkeys⟩ h
  cases h
  refine ⟨⟨?_, ?_⟩, hkeys⟩
  · intro key' m' hm'
    by_cases heq : key' = key
    · subst heq
      rw [AList.lookup_insert] at hm'
      cases hm'
      exact hname
    · rw [AList.lookup_insert_ne heq] at hm'
      exact hordered.named key' m' hm'
  · intro key' m' hm'
    by_cases heq : key' = key
    · subst heq
      exact hkeys key' hkey
    · rw [AList.lookup_insert_ne heq] at hm'
      exact hordered.numbered key' m' hm'

theorem beginStep_ordered (session root : String) (changes : List Change) {w : World} (h : Ordered w) :
    Ordered (beginStep env session root changes w).2 := by
  rcases recordStep_cases env session root changes w with ⟨e, w', hrun, hkept⟩ | ⟨step, w', plans, m, hrun, -, hrec⟩
  · unfold beginStep
    rw [Prog.run_bind_error hrun]
    exact h.of_kept hkept
  · unfold beginStep
    rw [Prog.run_bind_ok hrun]
    have hrest : Forgets (touch env session >>= fun _ => (pure step : Prog World Error Step)) :=
      (touch_forgets env session).bind fun _ => .pure _
    exact (h.of_recorded hrec).of_kept (hrest w')

theorem fingerprintNow_forgets (loc : List String) : Forgets (fingerprintNow env loc) := by
  refine Forgets.bind (Prog.Moves.attempt (lstat_forgets env _)) fun found => ?_
  split
  · exact .pure _
  · exact .throw _
  · exact (call_forgets env _).bind fun _ => .pure _
  · exact .pure _
  · exact .pure _
  · exact (call_forgets env _).bind fun _ => .pure _

theorem fingerprintAll_forgets (root : List String) (entries : List Entry) :
    Forgets (fingerprintAll env root entries) := by
  induction entries with
  | nil => exact .pure _
  | cons e entries ih => exact (fingerprintNow_forgets env _).bind fun _ => ih.bind fun _ => .pure _

theorem ended_forgets (m : Manifest) (commit : Bool) : Forgets (ended env m commit) := by
  unfold ended
  split
  · exact (fingerprintAll_forgets env _ _).bind fun _ => .pure _
  · exact .pure _

theorem writeEnded_forgets (m : Manifest) (commit : Bool) : Forgets (writeEnded env m commit) :=
  (ended_forgets env m commit).bind fun _ => (writeManifest_forgets env _).bind fun _ => .pure _

/-- A step keeps its name when it ends. -/
theorem writeEnded_name {m done : Manifest} {commit : Bool} {w w' : World}
    (h : writeEnded env m commit w = (.ok done, w')) : (done.session, done.seq) = (m.session, m.seq) := by
  obtain ⟨done', t, hended, h⟩ := Prog.bind_ok h
  obtain ⟨_, u, -, h⟩ := Prog.bind_ok h
  cases h
  unfold ended at hended
  split at hended
  · obtain ⟨entries, v, -, hended⟩ := Prog.bind_ok hended
    cases hended
    rfl
  · cases hended
    rfl

theorem release_fine (m : Manifest) (keys : List (String × ℕ)) :
    Prog.Triple (Fine keys) (memory (Inner.release m)) (fun _ => Fine keys) fun _ => Fine keys := by
  refine Prog.Triple.act ?_ (fun s e s' _ h => nomatch h)
  rintro w ⟨⟩ w' ⟨⟨hnamed, hnumbered⟩, hkeys⟩ h
  cases h
  exact ⟨⟨hnamed, hnumbered⟩, hkeys⟩

theorem endPrepared_fine {key : String × ℕ} {m : Manifest} (commit : Bool) (hname : (m.session, m.seq) = key) :
    Prog.Triple (Fine [key]) (endPrepared env key m commit) (fun _ => Fine [key]) fun _ => Fine [key] := by
  refine Prog.Triple.bind (Q := fun res w => (∀ done, res = .ok done → (done.session, done.seq) = key) ∧ Fine [key] w)
    ?_ fun res => Prog.Triple.pre fun hres => (release_fine m [key]).bind fun _ => ?_
  · refine Prog.Triple.attempt fun w hfine => ?_
    have hkept := hfine.of_kept (writeEnded_forgets env m commit w)
    refine ⟨?_, ?_⟩
    · intro done hdone
      refine ⟨?_, hkept⟩
      rintro _ ⟨⟩
      rw [← hname]
      have hrun : writeEnded env m commit w = (.ok done, (writeEnded env m commit w).2) := Prod.ext hdone rfl
      exact writeEnded_name env hrun
    · intro e _
      exact ⟨fun _ h => (nomatch h), hkept⟩
  · refine Prog.Triple.bind (Q := fun done w => (done.session, done.seq) = key ∧ Fine [key] w) ?_ fun done =>
      Prog.Triple.pre fun hdone => ?_
    · exact Prog.Triple.ofExcept (fun done w h hfine => ⟨hres done h, hfine⟩) fun _ _ _ hfine => hfine
    · exact (relist_fine List.mem_cons_self hdone).bind fun _ =>
        ((touch_forgets env key.1).fine [key]).bind fun _ => Prog.Triple.pure fun _ hfine => hfine

theorem Ordered.fine {w : World} (h : Ordered w) {keys : List (String × ℕ)}
    (hkeys : ∀ key ∈ keys, ∃ m, w.inner.manifests.lookup key = some m) : Fine keys w := by
  refine ⟨h, fun key hkey => ?_⟩
  obtain ⟨m, hm⟩ := hkeys key hkey
  exact h.numbered key m hm

/-- What a triple says of the state, whatever the outcome. -/
theorem triple_state {ε α : Type} {P Q : World → Prop} {x : Prog World ε α}
    (h : Prog.Triple P x (fun _ => Q) fun _ => Q) {w : World} (hw : P w) : Q (x w).2 := by
  obtain ⟨hok, herr⟩ := h w hw
  cases hr : (x w).1 with
  | ok a => exact hok a hr
  | error e => exact herr e hr

theorem finish_ordered (session : String) (seq : ℕ) (commit : Bool) {w : World} (h : Ordered w) :
    Ordered (finish env session seq commit w).2 := by
  cases hfound : w.inner.manifests.lookup (session, seq) with
  | none =>
      have hrun : finish env session seq commit w = (.error (.notFound session seq), w) := by
        have hread : Prog.read (fun w => w.inner.manifests.lookup (session, seq)) w = ((.ok none : Except Error _), w) := by
          rw [← hfound]
          rfl
        exact Prog.run_bind_ok hread
      rw [hrun]
      exact h
  | some m =>
      have hrun : finish env session seq commit w =
          (if m.status = .prepared then endPrepared env (session, seq) m commit else pure m.summary) w := by
        have hread : Prog.read (fun w => w.inner.manifests.lookup (session, seq)) w =
            ((.ok (some m) : Except Error _), w) := by
          rw [← hfound]
          rfl
        exact Prog.run_bind_ok hread
      rw [hrun]
      split
      · have hfine : Fine [(session, seq)] w := h.fine fun key hkey => ⟨m, by rwa [List.mem_singleton.mp hkey]⟩
        exact (triple_state (endPrepared_fine env commit (h.named _ m hfound)) hfine).1
      · exact h

/-! ## Undo -/

theorem edit_forgets (path : List String) (f : Files → Except IoError Files) : Forgets (edit env path f) := by
  refine Prog.Moves.mapError (io_forgets env fun w => ?_)
  split
  · rfl
  · rfl

theorem readBlob_forgets (hex : String) : Forgets (readBlob env hex) := by
  refine (call_forgets env _).bind fun _ => (Forgets.read _).bind fun found => ?_
  split
  · exact .throw _
  · split
    · exact .pure _
    · exact .throw _

theorem putBack_forgets (abs : List String) (node : Node) : Forgets (putBack env abs node) :=
  (edit_forgets env _ _).bind fun _ => call_forgets env _

theorem restore_forgets (abs : List String) (prior : Prior) : Forgets (restore env abs prior) := by
  cases prior with
  | absent =>
      refine Forgets.bind (Prog.Moves.attempt (lstat_forgets env _)) fun found => ?_
      split
      · exact .throw _
      · exact edit_forgets env _ _
      · exact .pure _
      · exact .throw _
  | file blob size mode =>
      exact (edit_forgets env _ _).bind fun _ => (readBlob_forgets env _).bind fun _ =>
        (call_forgets env _).bind fun _ => putBack_forgets env _ _
  | symlink target =>
      exact (edit_forgets env _ _).bind fun _ => (call_forgets env _).bind fun _ => putBack_forgets env _ _

theorem recheckEntries_forgets (root : List String) (entries : List Entry) :
    Forgets (recheckEntries env root entries) := by
  induction entries with
  | nil => exact .pure _
  | cons e entries ih => exact (walkParents_forgets env _ _ _ _).bind fun _ => ih

theorem recheck_forgets (steps : List Manifest) : Forgets (recheck env steps) := by
  induction steps with
  | nil => exact .pure _
  | cons m steps ih =>
      exact (canonicalRoot_forgets env _ _ _).bind fun _ => (Forgets.ofExcept _).bind fun _ =>
        (recheckEntries_forgets env _ _).bind fun _ => ih

theorem preflightEntries_forgets (m : Manifest) (entries : List Entry) (virt : Virtual) :
    Forgets (preflightEntries env m entries virt) := by
  induction entries generalizing virt with
  | nil => exact .pure _
  | cons e entries ih =>
      refine Forgets.bind ?_ fun _ => (ih _).bind fun _ => .pure _
      unfold current
      split
      · exact .pure _
      · exact fingerprintNow_forgets env _

theorem preflight_forgets (steps : List Manifest) (virt : Virtual) : Forgets (preflight env steps virt) := by
  induction steps generalizing virt with
  | nil => exact .pure _
  | cons m steps ih => exact (preflightEntries_forgets env _ _ _).bind fun _ => (ih _).bind fun _ => .pure _

theorem verifyEntries_forgets (entries : List Entry) : Forgets (verifyEntries env entries) := by
  induction entries with
  | nil => exact .pure _
  | cons e entries ih =>
      unfold verifyEntries
      split
      · exact (readBlob_forgets env _).bind fun _ => ih
      · exact ih

theorem verifyAll_forgets (steps : List Manifest) : Forgets (verifyAll env steps) := by
  induction steps with
  | nil => exact .pure _
  | cons m steps ih => exact (verifyEntries_forgets env _).bind fun _ => ih

theorem restoreEntries_forgets (root : List String) (entries : List Entry) :
    Forgets (restoreEntries env root entries) := by
  induction entries with
  | nil => exact .pure _
  | cons e entries ih => exact (restore_forgets env _ _).bind fun _ => ih

theorem removeDirs_forgets (root : List String) (dirs : List (List String)) : Forgets (removeDirs env root dirs) := by
  induction dirs with
  | nil => exact .pure _
  | cons d dirs ih => exact Forgets.bind (Prog.Moves.attempt (edit_forgets env _ _)) fun _ => ih

theorem undoEach_fine {session : String} {keys : List (String × ℕ)} {steps : List Manifest}
    (hsteps : ∀ m ∈ steps, m.session = session ∧ (session, m.seq) ∈ keys) :
    Prog.Triple (Fine keys) (undoEach env session steps) (fun _ => Fine keys) fun _ => Fine keys := by
  induction steps with
  | nil => exact Prog.Triple.pure fun _ hfine => hfine
  | cons m steps ih =>
      obtain ⟨hname, hkey⟩ := hsteps m List.mem_cons_self
      refine Prog.Triple.bind (Q := fun _ => Fine keys) ?_ fun _ =>
        ih fun m' hm' => hsteps m' (List.mem_cons_of_mem m hm')
      exact ((restoreEntries_forgets env _ _).fine keys).bind fun _ => ((removeDirs_forgets env _ _).fine keys).bind fun _ =>
        ((writeManifest_forgets env _).fine keys).bind fun _ => relist_fine hkey (by rw [hname])

theorem undoMany_ordered {session : String} {steps : List Manifest} {w : World} (h : Ordered w)
    (hsteps : ∀ m ∈ steps, w.inner.manifests.lookup (session, m.seq) = some m) :
    Ordered (undoMany env session steps w).2 := by
  have hfine : Fine (steps.map fun m => (session, m.seq)) w := by
    refine h.fine fun key hkey => ?_
    obtain ⟨m, hm, rfl⟩ := List.mem_map.mp hkey
    exact ⟨m, hsteps m hm⟩
  have hnamed : ∀ m ∈ steps, m.session = session ∧ (session, m.seq) ∈ steps.map fun m => (session, m.seq) :=
    fun m hm => ⟨congrArg Prod.fst (h.named _ m (hsteps m hm)), List.mem_map_of_mem hm⟩
  have hrun : Prog.Triple (Fine (steps.map fun m => (session, m.seq))) (undoMany env session steps)
      (fun _ => Fine (steps.map fun m => (session, m.seq))) fun _ => Fine (steps.map fun m => (session, m.seq)) :=
    ((Forgets.read _).fine _).bind fun _ => ((Forgets.ofExcept _).fine _).bind fun _ =>
      ((recheck_forgets env _).fine _).bind fun _ => ((preflight_forgets env _ _).fine _).bind fun _ =>
        ((Forgets.ofExcept _).fine _).bind fun _ => ((verifyAll_forgets env _).fine _).bind fun _ =>
          (undoEach_fine env hnamed).bind fun _ => ((touch_forgets env _).fine _).bind fun _ =>
            (Forgets.pure _).fine _
  exact (triple_state hrun hfine).1

theorem undoStep_ordered (session : String) (seq : ℕ) {w : World} (h : Ordered w) :
    Ordered (undoStep env session seq w).2 := by
  show Ordered (undoStepIn env w.inner session seq w).2
  unfold undoStepIn
  cases hfound : w.inner.manifests.lookup (session, seq) with
  | none => exact h
  | some m =>
      have hseq : (session, m.seq) = (session, seq) := by
        have hname := h.named _ m hfound
        rw [(Prod.mk.inj hname).2]
      have hstep : ∀ m' ∈ [m], w.inner.manifests.lookup (session, m'.seq) = some m' := by
        intro m' hm'
        rw [List.mem_singleton.mp hm', hseq]
        exact hfound
      cases hstatus : m.status with
      | undone =>
          simp only [hstatus]
          exact h
      | prepared =>
          simp only [hstatus]
          exact h
      | committed =>
          simp only [hstatus]
          exact undoMany_ordered env h hstep
      | interrupted =>
          simp only [hstatus]
          exact undoMany_ordered env h hstep

theorem mem_toUndo {g : Inner} {session : String} {m : Manifest} (h : m ∈ g.toUndo session) :
    ∃ seq, g.manifests.lookup (session, seq) = some m := by
  unfold Inner.toUndo at h
  rw [List.mem_mergeSort, List.mem_filterMap] at h
  obtain ⟨⟨⟨s, seq⟩, m'⟩, hmem, hsome⟩ := h
  split at hsome
  · rename_i hcond
    cases hsome
    obtain ⟨rfl, -⟩ := hcond
    exact ⟨seq, AList.mem_lookup_iff.mpr hmem⟩
  · cases hsome

theorem undoSession_ordered (session : String) {w : World} (h : Ordered w) :
    Ordered (undoSession env session w).2 := by
  show Ordered (undoSessionIn env w.inner session w).2
  unfold undoSessionIn
  cases (w.inner.toUndo session).find? fun m => decide (m.status = .prepared) with
  | some m => exact h
  | none =>
      by_cases hnil : w.inner.toUndo session = []
      · simp only [hnil, if_true]
        exact h
      · simp only [hnil, if_false]
        have hsteps : ∀ m ∈ w.inner.toUndo session, w.inner.manifests.lookup (session, m.seq) = some m := by
          intro m hm
          obtain ⟨seq, hfound⟩ := mem_toUndo hm
          have hname := h.named _ m hfound
          rw [(Prod.mk.inj hname).2]
          exact hfound
        have hundone := undoMany_ordered env h hsteps
        rcases hmany : undoMany env session (w.inner.toUndo session) w with ⟨r, w'⟩
        rw [hmany] at hundone
        cases r with
        | ok report =>
            rw [Prog.run_bind_ok hmany]
            exact hundone
        | error e =>
            rw [Prog.run_bind_error hmany]
            exact hundone

/-! ## Opening -/

/-- No step of these sessions is listed. -/
def Unlisted (sessions : List String) (w : World) : Prop :=
  Ordered w ∧ ∀ key m, w.inner.manifests.lookup key = some m → key.1 ∉ sessions

theorem Unlisted.of_kept {sessions : List String} {w w' : World} (h : Unlisted sessions w) (hkept : Kept w w') :
    Unlisted sessions w' :=
  ⟨h.1.of_kept hkept, fun key m hm => h.2 key m (hkept.listed key m hm)⟩

theorem Forgets.unlisted {ε α : Type} {x : Prog World ε α} (h : Forgets x) (sessions : List String) :
    Prog.Triple (Unlisted sessions) x (fun _ => Unlisted sessions) fun _ => Unlisted sessions :=
  Prog.Moves.triple h fun _ _ hun hkept => hun.of_kept hkept

theorem loadManifest_name {m : Manifest} :
    Prog.Triple (fun _ => True) (loadManifest env m)
      (fun m' _ => (m'.session, m'.seq) = (m.session, m.seq)) fun _ _ => True := by
  unfold loadManifest
  split
  · exact Prog.Triple.bind (Q := fun _ _ => True) (fun _ _ => ⟨fun _ _ => trivial, fun _ _ => trivial⟩) fun _ =>
      Prog.Triple.pure fun _ _ => rfl
  · exact Prog.Triple.pure fun _ _ => rfl

theorem loadManifest_forgets (m : Manifest) : Forgets (loadManifest env m) := by
  unfold loadManifest
  split
  · exact (writeManifest_forgets env _).bind fun _ => .pure _
  · exact .pure _

theorem loaded_unlisted {session : String} {sessions : List String} {m : Manifest} (hname : m.session = session)
    (hnew : session ∉ sessions) :
    Prog.Triple (Unlisted sessions) (memory (Inner.loaded session m)) (fun _ => Unlisted sessions) fun _ _ => True := by
  refine Prog.Triple.act ?_ (fun s e s' _ h => nomatch h)
  rintro w ⟨⟩ w' ⟨⟨hnamed, hnumbered⟩, hsessions⟩ h
  cases h
  have hlookup : ∀ key m', (w.inner.loaded session m).manifests.lookup key = some m' →
      (key = (session, m.seq) ∧ m' = m) ∨ w.inner.manifests.lookup key = some m' := by
    intro key m' hm'
    have hm' : (w.inner.manifests.insert (session, m.seq) m).lookup key = some m' := hm'
    by_cases hkey : key = (session, m.seq)
    · subst hkey
      rw [AList.lookup_insert] at hm'
      cases hm'
      exact .inl ⟨rfl, rfl⟩
    · rw [AList.lookup_insert_ne hkey] at hm'
      exact .inr hm'
  have hmeta : ∀ other, ((w.inner.loaded session m).metaOf other) =
      if other = session then { w.inner.metaOf session with lastSeq := max (w.inner.metaOf session).lastSeq m.seq }
      else w.inner.metaOf other := by
    intro other
    unfold Inner.loaded
    rw [metaOf_setMeta]
    rfl
  refine ⟨⟨?_, ?_⟩, ?_⟩
  · intro key m' hm'
    rcases hlookup key m' hm' with ⟨rfl, rfl⟩ | hm'
    · rw [hname]
    · exact hnamed key m' hm'
  · intro key m' hm'
    show key.2 ≤ ((w.inner.loaded session m).metaOf key.1).lastSeq
    rw [hmeta]
    rcases hlookup key m' hm' with ⟨rfl, rfl⟩ | hm'
    · rw [if_pos rfl]
      exact le_max_right _ _
    · have hle := hnumbered key m' hm'
      split
      · rename_i heq
        rw [heq] at hle
        exact hle.trans (le_max_left _ _)
      · exact hle
  · intro key m' hm'
    rcases hlookup key m' hm' with ⟨rfl, rfl⟩ | hm'
    · exact hnew
    · exact hsessions key m' hm'

theorem loadSteps_unlisted {session : String} {sessions : List String} (hnew : session ∉ sessions)
    (steps : List Manifest) :
    Prog.Triple (Unlisted sessions) (loadSteps env session steps) (fun _ => Unlisted sessions) fun _ _ => True := by
  induction steps with
  | nil => exact Prog.Triple.pure fun _ h => h
  | cons m steps ih =>
      refine Prog.Triple.bind (((call_forgets env _).unlisted sessions).fail fun _ _ _ => trivial) fun _ => ?_
      refine Prog.Triple.bind (Q := fun _ w => m.session = session ∧ Unlisted sessions w) ?_ fun _ =>
        Prog.Triple.pre fun hsession => ?_
      · refine Prog.Triple.ofExcept (fun _ w hok hun => ⟨?_, hun⟩) fun _ _ _ _ => trivial
        unfold refuseForeign at hok
        split at hok
        · assumption
        · cases hok
      · refine Prog.Triple.bind (Q := fun m' w => m'.session = session ∧ Unlisted sessions w) ?_ fun m' =>
          Prog.Triple.pre fun hname => (loaded_unlisted hname hnew).bind fun _ => ih
        intro w hun
        obtain ⟨hname, -⟩ := loadManifest_name env (m := m) w trivial
        refine ⟨fun m' hm' => ⟨?_, hun.of_kept (loadManifest_forgets env m w)⟩, fun _ _ => trivial⟩
        rw [← hsession]
        exact congrArg Prod.fst (hname m' hm')

theorem opened_unlisted {session : String} {sessions : List String} (m : SessionMeta) :
    Prog.Triple (Unlisted (session :: sessions)) (memory (Inner.opened session m)) (fun _ => Unlisted sessions)
      fun _ _ => True := by
  refine Prog.Triple.act ?_ (fun s e s' _ h => nomatch h)
  rintro w ⟨⟩ w' ⟨⟨hnamed, hnumbered⟩, hsessions⟩ h
  cases h
  refine ⟨⟨hnamed, ?_⟩, ?_⟩
  · intro key m' hm'
    have hne : key.1 ≠ session := fun heq => hsessions key m' hm' (heq ▸ List.mem_cons_self)
    have hmeta : (w.inner.opened session m).metaOf key.1 = w.inner.metaOf key.1 := by
      show (w.inner.setMeta session m).metaOf key.1 = _
      rw [metaOf_setMeta, if_neg hne]
    show key.2 ≤ ((w.inner.opened session m).metaOf key.1).lastSeq
    rw [hmeta]
    exact hnumbered key m' hm'
  · intro key m' hm' hmem
    exact hsessions key m' hm' (List.mem_cons_of_mem _ hmem)

theorem loadSessions_ordered {sessions : List String} (hnodup : sessions.Nodup) :
    Prog.Triple (Unlisted sessions) (loadSessions env sessions) (fun _ => Ordered) fun _ _ => True := by
  induction sessions with
  | nil => exact Prog.Triple.pure fun _ h => h.1
  | cons session sessions ih =>
      obtain ⟨hnew, hrest⟩ := List.nodup_cons.mp hnodup
      refine Prog.Triple.bind (((call_forgets env _).unlisted _).fail fun _ _ _ => trivial) fun _ => ?_
      refine Prog.Triple.bind (((Forgets.read World.disk).unlisted _).fail fun _ _ _ => trivial) fun d => ?_
      refine (opened_unlisted _).bind fun _ => ?_
      refine Prog.Triple.bind (((call_forgets env _).unlisted _).fail fun _ _ _ => trivial) fun _ => ?_
      exact (loadSteps_unlisted env hnew _).bind fun _ => ih hrest

/-- A store that was opened is ordered, whatever its directory held. -/
theorem openStore_ordered {w w' : World} (h : openStore env w = (.ok (), w')) : Ordered w' := by
  have hany : ∀ {α : Type} (x : Prog World Error α), Prog.Triple (fun _ => True) x (fun _ _ => True) fun _ _ => True :=
    fun x w _ => ⟨fun _ _ => trivial, fun _ _ => trivial⟩
  have hempty : Prog.Triple (fun _ => True) (memory fun _ => .empty) (fun _ w => w.inner = .empty) fun _ _ => True := by
    refine Prog.Triple.act ?_ (fun s e s' _ h => nomatch h)
    rintro w ⟨⟩ w' - h
    cases h
    rfl
  have hnone : ∀ sessions w, w.inner = Inner.empty → Unlisted sessions w := by
    intro sessions w hinner
    have hlookup : ∀ key, w.inner.manifests.lookup key = none := by
      intro key
      rw [hinner]
      exact AList.lookup_empty key
    refine ⟨⟨?_, ?_⟩, ?_⟩
    · intro key m hm
      rw [hlookup] at hm
      cases hm
    · intro key m hm
      rw [hlookup] at hm
      cases hm
    · intro key m hm
      rw [hlookup] at hm
      cases hm
  have hread : Prog.Triple (fun w => w.inner = .empty) (Prog.read World.disk : Prog World Error Disk)
      (fun _ w => w.inner = .empty) fun _ _ => True := Prog.Triple.read fun _ hinner => hinner
  have hscanned : ∀ d, Forgets (memory (Inner.scanned d)) := fun d =>
    memory_forgets (fun _ => rfl) (fun _ _ _ => id) fun _ _ => le_rfl
  have hkeep : ∀ {ε α : Type} {x : Prog World ε α}, Forgets x →
      Prog.Triple Ordered x (fun _ => Ordered) fun _ _ => True := fun hx =>
    (Prog.Moves.triple hx fun _ _ hord hkept => hord.of_kept hkept).fail fun _ _ _ => trivial
  have hrun : Prog.Triple (fun _ => True) (openStore env) (fun _ => Ordered) fun _ _ => True :=
    (hany _).bind fun _ => (hany _).bind fun _ => hempty.bind fun _ => hread.bind fun d =>
      ((loadSessions_ordered env (List.nodup_dedup _)).weaken (hnone _) fun _ _ h => h).bind fun _ =>
        (hkeep (call_forgets env _)).bind fun _ => (hkeep (hscanned d)).bind fun _ => hkeep (gc_forgets env)
  obtain ⟨hok, -⟩ := hrun w trivial
  rw [h] at hok
  exact hok () rfl

end

/-! ## The states of a store -/

/-- The same store, with other failures. -/
def Env.failing (env : Env) (fault : ℕ → Option IoError) : Env := { env with fault }

/-- Every state a store can be in: it was opened, and then used in any way, with any failures; meanwhile the member's
    folder changes as it likes. -/
inductive Reachable (env : Env) : World → Prop where
  | opened {w w' : World} (fault : ℕ → Option IoError) (h : openStore (env.failing fault) w = (.ok (), w')) :
      Reachable env w'
  | begun {w : World} (h : Reachable env w) (fault : ℕ → Option IoError) (session root : String)
      (changes : List Change) : Reachable env (beginStep (env.failing fault) session root changes w).2
  | finished {w : World} (h : Reachable env w) (fault : ℕ → Option IoError) (session : String) (seq : ℕ)
      (commit : Bool) : Reachable env (finish (env.failing fault) session seq commit w).2
  | undone {w : World} (h : Reachable env w) (fault : ℕ → Option IoError) (session : String) (seq : ℕ) :
      Reachable env (undoStep (env.failing fault) session seq w).2
  | allUndone {w : World} (h : Reachable env w) (fault : ℕ → Option IoError) (session : String) :
      Reachable env (undoSession (env.failing fault) session w).2
  | edited {w : World} (h : Reachable env w) (files : Files) : Reachable env { w with files }

theorem Reachable.ordered {env : Env} {w : World} (h : Reachable env w) : Ordered w := by
  induction h with
  | opened fault h => exact openStore_ordered _ h
  | begun _ fault session root changes ih => exact beginStep_ordered _ session root changes ih
  | finished _ fault session seq commit ih => exact finish_ordered _ session seq commit ih
  | undone _ fault session seq ih => exact undoStep_ordered _ session seq ih
  | allUndone _ fault session ih => exact undoSession_ordered _ session ih
  | edited _ files ih => exact ⟨ih.named, ih.numbered⟩

/-! ## Refused steps -/

/-- A refused step left nothing: no path is busy because of it, no step of it is listed or in flight, and a later step is
    refused with `Busy` only when it would be without it. -/
structure LeavesNothing (env : Env) (session root : String) (changes : List Change) (w w' : World) : Prop where
  busy : w'.inner.busy = w.inner.busy
  listed : ∀ key m, w'.inner.manifests.lookup key = some m → w.inner.manifests.lookup key = some m
  again : ∀ fault later path, later.inner.busy = w'.inner.busy →
    (beginStep (env.failing fault) session root changes later).1 = .error (.busy path) →
      (beginStep (env.failing fault) session root changes
        { later with inner := { later.inner with busy := w.inner.busy } }).1 = .error (.busy path)

theorem LeavesNothing.of_kept (env : Env) (session root : String) (changes : List Change) {w w' : World}
    (h : Kept w w') : LeavesNothing env session root changes w w' := by
  refine ⟨h.busy, h.listed, ?_⟩
  intro fault later path hbusy hrun
  rw [h.busy] at hbusy
  rw [← hbusy]
  exact hrun

/-- **Refused steps.** A step that is refused leaves nothing behind exactly when the session's metadata is written once
    the step is recorded. -/
theorem refused_leaves_nothing_iff (env : Env) {w : World} (h : Reachable env w) (fault : ℕ → Option IoError)
    (session root : String) (changes : List Change) :
    (∀ e w', beginStep (env.failing fault) session root changes w = (.error e, w') →
      LeavesNothing env session root changes w w') ↔
    ∀ step t, recordStep (env.failing fault) session root changes w = (.ok step, t) →
      (touch (env.failing fault) session t).1 = .ok () := by
  rcases recordStep_cases (env.failing fault) session root changes w with
    ⟨e, t, hrun, hkept⟩ | ⟨step, t, plans, m, hrun, -, hrec⟩
  · have hbegin : beginStep (env.failing fault) session root changes w = (.error e, t) := Prog.run_bind_error hrun
    constructor
    · intro _ step t' hok
      rw [hrun] at hok
      cases hok
    · intro _ e' w' hfailed
      rw [hbegin] at hfailed
      cases hfailed
      exact .of_kept env session root changes hkept
  · have hbegin : beginStep (env.failing fault) session root changes w =
        (touch (env.failing fault) session >>= fun _ => (pure step : Prog World Error Step)) t := Prog.run_bind_ok hrun
    constructor
    · intro hleaves step' t' hok
      rw [hrun] at hok
      cases hok
      have hmanifests := touch_manifests (env.failing fault) session t
      rcases hrest : touch (env.failing fault) session t with ⟨r, w'⟩
      rw [hrest] at hmanifests
      cases r with
      | ok _ => rfl
      | error e =>
          -- the step is still listed, under a number that was not given out before
          have hfailed : beginStep (env.failing fault) session root changes w = (.error e, w') := by
            rw [hbegin]
            exact Prog.run_bind_error hrest
          have hlisted : w'.inner.manifests.lookup (session, m.seq) = some m := by
            rw [hmanifests]
            exact hrec.own
          have hbefore := (hleaves e w' hfailed).listed _ m hlisted
          have hnumbered : m.seq ≤ (w.inner.metaOf session).lastSeq := h.ordered.numbered _ m hbefore
          exact absurd hrec.fresh (Nat.not_lt.mpr hnumbered)
    · intro htouch e w' hfailed
      rcases hrest : touch (env.failing fault) session t with ⟨r, u⟩
      have hok := htouch step t hrun
      rw [hrest] at hok
      cases hok
      rw [hbegin, Prog.run_bind_ok hrest] at hfailed
      cases hfailed

/-! A folder `/w` with nothing in it, a store that was just opened, and a disk that fails one call. -/

def folderEnv : Env where
  dir := ["store"]
  cwd := []
  cfg := { maxStoreBytes := 1000, maxFileBytes := 1000 }
  sha256Hex := fun _ => ""
  fault := fun _ => none

def folderWorld : World where
  files := { nodes := (∅ : AList fun _ : List String => Node).insert ["w"] .folder }
  disk := { manifests := ∅, sessions := ∅, blobs := ∅ }
  inner := .empty
  clock := 0

def openedWorld : World := (openStore folderEnv folderWorld).2

/-- Only the n-th call fails. -/
def noSpaceAt (n : ℕ) (k : ℕ) : Option IoError :=
  if k = n then some (.other "No space left on device (os error 28)") else none

theorem openedWorld_reachable : Reachable folderEnv openedWorld := by
  have hopen : (openStore folderEnv folderWorld).1 = .ok () := by decide +kernel
  exact .opened (w := folderWorld) (fun _ => none) (Prod.ext hopen rfl)

/-- The disk is full when the folder is looked up. -/
theorem refused_leaves_nothing_before_the_step :
    Reachable folderEnv openedWorld ∧
      ∀ e w', beginStep (folderEnv.failing (noSpaceAt 3)) "s" "/w" [.write "a" "00"] openedWorld = (.error e, w') →
        LeavesNothing folderEnv "s" "/w" [.write "a" "00"] openedWorld w' := by
  refine ⟨openedWorld_reachable, ?_⟩
  refine (refused_leaves_nothing_iff folderEnv openedWorld_reachable (noSpaceAt 3) "s" "/w" [.write "a" "00"]).mpr ?_
  intro step t hok
  have hfails : (recordStep (folderEnv.failing (noSpaceAt 3)) "s" "/w" [.write "a" "00"] openedWorld).1.isOk = false := by
    decide +kernel
  rw [hok] at hfails
  cases hfails

/-- The disk is full when the session's metadata is written: the step is refused, and its path stays busy. -/
theorem refused_step_keeps_its_path :
    Reachable folderEnv openedWorld ∧
      ∃ e w', beginStep (folderEnv.failing (noSpaceAt 13)) "s" "/w" [.write "a" "00"] openedWorld = (.error e, w') ∧
        ["w", "a"] ∉ openedWorld.inner.busy ∧ ["w", "a"] ∈ w'.inner.busy ∧
        (openedWorld.inner.manifests.lookup ("s", 1)).map Manifest.status = none ∧
        (w'.inner.manifests.lookup ("s", 1)).map Manifest.status = some .prepared ∧
        (beginStep folderEnv "s" "/w" [.write "a" "00"] w').1 = .error (.busy "a") ∧
        ¬ LeavesNothing folderEnv "s" "/w" [.write "a" "00"] openedWorld w' := by
  refine ⟨openedWorld_reachable, ?_⟩
  rcases hrun : beginStep (folderEnv.failing (noSpaceAt 13)) "s" "/w" [.write "a" "00"] openedWorld with ⟨r, w'⟩
  have hresult : (beginStep (folderEnv.failing (noSpaceAt 13)) "s" "/w" [.write "a" "00"] openedWorld).1.isOk = false := by
    decide +kernel
  obtain rfl : (beginStep (folderEnv.failing (noSpaceAt 13)) "s" "/w" [.write "a" "00"] openedWorld).2 = w' := by rw [hrun]
  rw [hrun] at hresult
  have hbefore : ["w", "a"] ∉ openedWorld.inner.busy := by decide +kernel
  have hbusy : ["w", "a"] ∈
      (beginStep (folderEnv.failing (noSpaceAt 13)) "s" "/w" [.write "a" "00"] openedWorld).2.inner.busy := by
    decide +kernel
  cases r with
  | ok step => cases hresult
  | error e =>
      refine ⟨e, _, rfl, hbefore, hbusy, by decide +kernel, by decide +kernel, by decide +kernel, ?_⟩
      intro hleaves
      rw [hleaves.busy] at hbusy
      exact hbefore hbusy

end AgentRuntime.Checkpoints
