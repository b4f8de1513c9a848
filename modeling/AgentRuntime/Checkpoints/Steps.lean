import AgentRuntime.Checkpoints.Undo

/-!
# `Checkpoints.Steps` — the steps on record

Up to the point where a step is recorded, whatever is done only forgets (`Kept`): no path gets busy and no step gets
listed. In every state the store can be in, a step is listed under its own name, with a number its session has given out
(`Reachable.ordered`).
-/

namespace AgentRuntime.Checkpoints

/-! ## What only forgets -/

/-- No path is busy that was not, and no step is listed that was not. -/
structure Kept (w w' : World) : Prop where
  busy : w'.inner.busy = w.inner.busy
  listed : ∀ key m, w'.inner.manifests.lookup key = some m → w.inner.manifests.lookup key = some m
  numbered : ∀ session, (w.inner.metaOf session).lastSeq ≤ (w'.inner.metaOf session).lastSeq

theorem Kept.of_inner {w w' : World} (h : w'.inner = w.inner) : Kept w w' := by
  refine ⟨by rw [h], ?_, ?_⟩
  · intro key m hm
    rwa [h] at hm
  · intro session
    rw [h]

theorem Kept.refl (w : World) : Kept w w := .of_inner rfl

theorem Kept.trans (w w' w'' : World) (h : Kept w w') (h' : Kept w' w'') : Kept w w'' :=
  ⟨h'.busy.trans h.busy, fun key m hm => h.listed key m (h'.listed key m hm),
    fun session => (h.numbered session).trans (h'.numbered session)⟩

section

variable (env : Env)

/-- A program that only forgets. -/
abbrev Forgets {ε α : Type} (x : Prog World ε α) : Prop := Prog.Moves Kept x

variable {env} {ε α β : Type}

theorem Forgets.pure (a : α) : Forgets (Pure.pure a : Prog World ε α) := Prog.Moves.pure Kept.refl a

theorem Forgets.throw (e : ε) : Forgets (Prog.throw e : Prog World ε α) := Prog.Moves.throw Kept.refl e

theorem Forgets.read (g : World → α) : Forgets (Prog.read g : Prog World ε α) := Prog.Moves.read Kept.refl g

theorem Forgets.ofExcept (r : Except ε α) : Forgets (Prog.ofExcept r) := Prog.Moves.ofExcept Kept.refl r

theorem Forgets.bind {x : Prog World ε α} {f : α → Prog World ε β} (hx : Forgets x) (hf : ∀ a, Forgets (f a)) :
    Forgets (x >>= f) :=
  Prog.Moves.bind Kept.trans hx hf

variable (env)

/-- What is in memory stays. -/
abbrev SameMemory {ε α : Type} (x : Prog World ε α) : Prop := Prog.Moves (fun w w' => w'.inner = w.inner) x

theorem SameMemory.bind {x : Prog World ε α} {f : α → Prog World ε β} (hx : SameMemory x) (hf : ∀ a, SameMemory (f a)) :
    SameMemory (x >>= f) :=
  Prog.Moves.bind (fun _ _ _ h h' => h'.trans h) hx hf

theorem SameMemory.forgets {x : Prog World ε α} (h : SameMemory x) : Forgets x :=
  Prog.Moves.mono h fun _ _ => Kept.of_inner

theorem io_sameMemory {f : World → Except IoError α × World} (h : ∀ w, (f w).2.inner = w.inner) :
    SameMemory (io env f) := by
  intro w
  show (io env f w).2.inner = w.inner
  unfold io Prog.act
  dsimp only
  cases env.fault w.clock with
  | some e => rfl
  | none => exact h _

theorem io_forgets {f : World → Except IoError α × World} (h : ∀ w, (f w).2.inner = w.inner) : Forgets (io env f) :=
  (io_sameMemory env h).forgets

theorem look_forgets (f : World → Except IoError α) : Forgets (look env f) := io_forgets env fun _ => rfl

theorem call_sameMemory (path : List String) : SameMemory (call env path) :=
  Prog.Moves.mapError (io_sameMemory env fun _ => rfl)

theorem call_forgets (path : List String) : Forgets (call env path) := (call_sameMemory env path).forgets

theorem change_sameMemory (path : List String) (f : Disk → Disk) : SameMemory (change env path f) :=
  Prog.Moves.mapError (io_sameMemory env fun _ => rfl)

theorem change_forgets (path : List String) (f : Disk → Disk) : Forgets (change env path f) :=
  (change_sameMemory env path f).forgets

theorem lstat_forgets (loc : List String) : Forgets (lstat env loc) := look_forgets env _

theorem atomicWrite_sameMemory (dest : List String) (f : Disk → Disk) : SameMemory (atomicWrite env dest f) :=
  (call_sameMemory env _).bind fun _ => (call_sameMemory env _).bind fun _ => (call_sameMemory env _).bind fun _ =>
    (change_sameMemory env _ _).bind fun _ => call_sameMemory env _

theorem atomicWrite_forgets (dest : List String) (f : Disk → Disk) : Forgets (atomicWrite env dest f) :=
  (atomicWrite_sameMemory env dest f).forgets

theorem removeFile_forgets (path : List String) (there : Disk → Bool) (f : Disk → Disk) :
    Forgets (removeFile env path there f) := by
  refine Forgets.bind (Prog.Moves.attempt (io_forgets env ?_)) ?_
  · intro w
    split
    · rfl
    · rfl
  · rintro (e | _)
    · cases e with
      | notFound => exact .pure _
      | other text => exact .throw _
    · exact .pure _

theorem writeManifest_forgets (m : Manifest) : Forgets (writeManifest env m) :=
  (call_forgets env _).bind fun _ => atomicWrite_forgets env _ _

theorem writeMeta_sameMemory (session : String) (m : SessionMeta) : SameMemory (writeMeta env session m) :=
  (call_sameMemory env _).bind fun _ => atomicWrite_sameMemory env _ _

theorem writeMeta_forgets (session : String) (m : SessionMeta) : Forgets (writeMeta env session m) :=
  (writeMeta_sameMemory env session m).forgets

/-- A change in memory that lists nothing. -/
theorem memory_forgets {f : Inner → Inner} (hbusy : ∀ g, (f g).busy = g.busy)
    (hlisted : ∀ g key m, (f g).manifests.lookup key = some m → g.manifests.lookup key = some m)
    (hnumbered : ∀ g session, (g.metaOf session).lastSeq ≤ ((f g).metaOf session).lastSeq) : Forgets (memory f) :=
  fun w => ⟨hbusy w.inner, hlisted w.inner, hnumbered w.inner⟩

theorem metaOf_setMeta (g : Inner) (session other : String) (m : SessionMeta) :
    (g.setMeta session m).metaOf other = if other = session then m else g.metaOf other := by
  unfold Inner.metaOf Inner.setMeta
  split
  · rename_i heq
    subst heq
    simp
  · rename_i hne
    simp [AList.lookup_insert_ne hne]

theorem setMeta_numbered {g : Inner} {session : String} {m : SessionMeta}
    (h : (g.metaOf session).lastSeq ≤ m.lastSeq) (other : String) :
    (g.metaOf other).lastSeq ≤ ((g.setMeta session m).metaOf other).lastSeq := by
  rw [metaOf_setMeta]
  split
  · rename_i heq
    rw [heq]
    exact h
  · exact le_rfl

theorem touch_forgets (session : String) : Forgets (touch env session) := by
  refine Forgets.bind (memory_forgets (fun _ => rfl) (fun _ _ _ => id) fun g other => ?_) fun _ =>
    (Forgets.read _).bind fun m => writeMeta_forgets env session m
  exact setMeta_numbered (g := g) (m := { g.metaOf session with lastUsed := g.tick + 1 }) le_rfl other

/-- The steps that are listed stay listed, even when the metadata is not written. -/
theorem touch_manifests (session : String) :
    Prog.Moves (fun w w' => w'.inner.manifests = w.inner.manifests) (touch env session) :=
  Prog.Moves.bind (fun _ _ _ h h' => h'.trans h) (fun _ => rfl) fun _ =>
    Prog.Moves.bind (fun _ _ _ h h' => h'.trans h) (fun _ => rfl) fun m =>
      Prog.Moves.mono (writeMeta_sameMemory env session m) fun _ _ h => congrArg Inner.manifests h

/-! ## Making room -/

theorem removeBlobs_forgets (dead : List String) : Forgets (removeBlobs env dead) := by
  induction dead with
  | nil => exact .pure _
  | cons hex dead ih =>
      refine (removeFile_forgets env _ _ _).bind fun _ => Forgets.bind ?_ fun _ => ih
      exact memory_forgets (fun _ => rfl) (fun _ _ _ => id) fun _ _ => le_rfl

theorem gc_forgets : Forgets (gc env) := (Forgets.read _).bind fun _ => removeBlobs_forgets env _

theorem lookup_of_erase {γ δ : Type} [DecidableEq γ] {s : AList fun _ : γ => δ} {key key' : γ} {m : δ}
    (h : (s.erase key').lookup key = some m) : s.lookup key = some m := by
  by_cases hkey : key = key'
  · subst hkey
    rw [AList.lookup_erase] at h
    cases h
  · rwa [AList.lookup_erase_ne hkey] at h

theorem evict_forgets (key : String × ℕ) : Forgets (evict env key) := by
  refine (removeFile_forgets env _ _ _).bind fun _ => Forgets.bind ?_ fun _ =>
    (Forgets.read _).bind fun _ => (writeMeta_forgets env _ _).bind fun _ => gc_forgets env
  refine memory_forgets (fun _ => rfl) (fun _ _ _ hm => lookup_of_erase hm) fun g session => ?_
  exact setMeta_numbered (g := { g with manifests := g.manifests.erase key })
    (m := { g.metaOf key.1 with prunedThrough := max (g.metaOf key.1).prunedThrough key.2 }) le_rfl session

theorem pruneLoop_forgets (needed rounds : ℕ) : Forgets (pruneLoop env needed rounds) := by
  induction rounds with
  | zero => exact .throw _
  | succ rounds ih =>
      refine (Forgets.read _).bind fun g => ?_
      split
      · exact .pure _
      · split
        · exact .throw _
        · exact (evict_forgets env _).bind fun _ => ih

theorem pruneToFit_forgets (needed : ℕ) : Forgets (pruneToFit env needed) :=
  (Forgets.read _).bind fun rounds => pruneLoop_forgets env needed rounds

/-! ## Snapshots -/

theorem stage_forgets (abs rel : List String) : Forgets (stage env abs rel) := by
  refine (call_forgets env _).bind fun _ => (call_forgets env _).bind fun _ =>
    (Prog.Moves.mapError (lstat_forgets env _)).bind Kept.trans fun node =>
      (call_forgets env _).bind fun _ => (call_forgets env _).bind fun _ => ?_
  split
  · exact .throw _
  · exact .pure _

theorem captureLink_forgets (p : Plan) (target : String) (utf8 : Bool) : Forgets (captureLink env p target utf8) := by
  unfold captureLink
  split
  · exact .throw _
  · refine (call_forgets env _).bind fun _ => ?_
    split
    · exact .pure _
    · exact .throw _

theorem captureFile_forgets (p : Plan) (size mode : ℕ) : Forgets (captureFile env p size mode) := by
  unfold captureFile
  split
  · exact .throw _
  · exact (stage_forgets env _ _).bind fun _ => .pure _

theorem capture_forgets (p : Plan) : Forgets (capture env p) := by
  refine Forgets.bind (Prog.Moves.attempt (lstat_forgets env _)) fun found => ?_
  split
  · split
    · exact .throw _
    · exact .pure _
  · exact .throw _
  · exact captureLink_forgets env _ _ _
  · exact .throw _
  · exact .throw _
  · exact captureFile_forgets env _ _ _

theorem captureAll_forgets (plans : List Plan) (entries : List Entry) (staged : List Staged) :
    Forgets (captureAll env plans entries staged) := by
  induction plans generalizing entries staged with
  | nil => exact .pure _
  | cons p plans ih => exact (capture_forgets env p).bind fun _ => ih _ _

theorem installBlob_forgets (s : Staged) : Forgets (installBlob env s) := by
  refine (Forgets.read _).bind fun there => ?_
  split
  · exact .pure _
  · exact (call_forgets env _).bind fun _ => (change_forgets env _ _).bind fun _ => call_forgets env _

theorem installAll_forgets (staged : List Staged) : Forgets (installAll env staged) := by
  induction staged with
  | nil => exact .pure _
  | cons s staged ih =>
      refine (installBlob_forgets env s).bind fun _ => Forgets.bind ?_ fun _ => ih
      exact memory_forgets (fun _ => rfl) (fun _ _ _ => id) fun _ _ => le_rfl

/-! ## Paths -/

theorem canonicalRoot_forgets (shown : String) (rooted : Bool) (comps : List (FileTree.Comp String)) :
    Forgets (canonicalRoot env shown rooted comps) := by
  refine (Prog.Moves.mapError (look_forgets env _)).bind Kept.trans fun loc =>
    Forgets.bind (Prog.Moves.attempt (lstat_forgets env _)) fun found => ?_
  split
  · exact .pure _
  · exact .throw _

theorem walkParents_forgets (p : String) (root seen rest : List String) :
    Forgets (walkParents env p root seen rest) := by
  induction rest generalizing seen with
  | nil => exact .pure _
  | cons part rest ih =>
      refine Forgets.bind (Prog.Moves.attempt (lstat_forgets env _)) fun found => ?_
      split
      · exact .throw _
      · exact ih _
      · exact .throw _
      · exact .pure _
      · exact .throw _

theorem resolvePath_forgets (rootCanon : List String) (root p : String) :
    Forgets (resolvePath env rootCanon root p) :=
  (Forgets.ofExcept _).bind fun _ => (Forgets.ofExcept _).bind fun _ => (Forgets.ofExcept _).bind fun _ =>
    (walkParents_forgets env _ _ _ _).bind fun _ => .pure _

theorem planOne_forgets (rootCanon : List String) (root : String) (done : List Plan) (c : Change) :
    Forgets (planOne env rootCanon root done c) := by
  cases c with
  | write path sha256 => exact (resolvePath_forgets env _ _ _).bind fun _ => .pure _
  | delete path => exact (resolvePath_forgets env _ _ _).bind fun _ => .pure _
  | rename source target =>
      exact (resolvePath_forgets env _ _ _).bind fun _ => (resolvePath_forgets env _ _ _).bind fun _ => .pure _

theorem planAll_forgets (rootCanon : List String) (root : String) (changes : List Change) (done : List Plan) :
    Forgets (planAll env rootCanon root changes done) := by
  induction changes generalizing done with
  | nil => exact .pure _
  | cons c changes ih => exact (planOne_forgets env _ _ _ _).bind fun _ => ih _

/-! ## Recording a step -/

theorem prepare_forgets (root : String) (changes : List Change) : Forgets (prepare env root changes) :=
  (canonicalRoot_forgets env _ _ _).bind fun _ => (planAll_forgets env _ _ _ _).bind fun _ =>
    (Forgets.ofExcept _).bind fun _ => (Forgets.read _).bind fun _ => (Forgets.ofExcept _).bind fun _ =>
      (captureAll_forgets env _ _ _).bind fun _ => (Forgets.read _).bind fun _ => (Forgets.ofExcept _).bind fun _ =>
        (pruneToFit_forgets env _).bind fun _ => (installAll_forgets env _).bind fun _ => .pure _

/-- A step's number is the next of its session. -/
structure Numbered (session : String) (w : World) (m : Manifest) (w' : World) : Prop where
  kept : Kept w w'
  own : m.session = session
  status : m.status = .prepared
  last : m.seq ≤ (w'.inner.metaOf session).lastSeq
  fresh : (w.inner.metaOf session).lastSeq < m.seq

theorem number_ok {session : String} {a : Admitted} {m : Manifest} {w w' : World}
    (h : number session a w = (.ok m, w')) : Numbered session w m w' := by
  obtain ⟨_, t, hmemory, h⟩ := Prog.bind_ok h
  obtain ⟨g, u, hread, h⟩ := Prog.bind_ok h
  cases hmemory
  cases hread
  cases h
  have hmeta : ((w.inner.allocate session).metaOf session).lastSeq = (w.inner.metaOf session).lastSeq + 1 := by
    unfold Inner.allocate
    rw [metaOf_setMeta, if_pos rfl]
  refine ⟨⟨rfl, fun _ _ => id, ?_⟩, rfl, rfl, le_rfl, ?_⟩
  · intro other
    exact setMeta_numbered (m := { w.inner.metaOf session with lastSeq := (w.inner.metaOf session).lastSeq + 1 })
      (Nat.le_succ _) other
  · show _ < ((w.inner.allocate session).metaOf session).lastSeq
    rw [hmeta]
    exact Nat.lt_succ_self _

theorem number_forgets (session : String) (a : Admitted) : Forgets (number session a) := by
  intro w
  rcases hrun : number session a w with ⟨r, w'⟩
  cases r with
  | ok m => exact (number_ok hrun).kept
  | error e => cases hrun

/-- What is recorded in the end: the step is listed and its paths are busy. -/
structure Recorded (session : String) (w : World) (plans : List Plan) (m : Manifest) (w' : World) : Prop where
  status : m.status = .prepared
  last : m.seq ≤ (w'.inner.metaOf session).lastSeq
  fresh : (w.inner.metaOf session).lastSeq < m.seq
  busy : w'.inner.busy = w.inner.busy ∪ (plans.map fun p => p.res.abs).toFinset
  name : m.session = session
  own : w'.inner.manifests.lookup (session, m.seq) = some m
  others : ∀ key, key ≠ (session, m.seq) → ∀ m', w'.inner.manifests.lookup key = some m' →
    w.inner.manifests.lookup key = some m'
  numbered : ∀ other, (w.inner.metaOf other).lastSeq ≤ (w'.inner.metaOf other).lastSeq

/-- **Recording.** A step is recorded in one go, or everything is only forgotten. -/
theorem recordStep_cases (session root : String) (changes : List Change) (w : World) :
    (∃ e w', recordStep env session root changes w = (.error e, w') ∧ Kept w w') ∨
      ∃ step w' plans m, recordStep env session root changes w = (.ok step, w') ∧
        step = { session, seq := m.seq } ∧ Recorded session w plans m w' := by
  rcases hrun : recordStep env session root changes w with ⟨r, w'⟩
  cases r with
  | error e =>
      refine .inl ⟨e, w', rfl, ?_⟩
      rcases Prog.bind_error hrun with hprep | ⟨a, t, hprep, hrun⟩
      · have hkept := prepare_forgets env root changes w
        rwa [hprep] at hkept
      · have hadmitted := prepare_forgets env root changes w
        rw [hprep] at hadmitted
        refine hadmitted.trans _ _ _ ?_
        rcases Prog.bind_error hrun with hnumber | ⟨m, u, hnumber, hrun⟩
        · have hkept := number_forgets session a t
          rwa [hnumber] at hkept
        · refine (number_ok hnumber).kept.trans _ _ _ ?_
          rcases Prog.bind_error hrun with hwrite | ⟨_, v, -, hrun⟩
          · have hkept := writeManifest_forgets env m u
            rwa [hwrite] at hkept
          · cases hrun
  | ok step =>
      obtain ⟨a, t, hprep, hrun⟩ := Prog.bind_ok hrun
      obtain ⟨m, u, hnumber, hrun⟩ := Prog.bind_ok hrun
      obtain ⟨_, v, hwrite, hrun⟩ := Prog.bind_ok hrun
      have hadmitted := prepare_forgets env root changes w
      rw [hprep] at hadmitted
      have hwritten := writeManifest_forgets env m u
      rw [hwrite] at hwritten
      have hnumbered := number_ok hnumber
      have hbefore : Kept w v := hadmitted.trans _ _ _ (hnumbered.kept.trans _ _ _ hwritten)
      cases hrun
      refine .inr ⟨_, _, a.plans, m, rfl, rfl, ?_⟩
      have hname := hnumbered.own
      refine ⟨hnumbered.status, hnumbered.last.trans (hwritten.numbered session),
        lt_of_le_of_lt (hadmitted.numbered session) hnumbered.fresh, ?_, hname, ?_, ?_, hbefore.numbered⟩
      · show v.inner.busy ∪ _ = _
        rw [hbefore.busy]
      · show (v.inner.manifests.insert (m.session, m.seq) m).lookup (session, m.seq) = some m
        rw [hname, AList.lookup_insert]
      · intro key hkey m' hm'
        have hne : key ≠ (m.session, m.seq) := by
          rw [hname]
          exact hkey
        apply hbefore.listed
        rw [← hm']
        exact (AList.lookup_insert_ne hne).symm

end

end AgentRuntime.Checkpoints
