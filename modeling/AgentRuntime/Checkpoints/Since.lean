import AgentRuntime.Checkpoints.Restored
import AgentRuntime.Checkpoints.Refused

/-!
# `Checkpoints.Since` — the steps of an open store (`agent-checkpoints/src/store.rs`)

However an open store is used, a step that it listed is forgotten or listed as the same step (`Since`): ending it and
undoing it change its status only, and no other step gets its number.
-/

namespace AgentRuntime.Checkpoints

/-! ## The same step -/

def Manifest.key (m : Manifest) : String × ℕ := (m.session, m.seq)

/-- The same step, at another time: only its status and what its paths were left with may differ. -/
structure SameStep (m m' : Manifest) : Prop where
  key : m'.key = m.key
  root : m'.root = m.root
  entries : m'.entries.map (fun e => (e.path, e.before)) = m.entries.map fun e => (e.path, e.before)
  dirs : m'.createdDirs = m.createdDirs

section

variable {m m' m'' : Manifest}

theorem SameStep.refl (m : Manifest) : SameStep m m := ⟨rfl, rfl, rfl, rfl⟩

theorem SameStep.trans (h : SameStep m m') (h' : SameStep m' m'') : SameStep m m'' :=
  ⟨h'.key.trans h.key, h'.root.trans h.root, h'.entries.trans h.entries, h'.dirs.trans h.dirs⟩

theorem SameStep.symm (h : SameStep m m') : SameStep m' m := ⟨h.key.symm, h.root.symm, h.entries.symm, h.dirs.symm⟩

/-- Each entry has its counterpart. -/
theorem SameStep.entry (h : SameStep m m') {e : Entry} (he : e ∈ m'.entries) :
    ∃ e₀ ∈ m.entries, e₀.path = e.path ∧ e₀.before = e.before := by
  have hmem : (e.path, e.before) ∈ m.entries.map fun e => (e.path, e.before) := by
    rw [← h.entries]
    exact List.mem_map_of_mem he
  obtain ⟨e₀, he₀, heq⟩ := List.mem_map.mp hmem
  exact ⟨e₀, he₀, congrArg Prod.fst heq, congrArg Prod.snd heq⟩

theorem SameStep.paths (h : SameStep m m') : m'.entries.map Entry.path = m.entries.map Entry.path := by
  have := congrArg (List.map Prod.fst) h.entries
  simpa [List.map_map, Function.comp_def] using this

theorem SameStep.sound (h : SameStep m m') (hsound : Sound m.entries m.createdDirs) : Sound m'.entries m'.createdDirs := by
  refine ⟨?_, ?_, ?_, ?_⟩
  · intro e he
    obtain ⟨e₀, he₀, hpath, -⟩ := h.entry he
    rw [← hpath]
    exact hsound.nonempty e₀ he₀
  · rw [h.paths]
    exact hsound.distinct
  · intro e he e' he' hpre hne
    obtain ⟨e₀, he₀, hpath, hbefore⟩ := h.entry he
    obtain ⟨e₀', he₀', hpath', hbefore'⟩ := h.entry he'
    rw [← hpath, ← hpath'] at hpre hne
    rw [← hbefore, ← hbefore']
    exact hsound.apart e₀ he₀ e₀' he₀' hpre hne
  · intro d hd
    rw [h.dirs] at hd
    obtain ⟨hne, e₀, he₀, hpre⟩ := hsound.dirs d hd
    obtain ⟨e, he, hpath, -⟩ := h.symm.entry he₀
    exact ⟨hne, e, he, by rwa [hpath]⟩

end

/-! ## What becomes of a listed step -/

/-- What is listed under a number that was given out before is the step that was listed before. -/
structure Since (w w' : World) : Prop where
  listed : ∀ key m', w'.inner.manifests.lookup key = some m' → key.2 ≤ (w.inner.metaOf key.1).lastSeq →
    ∃ m, w.inner.manifests.lookup key = some m ∧ SameStep m m'
  numbered : ∀ session, (w.inner.metaOf session).lastSeq ≤ (w'.inner.metaOf session).lastSeq

theorem Since.of_kept {w w' : World} (h : Kept w w') : Since w w' :=
  ⟨fun key m' hm' _ => ⟨m', h.listed key m' hm', .refl m'⟩, h.numbered⟩

theorem Since.refl (w : World) : Since w w := .of_kept (.refl w)

theorem Since.trans {w w' w'' : World} (h : Since w w') (h' : Since w' w'') : Since w w'' := by
  refine ⟨fun key m'' hm'' hle => ?_, fun session => (h.numbered session).trans (h'.numbered session)⟩
  obtain ⟨m', hm', hsame'⟩ := h'.listed key m'' hm'' (hle.trans (h.numbered key.1))
  obtain ⟨m, hm, hsame⟩ := h.listed key m' hm' hle
  exact ⟨m, hm, hsame.trans hsame'⟩

section

variable (env : Env) {w₀ : World}

/-- A program that keeps what is said of the listed steps. -/
abbrev KeepsSince (w₀ : World) {α : Type} (x : Prog World Error α) : Prop :=
  Prog.Triple (Since w₀) x (fun _ => Since w₀) fun _ => Since w₀

theorem Forgets.since {α : Type} {x : Prog World Error α} (h : Forgets x) : KeepsSince w₀ x :=
  Prog.Moves.triple h fun _ _ hsince hkept => hsince.trans (.of_kept hkept)

theorem memory_since {f : Inner → Inner}
    (h : ∀ w, Since w₀ w → Since w₀ { w with inner := f w.inner }) : KeepsSince w₀ (memory f) := by
  refine Prog.Triple.act ?_ ?_
  · intro w u w' hw hrun
    cases hrun
    exact h w hw
  · intro w e w' hw hrun
    cases hrun

/-- A step that is listed again, as the same step. -/
theorem relist_since {key : String × ℕ} {m₀ m : Manifest} (hm₀ : w₀.inner.manifests.lookup key = some m₀)
    (hsame : SameStep m₀ m) :
    KeepsSince w₀ (memory fun g => { g with manifests := g.manifests.insert key m }) := by
  refine memory_since fun w hw => ⟨fun key' m' hm' hle => ?_, hw.numbered⟩
  by_cases heq : key' = key
  · subst heq
    rw [AList.lookup_insert] at hm'
    cases hm'
    exact ⟨m₀, hm₀, hsame⟩
  · rw [AList.lookup_insert_ne heq] at hm'
    exact hw.listed key' m' hm' hle

/-! ## Beginning and ending a step -/

theorem beginStep_since (session root : String) (changes : List Change) (w : World) :
    Since w (beginStep env session root changes w).2 := by
  rcases recordStep_cases env session root changes w with ⟨e, w', hrun, hkept⟩ | ⟨step, w', plans, m, hrun, -, hrec⟩
  · unfold beginStep
    rw [Prog.run_bind_error hrun]
    exact .of_kept hkept
  · unfold beginStep
    rw [Prog.run_bind_ok hrun]
    have hrest : Forgets (touch env session >>= fun _ => (pure step : Prog World Error Step)) :=
      (touch_forgets env session).bind fun _ => .pure _
    refine Since.trans ⟨fun key m' hm' hle => ?_, hrec.numbered⟩ (.of_kept (hrest w'))
    by_cases heq : key = (session, m.seq)
    · -- the number of the new step was not given out before
      subst heq
      exact absurd hle (Nat.not_le.mpr hrec.fresh)
    · exact ⟨m', hrec.others key heq m' hm', .refl m'⟩

theorem fingerprintAll_same {root : List String} {entries entries' : List Entry} {w w' : World}
    (h : fingerprintAll env root entries w = (.ok entries', w')) :
    entries'.map (fun e => (e.path, e.before)) = entries.map fun e => (e.path, e.before) := by
  induction entries generalizing entries' w with
  | nil =>
      cases h
      rfl
  | cons e entries ih =>
      obtain ⟨now, t, -, h⟩ := Prog.bind_ok h
      obtain ⟨rest, u, hrest, h⟩ := Prog.bind_ok h
      cases h
      simp [ih hrest]

theorem writeEnded_same {m m' : Manifest} {commit : Bool} {w w' : World}
    (h : writeEnded env m commit w = (.ok m', w')) : SameStep m m' := by
  obtain ⟨last, t, hended, h⟩ := Prog.bind_ok h
  obtain ⟨_, u, -, h⟩ := Prog.bind_ok h
  cases h
  unfold ended at hended
  split at hended
  · obtain ⟨entries, v, hentries, hended⟩ := Prog.bind_ok hended
    cases hended
    exact ⟨rfl, rfl, fingerprintAll_same env hentries, rfl⟩
  · cases hended
    exact ⟨rfl, rfl, rfl, rfl⟩

theorem endPrepared_since {key : String × ℕ} {m : Manifest} (commit : Bool)
    (hm : w₀.inner.manifests.lookup key = some m) : KeepsSince w₀ (endPrepared env key m commit) := by
  refine Prog.Triple.bind (Q := fun res w => (∀ m', res = .ok m' → SameStep m m') ∧ Since w₀ w) ?_ fun res =>
    Prog.Triple.pre fun hres => ?_
  · refine Prog.Triple.attempt fun w hw => ?_
    have hkept : Since w₀ (writeEnded env m commit w).2 := hw.trans (.of_kept (writeEnded_forgets env m commit w))
    refine ⟨fun m' hm' => ⟨?_, hkept⟩, fun e _ => ⟨by simp, hkept⟩⟩
    rintro _ ⟨⟩
    have hrun : writeEnded env m commit w = (.ok m', (writeEnded env m commit w).2) := Prod.ext hm' rfl
    exact writeEnded_same env hrun
  · have hrelease : KeepsSince w₀ (memory (Inner.release m)) := memory_since fun w hw => ⟨hw.listed, hw.numbered⟩
    refine hrelease.bind fun _ => ?_
    refine Prog.Triple.bind (Q := fun m' w => SameStep m m' ∧ Since w₀ w) ?_ fun m' => Prog.Triple.pre fun hsame => ?_
    · exact Prog.Triple.ofExcept (fun m' w h hw => ⟨hres m' h, hw⟩) fun _ _ _ hw => hw
    · exact (relist_since hm hsame).bind fun _ => (touch_forgets env key.1).since.bind fun _ => (Forgets.pure _).since

theorem finish_since (session : String) (seq : ℕ) (commit : Bool) (w : World) :
    Since w (finish env session seq commit w).2 := by
  cases hfound : w.inner.manifests.lookup (session, seq) with
  | none =>
      have hread : Prog.read (fun w => w.inner.manifests.lookup (session, seq)) w = ((.ok none : Except Error _), w) := by
        rw [← hfound]
        rfl
      have hrun : finish env session seq commit w = (.error (.notFound session seq), w) := Prog.run_bind_ok hread
      rw [hrun]
      exact .refl w
  | some m =>
      have hread : Prog.read (fun w => w.inner.manifests.lookup (session, seq)) w =
          ((.ok (some m) : Except Error _), w) := by
        rw [← hfound]
        rfl
      have hrun : finish env session seq commit w =
          (if m.status = .prepared then endPrepared env (session, seq) m commit else pure m.summary) w :=
        Prog.run_bind_ok hread
      rw [hrun]
      split
      · exact triple_state (endPrepared_since env commit hfound) (.refl w)
      · exact .refl w

/-! ## Undo -/

theorem undoEach_since {session : String} {steps : List Manifest}
    (hsteps : ∀ m ∈ steps, w₀.inner.manifests.lookup (session, m.seq) = some m) :
    KeepsSince w₀ (undoEach env session steps) := by
  induction steps with
  | nil => exact (Forgets.pure _).since
  | cons m steps ih =>
      refine Prog.Triple.bind (Q := fun _ => Since w₀) ?_ fun _ => ih fun m' hm' => hsteps m' (List.mem_cons_of_mem m hm')
      exact (restoreEntries_forgets env _ _).since.bind fun _ => (removeDirs_forgets env _ _).since.bind fun _ =>
        (writeManifest_forgets env _).since.bind fun _ =>
          relist_since (hsteps m List.mem_cons_self) ⟨rfl, rfl, rfl, rfl⟩

theorem undoMany_since {session : String} {steps : List Manifest} {w : World}
    (hsteps : ∀ m ∈ steps, w.inner.manifests.lookup (session, m.seq) = some m) :
    Since w (undoMany env session steps w).2 := by
  have hrun : KeepsSince w (undoMany env session steps) :=
    (Forgets.read _).since.bind fun _ => (Forgets.ofExcept _).since.bind fun _ =>
      (recheck_forgets env _).since.bind fun _ => (preflight_forgets env _ _).since.bind fun _ =>
        (Forgets.ofExcept _).since.bind fun _ => (verifyAll_forgets env _).since.bind fun _ =>
          (undoEach_since env hsteps).bind fun _ => (touch_forgets env _).since.bind fun _ => (Forgets.pure _).since
  exact triple_state hrun (.refl w)

theorem undoStep_since (session : String) (seq : ℕ) {w : World} (h : Ordered w) :
    Since w (undoStep env session seq w).2 := by
  show Since w (undoStepIn env w.inner session seq w).2
  unfold undoStepIn
  cases hfound : w.inner.manifests.lookup (session, seq) with
  | none => exact .refl w
  | some m =>
      have hstep : ∀ m' ∈ [m], w.inner.manifests.lookup (session, m'.seq) = some m' := by
        intro m' hm'
        rw [List.mem_singleton.mp hm', (Prod.mk.inj (h.named _ m hfound)).2]
        exact hfound
      cases hstatus : m.status with
      | undone =>
          simp only [hstatus]
          exact .refl w
      | prepared =>
          simp only [hstatus]
          exact .refl w
      | committed =>
          simp only [hstatus]
          exact undoMany_since env hstep
      | interrupted =>
          simp only [hstatus]
          exact undoMany_since env hstep

theorem undoSession_since (session : String) {w : World} (h : Ordered w) : Since w (undoSession env session w).2 := by
  show Since w (undoSessionIn env w.inner session w).2
  unfold undoSessionIn
  cases (w.inner.toUndo session).find? fun m => decide (m.status = .prepared) with
  | some m => exact .refl w
  | none =>
      by_cases hnil : w.inner.toUndo session = []
      · simp only [hnil, if_true]
        exact .refl w
      · simp only [hnil, if_false]
        have hsteps : ∀ m ∈ w.inner.toUndo session, w.inner.manifests.lookup (session, m.seq) = some m := by
          intro m hm
          obtain ⟨seq, hfound⟩ := mem_toUndo hm
          rw [(Prod.mk.inj (h.named _ m hfound)).2]
          exact hfound
        have hundone := undoMany_since env hsteps
        rcases hmany : undoMany env session (w.inner.toUndo session) w with ⟨r, w'⟩
        rw [hmany] at hundone
        cases r with
        | ok report =>
            rw [Prog.run_bind_ok hmany]
            exact hundone
        | error e =>
            rw [Prog.run_bind_error hmany]
            exact hundone

end

/-! ## The store is used -/

/-- An open store is used in any way, with any failures, and meanwhile the member's folder changes as it likes. -/
inductive Used (env : Env) (w : World) : World → Prop where
  | refl : Used env w w
  | begun {w' : World} (h : Used env w w') (fault : ℕ → Option IoError) (session root : String) (changes : List Change) :
      Used env w (beginStep (env.failing fault) session root changes w').2
  | finished {w' : World} (h : Used env w w') (fault : ℕ → Option IoError) (session : String) (seq : ℕ) (commit : Bool) :
      Used env w (finish (env.failing fault) session seq commit w').2
  | undone {w' : World} (h : Used env w w') (fault : ℕ → Option IoError) (session : String) (seq : ℕ) :
      Used env w (undoStep (env.failing fault) session seq w').2
  | allUndone {w' : World} (h : Used env w w') (fault : ℕ → Option IoError) (session : String) :
      Used env w (undoSession (env.failing fault) session w').2
  | edited {w' : World} (h : Used env w w') (files : Files) : Used env w { w' with files }

theorem Used.reachable {env : Env} {w w' : World} (h : Used env w w') (hw : Reachable env w) : Reachable env w' := by
  induction h with
  | refl => exact hw
  | begun _ fault session root changes ih => exact .begun ih fault session root changes
  | finished _ fault session seq commit ih => exact .finished ih fault session seq commit
  | undone _ fault session seq ih => exact .undone ih fault session seq
  | allUndone _ fault session ih => exact .allUndone ih fault session
  | edited _ files ih => exact .edited ih files

/-- **The run.** A listed step is forgotten, or is listed as the same step. -/
theorem Used.since {env : Env} {w w' : World} (h : Used env w w') (hw : Reachable env w) : Since w w' := by
  induction h with
  | refl => exact .refl w
  | begun _ fault session root changes ih => exact ih.trans (beginStep_since _ session root changes _)
  | finished _ fault session seq commit ih => exact ih.trans (finish_since _ session seq commit _)
  | undone hused fault session seq ih => exact ih.trans (undoStep_since _ session seq (hused.reachable hw).ordered)
  | allUndone hused fault session ih => exact ih.trans (undoSession_since _ session (hused.reachable hw).ordered)
  | edited _ files ih => exact ih.trans (.of_kept (.of_inner rfl))

end AgentRuntime.Checkpoints
