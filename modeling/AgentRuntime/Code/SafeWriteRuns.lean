import AgentRuntime.Code.SafeWrite

/-!
# `Code.SafeWriteRuns` — what a confined open touches

The specification of each step says what it appends to the log. An open that succeeds has come down from the root
through folders only, and has changed no other file; one that is refused has truncated nothing, and has removed what
stood under the name of the leaf it had created (`openConfined_runs`). That is the created file unless another process
has put something else there.
-/

namespace AgentRuntime.Code

open Dentries FileTree

/-! ## Readings of the log -/

def createdOf (log : List Event) : List ℕ := log.filterMap fun
  | .created ino => some ino
  | _ => none

def truncatedOf (log : List Event) : List ℕ := log.filterMap fun
  | .truncated ino => some ino
  | _ => none

def removedOf (log : List Event) : List (Obj String) := log.filterMap fun
  | .removed obj => some obj
  | _ => none

/-- The names opened, each with its folder and what it stood for. -/
def trail (log : List Event) : List (ℕ × String × Obj String) := log.filterMap fun
  | .found d name obj => some (d, name, obj)
  | _ => none

section

variable (l m : List Event)

theorem createdOf_append : createdOf (l ++ m) = createdOf l ++ createdOf m := List.filterMap_append

theorem truncatedOf_append : truncatedOf (l ++ m) = truncatedOf l ++ truncatedOf m := List.filterMap_append

theorem removedOf_append : removedOf (l ++ m) = removedOf l ++ removedOf m := List.filterMap_append

theorem trail_append : trail (l ++ m) = trail l ++ trail m := List.filterMap_append

end

/-- From this folder the trail goes through the names, through folders and no link, to this object. -/
inductive Down (obj : Obj String) : ℕ → List (ℕ × String × Obj String) → List String → Prop where
  | leaf {d : ℕ} {name : String} : Down obj d [(d, name, obj)] [name]
  | into {d d' : ℕ} {name : String} {names : List String} {rest : List (ℕ × String × Obj String)}
      (h : Down obj d' rest names) : Down obj d ((d, name, .folder d') :: rest) (name :: names)

/-! ## The property -/

/-- The file was reached below the root without a link; it had one name, and its location was inside the root. -/
structure Reached (log : List Event) (fd : Fd) : Prop where
  down : ∃ wp d, .resolved wp ∈ log ∧ .root d ∈ log ∧ Down fd.obj d (trail log) wp.rel
  oneLink : ∃ fs ino, .stat fs fd ∈ log ∧ fd.obj = .file ino ∧ fs.links ino = 1
  inside : ∃ wp fs p, .resolved wp ∈ log ∧ .located fs fd ∈ log ∧ wp.root <+: p ∧ fs.At p fd.entry

/-- The call touches only its target. -/
def TargetOnly (log : List Event) : Except AgentError Fd → Prop
  | .ok fd => Reached log fd ∧ (∀ ino ∈ createdOf log ++ truncatedOf log, fd.obj = .file ino) ∧ removedOf log = []
  | .error _ => truncatedOf log = [] ∧ ∀ obj ∈ removedOf log, ∃ ino ∈ createdOf log, obj = .file ino

/-- Before each clean-up the name stands for the file that the call created, or for nothing that is removed. -/
def NameKept (log : List Event) : Prop :=
  ∀ fs d name, .cleaning fs d name ∈ log → ∀ obj, removable (fs.at? d name) = some obj →
    ∃ ino ∈ createdOf log, obj = .file ino

/-- The opened file is in the tree when its location is looked at. -/
def StillThere (log : List Event) : Prop := ∀ fs fd, .located fs fd ∈ log → fs.inTree fd.entry = true

/-! ## The steps -/

variable {env : Env} {l : List Event} {d : ℕ} {name leaf : String} {create created : Bool} {fd : Fd}

/-- The log is this one. -/
def LogIs (l : List Event) (w : World) : Prop := w.log = l

section

variable {α : Type} {Q : α → World → Prop} {E : Errno → World → Prop}

theorem sys_triple {f : Fs → Except Errno α × Fs × List Event}
    (hok : ∀ fs a w, (f fs).1 = .ok a → LogIs (l ++ (f fs).2.2) w → Q a w)
    (hfail : ∀ fs e w, (f fs).1 = .error e → LogIs (l ++ (f fs).2.2) w → E e w)
    (hfault : ∀ e w, LogIs l w → E e w) : Prog.Triple (LogIs l) (sys env f) Q E := by
  intro w hw
  have hlog : w.log = l := hw
  unfold sys Prog.act
  simp only
  cases env.fault w.clock with
  | some e =>
      refine ⟨fun a ha => (nomatch ha), ?_⟩
      rintro e' ⟨⟩
      exact hfault _ _ hw
  | none =>
      refine ⟨fun a ha => hok _ a _ ha ?_, fun e he => hfail _ e _ he ?_⟩
      · simp [LogIs, hlog]
      · simp [LogIs, hlog]

theorem ask_triple {f : Fs → Except Errno (α × Event)}
    (hok : ∀ fs a ev w, f fs = .ok (a, ev) → LogIs (l ++ [ev]) w → Q a w) (herr : ∀ e w, LogIs l w → E e w) :
    Prog.Triple (LogIs l) (ask env f) Q E := by
  refine sys_triple ?_ ?_ herr
  · intro fs a w ha hw
    cases hf : f fs with
    | error e =>
        rw [hf] at ha
        cases ha
    | ok r =>
        rw [hf] at ha hw
        cases ha
        exact hok fs _ _ w hf hw
  · intro fs e w he hw
    cases hf : f fs with
    | error e' =>
        rw [hf] at hw
        exact herr _ w (by simpa using hw)
    | ok r =>
        rw [hf] at he
        cases he

theorem change_triple {f : Fs → Except Errno (α × Fs × List Event)}
    (hok : ∀ fs a fs' evs w, f fs = .ok (a, fs', evs) → LogIs (l ++ evs) w → Q a w)
    (herr : ∀ e w, LogIs l w → E e w) : Prog.Triple (LogIs l) (change env f) Q E := by
  refine sys_triple ?_ ?_ herr
  · intro fs a w ha hw
    cases hf : f fs with
    | error e =>
        rw [hf] at ha
        cases ha
    | ok r =>
        rw [hf] at ha hw
        cases ha
        exact hok fs _ _ _ w hf hw
  · intro fs e w he hw
    cases hf : f fs with
    | error e' =>
        rw [hf] at hw
        exact herr _ w (by simpa using hw)
    | ok r =>
        rw [hf] at he
        cases he

end

theorem openFolder_triple {E : Errno → World → Prop} (herr : ∀ e w, LogIs l w → E e w) :
    Prog.Triple (LogIs l) (openFolder env d name) (fun d' => LogIs (l ++ [.found d name (.folder d')])) E := by
  refine ask_triple ?_ herr
  intro fs a ev w hf hw
  split at hf
  · cases hf
  · cases hf
    exact hw
  · cases hf

/-- Events that make folders. -/
def MadeFolders (evs : List Event) : Prop := ∀ ev ∈ evs, ∃ d, ev = .madeFolder d

/-- What going down through the folders appends. -/
inductive Descends : ℕ → List String → ℕ → List Event → Prop where
  | here {d : ℕ} : Descends d [] d []
  | into {d d' d'' : ℕ} {name : String} {names : List String} {made evs : List Event} (hmade : MadeFolders made)
      (h : Descends d' names d'' evs) :
      Descends d (name :: names) d'' (made ++ .found d name (.folder d') :: evs)

theorem mkdirat_triple {E : Errno → World → Prop} (herr : ∀ e w, LogIs l w → E e w) :
    Prog.Triple (LogIs l) (mkdirat env d name) (fun _ w => ∃ made, MadeFolders made ∧ LogIs (l ++ made) w) E := by
  refine change_triple ?_ herr
  intro fs a fs' evs w hf hw
  split at hf
  · cases hf
  · split at hf
    · cases hf
      exact ⟨_, by simp [MadeFolders], hw⟩
    · cases hf

/-- Events that tell of no file made, truncated or removed. -/
structure Harmless (evs : List Event) : Prop where
  created : createdOf evs = []
  truncated : truncatedOf evs = []
  removed : removedOf evs = []
  cleaning : ∀ fs d name, .cleaning fs d name ∉ evs

theorem Harmless.nil : Harmless [] := ⟨rfl, rfl, rfl, fun _ _ _ => List.not_mem_nil⟩

theorem Harmless.append {evs evs' : List Event} (h : Harmless evs) (h' : Harmless evs') : Harmless (evs ++ evs') := by
  refine ⟨?_, ?_, ?_, ?_⟩
  · rw [createdOf_append, h.created, h'.created]
    rfl
  · rw [truncatedOf_append, h.truncated, h'.truncated]
    rfl
  · rw [removedOf_append, h.removed, h'.removed]
    rfl
  · intro fs d name hmem
    rcases List.mem_append.mp hmem with hmem | hmem
    · exact h.cleaning fs d name hmem
    · exact h'.cleaning fs d name hmem

theorem Harmless.found {d : ℕ} {name : String} {obj : Obj String} : Harmless [.found d name obj] :=
  ⟨rfl, rfl, rfl, by simp⟩

theorem MadeFolders.harmless {made : List Event} (h : MadeFolders made) : Harmless made := by
  refine ⟨?_, ?_, ?_, ?_⟩
  · exact List.filterMap_eq_nil_iff.mpr fun ev hev => by obtain ⟨d, rfl⟩ := h ev hev; rfl
  · exact List.filterMap_eq_nil_iff.mpr fun ev hev => by obtain ⟨d, rfl⟩ := h ev hev; rfl
  · exact List.filterMap_eq_nil_iff.mpr fun ev hev => by obtain ⟨d, rfl⟩ := h ev hev; rfl
  · intro fs d name hmem
    obtain ⟨d', heq⟩ := h _ hmem
    cases heq

theorem MadeFolders.trail {made : List Event} (h : MadeFolders made) : trail made = [] :=
  List.filterMap_eq_nil_iff.mpr fun ev hev => by obtain ⟨d, rfl⟩ := h ev hev; rfl

theorem Descends.harmless {d' : ℕ} {names : List String} {evs : List Event} (h : Descends d names d' evs) :
    Harmless evs := by
  induction h with
  | here => exact Harmless.nil
  | into hmade h ih =>
      rw [← List.singleton_append]
      exact hmade.harmless.append (Harmless.found.append ih)

/-- What a step leaves when it fails before the leaf is opened. -/
def OnTheWay (l : List Event) (w : World) : Prop := ∃ evs, LogIs (l ++ evs) w ∧ Harmless evs

theorem onTheWay_self {w : World} (h : LogIs l w) : OnTheWay l w := ⟨[], by simpa using h, Harmless.nil⟩

theorem OnTheWay.append {evs : List Event} {w : World} (h : OnTheWay (l ++ evs) w) (hevs : Harmless evs) :
    OnTheWay l w := by
  obtain ⟨evs', hw, hevs'⟩ := h
  exact ⟨evs ++ evs', by rwa [← List.append_assoc], hevs.append hevs'⟩

theorem MadeFolders.onTheWay {made : List Event} (h : MadeFolders made) {w : World} (hw : LogIs (l ++ made) w) :
    OnTheWay l w := ⟨made, hw, h.harmless⟩

theorem ensureFolder_triple : Prog.Triple (LogIs l) (ensureFolder env d name)
    (fun _ w => ∃ made, MadeFolders made ∧ LogIs (l ++ made) w) fun _ => OnTheWay l := by
  have hnone {w : World} (hw : LogIs l w) : ∃ made, MadeFolders made ∧ LogIs (l ++ made) w :=
    ⟨[], by simp [MadeFolders], by simpa using hw⟩
  unfold ensureFolder
  refine Prog.Triple.bind (Q := fun r w => match r with
    | .ok _ => ∃ made, MadeFolders made ∧ LogIs (l ++ made) w
    | .error _ => LogIs l w) (Prog.Triple.attempt (mkdirat_triple fun _ _ hw => hw)) fun r => ?_
  match r with
  | .ok () => exact Prog.Triple.pure fun w hw => hw
  | .error .exist => exact Prog.Triple.pure fun w hw => hnone hw
  | .error .noent => exact Prog.Triple.throw fun w hw => onTheWay_self hw
  | .error .loop => exact Prog.Triple.throw fun w hw => onTheWay_self hw
  | .error .mlink => exact Prog.Triple.throw fun w hw => onTheWay_self hw
  | .error .notdir => exact Prog.Triple.throw fun w hw => onTheWay_self hw
  | .error (.other text) => exact Prog.Triple.throw fun w hw => onTheWay_self hw

theorem openDir_triple : Prog.Triple (LogIs l) (openDir env d name create)
    (fun d' w => ∃ made, MadeFolders made ∧ LogIs (l ++ made ++ [.found d name (.folder d')]) w)
    fun _ => OnTheWay l := by
  unfold openDir
  refine Prog.Triple.bind (Q := fun r w =>
    (∀ d', r = .ok d' → LogIs (l ++ [.found d name (.folder d')]) w) ∧ ∀ e, r = .error e → LogIs l w)
    (Prog.Triple.attempt ?_) fun r => ?_
  · refine Prog.Triple.fail (E := fun _ => LogIs l) (Prog.Triple.weaken (openFolder_triple fun _ _ hw => hw)
      (fun _ hw => hw) fun d' w hw => ?_) fun e w hw => ⟨?_, fun _ _ => hw⟩
    · refine ⟨?_, fun e he => by cases he⟩
      rintro d'' ⟨⟩
      exact hw
    · intro d' he
      cases he
  cases r with
  | ok d' => exact Prog.Triple.pure fun w hw => ⟨[], by simp [MadeFolders], by simpa using hw.1 d' rfl⟩
  | error e =>
      refine Prog.Triple.weaken (P := LogIs l) ?_ (fun w hw => hw.2 e rfl) fun _ _ hw => hw
      dsimp only
      split
      · refine ensureFolder_triple.bind fun _ => Prog.Triple.exists_pre fun made => Prog.Triple.pre fun hmade => ?_
        apply Prog.Triple.mapError
        refine (openFolder_triple fun _ w hw => hmade.onTheWay hw).weaken (fun _ hw => hw) ?_
        exact fun d' w hw => ⟨made, hmade, hw⟩
      · exact Prog.Triple.throw fun w hw => onTheWay_self hw

theorem openDirs_triple {names : List String} : Prog.Triple (LogIs l) (openDirs env create d names)
    (fun d' w => ∃ evs, Descends d names d' evs ∧ LogIs (l ++ evs) w) fun _ => OnTheWay l := by
  induction names generalizing d l with
  | nil => exact Prog.Triple.pure fun w hw => ⟨[], .here, by simpa using hw⟩
  | cons name names ih =>
      unfold openDirs
      refine openDir_triple.bind fun d' => Prog.Triple.exists_pre fun made => Prog.Triple.pre fun hmade => ?_
      refine (ih.weaken (fun _ hw => hw) ?_).fail ?_
      · rintro d'' w ⟨evs, hdown, hw⟩
        exact ⟨_, .into hmade hdown, by simpa using hw⟩
      · intro e w hw
        rw [List.append_assoc] at hw
        exact hw.append (hmade.harmless.append Harmless.found)

/-! ## The leaf -/

/-- What opening the leaf appends. -/
def LeafEvents (d : ℕ) (leaf : String) (fd : Fd) : Bool → List Event → Prop
  | true, evs => ∃ ino, fd.obj = .file ino ∧ evs = [.created ino, .found d leaf (.file ino)]
  | false, evs => evs = [.found d leaf fd.obj]

theorem openExisting_triple : Prog.Triple (LogIs l) ((openExisting env d leaf).mapError (existingError create))
    (fun fd w => LogIs (l ++ [.found d leaf fd.obj]) w) fun _ => OnTheWay l := by
  apply Prog.Triple.mapError
  refine ask_triple ?_ fun e w hw => onTheWay_self hw
  intro fs fd ev w hf hw
  split at hf
  · cases hf
  · cases hf
  · cases hf
    exact hw
  · cases hf

theorem openLeaf_triple : Prog.Triple (LogIs l) (openLeaf env d leaf create)
    (fun r w => ∃ evs, LeafEvents d leaf r.1 r.2 evs ∧ LogIs (l ++ evs) w) fun _ => OnTheWay l := by
  have hexisting : Prog.Triple (LogIs l)
      (do
        let fd ← (openExisting env d leaf).mapError (existingError create)
        pure (fd, false))
      (fun r w => ∃ evs, LeafEvents d leaf r.1 r.2 evs ∧ LogIs (l ++ evs) w) fun _ => OnTheWay l :=
    openExisting_triple.bind fun fd => Prog.Triple.pure fun w hw => ⟨_, rfl, hw⟩
  unfold openLeaf
  cases create with
  | false => exact hexisting
  | true =>
      simp only [if_true]
      refine Prog.Triple.bind (Q := fun r w => match r with
        | .ok fd => ∃ ino, fd.obj = .file ino ∧ LogIs (l ++ [.created ino, .found d leaf (.file ino)]) w
        | .error _ => LogIs l w) (Prog.Triple.attempt ?_) fun r => ?_
      · refine change_triple ?_ fun e w hw => hw
        intro fs fd fs' evs w hf hw
        split at hf
        · cases hf
        · split at hf
          · cases hf
            exact ⟨_, rfl, hw⟩
          · cases hf
      · match r with
        | .ok fd => exact Prog.Triple.pure fun w ⟨ino, hobj, hw⟩ => ⟨_, ⟨ino, hobj, rfl⟩, hw⟩
        | .error .exist => exact hexisting
        | .error .noent => exact Prog.Triple.throw fun w hw => onTheWay_self hw
        | .error .loop => exact Prog.Triple.throw fun w hw => onTheWay_self hw
        | .error .mlink => exact Prog.Triple.throw fun w hw => onTheWay_self hw
        | .error .notdir => exact Prog.Triple.throw fun w hw => onTheWay_self hw
        | .error (.other text) => exact Prog.Triple.throw fun w hw => onTheWay_self hw

/-- What a refusal after the leaf was opened appends: a clean-up, when the leaf was created. -/
def Undone (created : Bool) (evs : List Event) : Prop :=
  Harmless evs ∨ created = true ∧ ∃ evs' fs d name obj, Harmless evs' ∧ removable (fs.at? d name) = some obj ∧
    evs = evs' ++ [.cleaning fs d name, .removed obj]

theorem undo_triple {α : Type} {msg : String} {evs : List Event} (hevs : Harmless evs) {Q : α → World → Prop} :
    Prog.Triple (LogIs (l ++ evs)) (undo env created d leaf msg) Q
      fun _ w => ∃ evs, Undone created evs ∧ LogIs (l ++ evs) w := by
  unfold undo
  cases created with
  | false => exact Prog.Triple.throw fun w hw => ⟨evs, .inl hevs, hw⟩
  | true =>
      simp only [if_true]
      refine Prog.Triple.bind (Q := fun _ w => ∃ evs, Undone true evs ∧ LogIs (l ++ evs) w) (Prog.Triple.attempt ?_)
        fun _ => Prog.Triple.throw fun w hw => hw
      refine change_triple ?_ fun e w hw => ⟨evs, .inl hevs, hw⟩
      intro fs u fs' evs' w hf hw
      split at hf
      · rename_i obj fs'' hobj _
        cases hf
        exact ⟨_, .inr ⟨rfl, evs, fs, d, leaf, obj, hevs, hobj, rfl⟩, by simpa using hw⟩
      · cases hf

theorem checkLeaf_triple {root : List String} : Prog.Triple (LogIs l) (checkLeaf env root fd created d leaf)
    (fun _ w => ∃ fs fs' ino p, fd.obj = .file ino ∧ fs.links ino = 1 ∧ root <+: p ∧
      fs'.path (· ++ " (deleted)") fd.entry = some p ∧ LogIs (l ++ [.stat fs fd, .located fs' fd]) w)
    fun _ w => ∃ evs, Undone created evs ∧ LogIs (l ++ evs) w := by
  have hstat (fs : Fs) : Harmless [.stat fs fd] := ⟨rfl, rfl, rfl, by simp⟩
  have hlocated (fs : Fs) : Harmless [.located fs fd] := ⟨rfl, rfl, rfl, by simp⟩
  unfold checkLeaf
  refine Prog.Triple.bind (Q := fun r w => match r with
    | .ok (regular, nlink) => ∃ fs, (regular = true → ∃ ino, fd.obj = .file ino ∧ fs.links ino = nlink) ∧
        LogIs (l ++ [.stat fs fd]) w
    | .error _ => LogIs (l ++ []) w) (Prog.Triple.attempt ?_) fun r => ?_
  · refine ask_triple ?_ fun e w hw => by simpa using hw
    intro fs r ev w hf hw
    split at hf
    · rename_i ino hobj
      cases hf
      exact ⟨fs, fun _ => ⟨ino, hobj, rfl⟩, hw⟩
    · cases hf
      exact ⟨fs, fun h => (nomatch h), hw⟩
  match r with
  | .error e => exact undo_triple Harmless.nil
  | .ok (regular, nlink) =>
      refine Prog.Triple.exists_pre fun fs => Prog.Triple.pre fun hregular => ?_
      simp only
      split
      · exact undo_triple (hstat fs)
      · rename_i hreg
        split
        · exact undo_triple (hstat fs)
        · rename_i hone
          obtain ⟨ino, hobj, hlinks⟩ := hregular (by simpa using hreg)
          refine Prog.Triple.bind (Q := fun r w => match r with
            | .ok inside => ∃ fs' p, fs'.path (· ++ " (deleted)") fd.entry = some p ∧
                inside = decide (root <+: p) ∧ LogIs (l ++ ([.stat fs fd] ++ [.located fs' fd])) w
            | .error _ => LogIs (l ++ [.stat fs fd]) w) (Prog.Triple.attempt ?_) fun r => ?_
          · refine ask_triple ?_ fun e w hw => hw
            intro fs' r ev w hf hw
            split at hf
            · rename_i real hpath
              cases hf
              exact ⟨fs', real, hpath, rfl, by simpa using hw⟩
            · cases hf
          cases r with
          | error e => exact undo_triple (hstat fs)
          | ok inside =>
              refine Prog.Triple.exists_pre fun fs' => Prog.Triple.exists_pre fun p => Prog.Triple.pre fun hpath =>
                Prog.Triple.pre fun hinside => ?_
              cases inside with
              | false => exact undo_triple ((hstat fs).append (hlocated fs'))
              | true =>
                  refine Prog.Triple.pure fun w hw => ⟨fs, fs', ino, p, hobj, ?_, ?_, hpath, hw⟩
                  · rw [hlinks]
                    exact not_not.mp hone
                  · exact of_decide_eq_true hinside.symm

/-! ## Whole calls -/

/-- The log of a refused call. -/
def Refused (log : List Event) : Prop :=
  Harmless log ∨ ∃ before d leaf fd created opened evs, Harmless before ∧ LeafEvents d leaf fd created opened ∧
    Undone created evs ∧ log = before ++ opened ++ evs

/-- The log of a call that opened the file. -/
def Opened (fd : Fd) (log : List Event) : Prop :=
  ∃ wp d d' leaf evs created opened fs fs' ino p tail,
    log = [.resolved wp] ++ [.root d] ++ evs ++ opened ++ [.stat fs fd, .located fs' fd] ++ tail ∧
      wp.rel = wp.rel.dropLast ++ [leaf] ∧ Descends d wp.rel.dropLast d' evs ∧ LeafEvents d' leaf fd created opened ∧
      fd.obj = .file ino ∧ fs.links ino = 1 ∧ wp.root <+: p ∧ fs'.path (· ++ " (deleted)") fd.entry = some p ∧
      (tail = [] ∨ created = false ∧ tail = [.truncated ino])

theorem LeafEvents.harmless {opened : List Event} (h : LeafEvents d leaf fd false opened) : Harmless opened := by
  rw [show opened = _ from h]
  exact Harmless.found

theorem resolve_triple {cwd : List String} {workspace path : String} :
    Prog.Triple (LogIs []) (resolve env cwd workspace path) (fun wp => LogIs [.resolved wp])
      fun _ w => Refused w.log := by
  have hrefused {w : World} (hw : LogIs [] w) : Refused w.log := by
    rw [show w.log = [] from hw]
    exact .inl Harmless.nil
  unfold resolve
  refine Prog.Triple.bind (Q := fun _ => LogIs []) ?_ fun root => ?_
  · apply Prog.Triple.mapError
    refine sys_triple ?_ ?_ fun e w hw => hrefused hw
    · exact fun fs a w _ hw => hw
    · exact fun fs e w _ hw => hrefused hw
  refine Prog.Triple.bind (Q := fun _ => LogIs [])
    (Prog.Triple.ofExcept (fun _ w _ hw => hw) fun _ w _ hw => hrefused hw) fun rel => ?_
  apply Prog.Triple.act
  · rintro w wp w' hw ⟨⟩
    simp [LogIs, show w.log = [] from hw]
  · rintro w e w' hw ⟨⟩

theorem openRoot_triple {root : List String} :
    Prog.Triple (LogIs l) (openRoot env root) (fun d => LogIs (l ++ [.root d])) fun _ => OnTheWay l := by
  apply Prog.Triple.mapError
  refine ask_triple ?_ fun e w hw => onTheWay_self hw
  intro fs d ev w hf hw
  split at hf
  · cases hf
  · split at hf
    · cases hf
      exact hw
    · cases hf

/-- **A run of the open.** -/
theorem openConfined_runs (cwd : List String) (workspace path : String) :
    Prog.Triple (LogIs []) (openConfined env cwd workspace path create) (fun fd w => Opened fd w.log)
      fun _ w => Refused w.log := by
  have hstart (wp : WorkspacePath) : Harmless [.resolved wp] := ⟨rfl, rfl, rfl, by simp⟩
  have hroot (d : ℕ) : Harmless [.root d] := ⟨rfl, rfl, rfl, by simp⟩
  have hway {evs : List Event} {w : World} (hevs : Harmless evs) (hw : OnTheWay evs w) : Refused w.log := by
    obtain ⟨evs', hlog, hevs'⟩ := hw
    rw [show w.log = _ from hlog]
    exact .inl (hevs.append hevs')
  unfold openConfined
  refine resolve_triple.bind fun wp => ?_
  unfold openAt
  refine (openRoot_triple.fail fun _ w hw => hway (hstart wp) hw).bind fun d => ?_
  have hopen := (hstart wp).append (hroot d)
  cases hlast : wp.rel.getLast? with
  | none => exact Prog.Triple.throw fun w hw => hway hopen (onTheWay_self hw)
  | some leaf =>
      have hrel : wp.rel = wp.rel.dropLast ++ [leaf] := (List.dropLast_append_getLast? leaf hlast).symm
      refine (openDirs_triple.fail fun _ w hw => hway hopen hw).bind fun d' => ?_
      refine Prog.Triple.exists_pre fun evs => Prog.Triple.pre fun hdown => ?_
      have hdirs := hopen.append hdown.harmless
      refine (openLeaf_triple.fail fun _ w hw => hway hdirs hw).bind fun r => ?_
      obtain ⟨fd, created⟩ := r
      refine Prog.Triple.exists_pre fun opened => Prog.Triple.pre fun hleaf => ?_
      refine Prog.Triple.bind (checkLeaf_triple.fail ?_) fun _ => ?_
      · rintro e w ⟨undone, hundone, hw⟩
        exact .inr ⟨_, _, _, _, _, _, _, hdirs, hleaf, hundone, hw⟩
      refine Prog.Triple.exists_pre fun fs => Prog.Triple.exists_pre fun fs' => Prog.Triple.exists_pre fun ino =>
        Prog.Triple.exists_pre fun p => Prog.Triple.pre fun hobj => Prog.Triple.pre fun hlinks =>
        Prog.Triple.pre fun hin => Prog.Triple.pre fun hpath => ?_
      have hrun (tail : List Event) (htail : tail = [] ∨ created = false ∧ tail = [.truncated ino]) (w : World)
          (hw : w.log = [.resolved wp] ++ [.root d] ++ evs ++ opened ++ [.stat fs fd, .located fs' fd] ++ tail) :
          Opened fd w.log :=
        ⟨wp, d, d', leaf, evs, created, opened, fs, fs', ino, p, tail, hw, hrel, hdown, hleaf, hobj, hlinks, hin,
          hpath, htail⟩
      unfold truncateExisting
      cases htrunc : create && !created with
      | false =>
          refine Prog.Triple.bind (Q := fun _ w => Opened fd w.log) (Prog.Triple.pure fun w hw => ?_) fun _ =>
            Prog.Triple.pure fun w hw => hw
          exact hrun [] (.inl rfl) w (by simpa [LogIs] using hw)
      | true =>
          have hcreated : created = false := by
            simp only [Bool.and_eq_true, Bool.not_eq_true'] at htrunc
            exact htrunc.2
          refine Prog.Triple.bind (Q := fun _ w => Opened fd w.log) ?_ fun _ => Prog.Triple.pure fun w hw => hw
          apply Prog.Triple.mapError
          refine change_triple ?_ fun e w hw => ?_
          · intro tree u tree' said w hf hw
            rw [hobj] at hf
            cases hf
            exact hrun [.truncated ino] (.inr ⟨hcreated, rfl⟩) w (by simpa [LogIs] using hw)
          · -- nothing was truncated, and the leaf was there before
            subst hcreated
            rw [show w.log = _ from hw]
            exact .inl ((hdirs.append hleaf.harmless).append ⟨rfl, rfl, rfl, by simp⟩)

theorem Descends.down {obj : Obj String} {d' : ℕ} {names : List String} {evs : List Event}
    (h : Descends d names d' evs) : Down obj d (trail evs ++ [(d', leaf, obj)]) (names ++ [leaf]) := by
  induction h with
  | here => exact .leaf
  | into hmade h ih =>
      rw [trail_append, hmade.trail]
      exact .into ih

theorem LeafEvents.trail {opened : List Event} (h : LeafEvents d leaf fd created opened) :
    trail opened = [(d, leaf, fd.obj)] := by
  cases created with
  | false =>
      rw [show opened = _ from h]
      rfl
  | true =>
      obtain ⟨ino, hobj, rfl⟩ := h
      rw [hobj]
      rfl

/-- What opening the leaf makes is the file that is opened. -/
theorem LeafEvents.effects {opened : List Event} (h : LeafEvents d leaf fd created opened) :
    removedOf opened = [] ∧ truncatedOf opened = [] ∧ (∀ fs d name, .cleaning fs d name ∉ opened) ∧
      (created = true → ∃ ino, fd.obj = .file ino ∧ createdOf opened = [ino]) ∧
      (created = false → createdOf opened = []) := by
  cases created with
  | false =>
      have hharm := h.harmless
      exact ⟨hharm.removed, hharm.truncated, hharm.cleaning, fun h => (nomatch h), fun _ => hharm.created⟩
  | true =>
      obtain ⟨ino, hobj, rfl⟩ := h
      exact ⟨rfl, rfl, by simp, fun _ => ⟨ino, hobj, rfl⟩, fun h => nomatch h⟩

/-- An open that succeeds cleans nothing up. -/
theorem Opened.cleaning {log : List Event} (h : Opened fd log) (fs : Fs) (d : ℕ) (name : String) :
    .cleaning fs d name ∉ log := by
  obtain ⟨wp, d', d'', leaf, evs, created, opened, fs₁, fs₂, ino, p, tail, rfl, -, hdown, hleaf, -, -, -, -, htail⟩ := h
  obtain ⟨-, -, hclean, -, -⟩ := hleaf.effects
  have htailClean : .cleaning fs d name ∉ tail := by
    rcases htail with rfl | ⟨-, rfl⟩
    · simp
    · simp
  simp [hdown.harmless.cleaning, hclean, htailClean]

/-- **What the log of an opened file says.** -/
theorem Opened.target {log : List Event} (h : Opened fd log) (hthere : StillThere log) : TargetOnly log (.ok fd) := by
  obtain ⟨wp, d, d', leaf, evs, created, opened, fs, fs', ino, p, tail, rfl, hrel, hdown, hleaf, hobj, hlinks, hin,
    hpath, htail⟩ := h
  have hevs := hdown.harmless
  obtain ⟨hremoved, htruncated, -, hnew, hold⟩ := hleaf.effects
  have htailTrail : trail tail = [] ∧ removedOf tail = [] ∧ createdOf tail = [] := by
    rcases htail with rfl | ⟨-, rfl⟩
    · exact ⟨rfl, rfl, rfl⟩
    · exact ⟨rfl, rfl, rfl⟩
  refine ⟨⟨⟨wp, d, by simp, by simp, ?_⟩, ⟨fs, ino, by simp, hobj, hlinks⟩, wp, fs', p, by simp, by simp, hin, ?_⟩, ?_, ?_⟩
  · have htrail : trail ([.resolved wp] ++ [.root d] ++ evs ++ opened ++ [.stat fs fd, .located fs' fd] ++ tail) =
        trail evs ++ [(d', leaf, fd.obj)] := by
      simp only [trail_append, hleaf.trail, htailTrail.1]
      simp [trail]
    rw [htrail, hrel]
    exact hdown.down
  · exact Disk.path_at hpath (hthere fs' fd (by simp))
  · intro k hk
    simp only [createdOf_append, truncatedOf_append, hevs.created, hevs.truncated, htruncated, htailTrail.2.2] at hk
    rcases htail with rfl | ⟨rfl, rfl⟩
    · cases created with
      | false =>
          rw [hold rfl] at hk
          simp [createdOf, truncatedOf] at hk
      | true =>
          obtain ⟨ino', hobj', hcreated⟩ := hnew rfl
          rw [hcreated] at hk
          obtain rfl : k = ino' := by simpa [createdOf, truncatedOf] using hk
          exact hobj'
    · rw [hold rfl] at hk
      obtain rfl : k = ino := by simpa [createdOf, truncatedOf] using hk
      exact hobj
  · simp only [removedOf_append, hevs.removed, hremoved, htailTrail.2.1]
    rfl

/-- **What the log of a refused call says.** -/
theorem Refused.target {log : List Event} {e : AgentError} (h : Refused log) :
    TargetOnly log (.error e) ↔ NameKept log := by
  rcases h with hlog | ⟨before, d, leaf, fd, created, opened, evs, hbefore, hleaf, hundone, rfl⟩
  · -- nothing was created, so nothing is cleaned up
    refine iff_of_true ⟨hlog.truncated, ?_⟩ fun fs d name hmem => absurd hmem (hlog.cleaning fs d name)
    rw [hlog.removed]
    exact fun obj hmem => nomatch hmem
  obtain ⟨hremoved, htruncated, hclean, hnew, -⟩ := hleaf.effects
  rcases hundone with hevs | ⟨hcreated, evs', fs, d', name, obj, hevs, hobj, rfl⟩
  · refine iff_of_true ⟨?_, ?_⟩ fun fs d name hmem => ?_
    · rw [truncatedOf_append, truncatedOf_append, hbefore.truncated, htruncated, hevs.truncated]
      rfl
    · rw [removedOf_append, removedOf_append, hbefore.removed, hremoved, hevs.removed]
      exact fun obj hmem => nomatch hmem
    · rcases List.mem_append.mp hmem with hmem | hmem
      · rcases List.mem_append.mp hmem with hmem | hmem
        · exact absurd hmem (hbefore.cleaning fs d name)
        · exact absurd hmem (hclean fs d name)
      · exact absurd hmem (hevs.cleaning fs d name)
  · -- the one clean-up removes what stands under the name
    obtain ⟨ino, -, hino⟩ := hnew hcreated
    have hallCreated : createdOf (before ++ opened ++ (evs' ++ [.cleaning fs d' name, .removed obj])) = [ino] := by
      simp only [createdOf_append, hbefore.created, hino, hevs.created]
      rfl
    have hallTruncated : truncatedOf (before ++ opened ++ (evs' ++ [.cleaning fs d' name, .removed obj])) = [] := by
      simp only [truncatedOf_append, hbefore.truncated, htruncated, hevs.truncated]
      rfl
    have hallRemoved : removedOf (before ++ opened ++ (evs' ++ [.cleaning fs d' name, .removed obj])) = [obj] := by
      simp only [removedOf_append, hbefore.removed, hremoved, hevs.removed]
      rfl
    have hcleaning (fs₁ : Fs) (d₁ : ℕ) (name₁ : String)
        (hmem : .cleaning fs₁ d₁ name₁ ∈ before ++ opened ++ (evs' ++ [.cleaning fs d' name, .removed obj])) :
        fs₁ = fs ∧ d₁ = d' ∧ name₁ = name := by
      simp only [List.mem_append, hbefore.cleaning, hclean, hevs.cleaning, false_or, List.mem_cons, List.not_mem_nil,
        or_false, reduceCtorEq] at hmem
      exact Event.cleaning.inj hmem
    unfold TargetOnly NameKept
    rw [hallCreated, hallTruncated, hallRemoved]
    constructor
    · rintro ⟨-, htarget⟩ fs₁ d₁ name₁ hmem obj₁ hobj₁
      obtain ⟨rfl, rfl, rfl⟩ := hcleaning fs₁ d₁ name₁ hmem
      obtain rfl := Option.some.inj (hobj₁.symm.trans hobj)
      exact htarget obj₁ (List.mem_singleton_self _)
    · intro hkept
      refine ⟨rfl, fun obj₁ hmem => ?_⟩
      obtain rfl := List.mem_singleton.mp hmem
      exact hkept fs d' name (by simp) obj₁ hobj

/-! ## The open -/

/-- A call on this tree, with what is around it. -/
def outcome (env : Env) (fs : Fs) (cwd : List String) (workspace path : String) (create : Bool) :
    Except AgentError Fd × World := openConfined env cwd workspace path create ⟨fs, 0, []⟩

/-- **Confined opens.** A call touches only its target when the name it cleans up still is its own, and what it opened
    is still in the tree when it is located; and only then is a clean-up within the target. -/
theorem confined_iff (env : Env) (fs : Fs) (cwd : List String) (workspace path : String) (create : Bool) :
    (NameKept (outcome env fs cwd workspace path create).2.log →
        StillThere (outcome env fs cwd workspace path create).2.log →
        TargetOnly (outcome env fs cwd workspace path create).2.log (outcome env fs cwd workspace path create).1) ∧
      (TargetOnly (outcome env fs cwd workspace path create).2.log (outcome env fs cwd workspace path create).1 →
        NameKept (outcome env fs cwd workspace path create).2.log) := by
  obtain ⟨hok, herr⟩ := @openConfined_runs env create cwd workspace path ⟨fs, 0, []⟩ rfl
  show (NameKept (outcome env fs cwd workspace path create).2.log → _) ∧ _
  cases hr : (outcome env fs cwd workspace path create).1 with
  | error e =>
      have htarget := (herr e hr).target (e := e)
      exact ⟨fun hkept _ => htarget.mpr hkept, htarget.mp⟩
  | ok fd =>
      refine ⟨fun _ hthere => (hok fd hr).target hthere, ?_⟩
      rintro - fs₁ d name hmem
      exact absurd hmem ((hok fd hr).cleaning fs₁ d name)

/-- A workspace with one file. -/
def workspace : Fs := [Op.mkdir 0 "ws", .createFile 1 "old.txt"].foldl Op.apply .empty

/-- Another process renames that file to the new one's name, after the new one was opened. -/
def renamedOver : Env where
  others n := if n = 3 then [.rename 1 "old.txt" 1 "new.txt"] else []
  fault _ := none

/-- The workspace with the new file in it. -/
def withNew : Fs := (workspace.createFile 1 "new.txt").getD .empty

/-- The log when the new file was opened. -/
def openedLog : List Event :=
  [.resolved ⟨["ws"], ["new.txt"]⟩] ++ [.root 1] ++ [.created 3, .found 1 "new.txt" (.file 3)]

/-- The new file has no name left, so the call is refused, and cleans up. -/
theorem renamedOver_outcome : ∃ e w, outcome renamedOver workspace [] "/ws" "new.txt" true = (.error e, w) ∧
    createdOf w.log = [3] ∧ removedOf w.log = [.file 2] := by
  have hcheck : (checkLeaf renamedOver ["ws"] ⟨2, .file 3⟩ true 1 "new.txt" ⟨withNew, 3, openedLog⟩).1.isOk = false := by
    decide +kernel
  have hcreated :
      createdOf (checkLeaf renamedOver ["ws"] ⟨2, .file 3⟩ true 1 "new.txt" ⟨withNew, 3, openedLog⟩).2.log = [3] := by
    decide +kernel
  have hremoved :
      removedOf (checkLeaf renamedOver ["ws"] ⟨2, .file 3⟩ true 1 "new.txt" ⟨withNew, 3, openedLog⟩).2.log =
        [.file 2] := by
    decide +kernel
  rcases hrun : checkLeaf renamedOver ["ws"] ⟨2, .file 3⟩ true 1 "new.txt" ⟨withNew, 3, openedLog⟩ with ⟨r, w⟩
  rw [hrun] at hcheck hcreated hremoved
  cases r with
  | ok u => cases hcheck
  | error e =>
      refine ⟨e, w, ?_, hcreated, hremoved⟩
      have hresolve : resolve renamedOver [] "/ws" "new.txt" ⟨workspace, 0, []⟩ =
          (.ok ⟨["ws"], ["new.txt"]⟩, ⟨workspace, 1, [.resolved ⟨["ws"], ["new.txt"]⟩]⟩) := rfl
      have hroot (l : List Event) :
          openRoot renamedOver ["ws"] ⟨workspace, 1, l⟩ = (.ok 1, ⟨workspace, 2, l ++ [.root 1]⟩) := rfl
      have hleaf (l : List Event) : openLeaf renamedOver 1 "new.txt" true ⟨workspace, 2, l⟩ =
          (.ok (⟨2, .file 3⟩, true), ⟨withNew, 3, l ++ [.created 3, .found 1 "new.txt" (.file 3)]⟩) := rfl
      rw [outcome, openConfined, Prog.run_bind_ok hresolve, openAt, Prog.run_bind_ok (hroot _)]
      simp only [List.getLast?_singleton, List.dropLast_singleton]
      rw [Prog.run_bind_ok (show openDirs renamedOver true 1 [] _ = (.ok 1, _) from rfl), Prog.run_bind_ok (hleaf _)]
      exact Prog.run_bind_error hrun

theorem not_targetOnly {log : List Event} {e : AgentError} (hcreated : createdOf log = [3])
    (hremoved : removedOf log = [.file 2]) : ¬ TargetOnly log (.error e) := by
  rintro ⟨-, htarget⟩
  rw [hremoved, hcreated] at htarget
  obtain ⟨ino, hino, heq⟩ := htarget (.file 2) (List.mem_singleton_self _)
  rw [List.mem_singleton.mp hino] at heq
  cases heq

/-- The clean-up removes the file that was there before. -/
theorem clean_up_removes_another : ¬ ∀ env fs cwd ws path create,
    TargetOnly (outcome env fs cwd ws path create).2.log (outcome env fs cwd ws path create).1 := by
  have hnot : ∃ env fs cwd ws path create,
      ¬ TargetOnly (outcome env fs cwd ws path create).2.log (outcome env fs cwd ws path create).1 := by
    obtain ⟨e, w, hrun, hcreated, hremoved⟩ := renamedOver_outcome
    refine ⟨renamedOver, workspace, [], "/ws", "new.txt", true, ?_⟩
    rw [hrun]
    exact not_targetOnly hcreated hremoved
  obtain ⟨env, fs, cwd, ws, path, create, hnot⟩ := hnot
  exact fun h => hnot (h env fs cwd ws path create)

end AgentRuntime.Code
