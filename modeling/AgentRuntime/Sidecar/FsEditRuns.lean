import AgentRuntime.Sidecar.FsEdit

/-!
# `Sidecar.FsEditRuns` — what a run of `fs_edit` reads and replaces

Every step before the rename leaves the log without a replacement; so a run that fails there has changed nothing, and a
run that gets to its rename has read the same text twice (`fsEdit_runs`). The only step after the rename is the commit
of the checkpoint step.
-/

namespace AgentRuntime.Sidecar

open Json Occurrences
open AgentRuntime.Capsule (fromUtf8)

variable {w : Around} {s : Io} {l : List Event} {n : Node} {t : Option (List UInt8)} {bytes : List UInt8}

/-- The log is this one. -/
def Logged (l : List Event) (d : Disk) : Prop := d.log = l

/-- Unless another process changes the file during the write, it is this one. -/
def Held (w : Around) (n m : Node) : Prop := (∀ s, s.writing = true → w.others s = id) → m = n

/-- A state of the write before its rename. -/
structure Ready (w : Around) (l : List Event) (n : Node) (t : Option (List UInt8)) (d : Disk) : Prop where
  log : d.log = l
  held : Held w n d.node
  temp : d.temp = t

theorem io_triple {P : Disk → Prop} {Q : Unit → Disk → Prop} {E : String → Disk → Prop}
    (hok : ∀ d, P d → Q () { d with node := w.others s d.node })
    (herr : ∀ e d, P d → w.fault s = some e → E e { d with node := w.others s d.node }) :
    Prog.Triple P (io w s) Q E := by
  apply Prog.Triple.act
  · intro d a d' hP hrun
    split at hrun
    · cases hrun
    · cases hrun
      exact hok d hP
  · intro d e d' hP hrun
    split at hrun
    · rename_i e' hfault
      cases hrun
      exact herr e d hP hfault
    · cases hrun

theorem io_logged {E : String → Disk → Prop} (herr : ∀ e d, Logged l d → E e d) :
    Prog.Triple (Logged l) (io w s) (fun _ => Logged l) E :=
  io_triple (fun _ hd => hd) fun e _ hd _ => herr e _ hd

/-- A step of the write changes nothing of it, also when it fails. -/
theorem io_ready_attempt (hs : s.writing = true) :
    Prog.Triple (Ready w l n t) (io w s) (fun _ => Ready w l n t) fun _ => Ready w l n t := by
  have hkeep (d : Disk) (hd : Ready w l n t d) : Ready w l n t { d with node := w.others s d.node } := by
    refine ⟨hd.log, ?_, hd.temp⟩
    intro hnone
    show w.others s d.node = n
    rw [hnone s hs]
    exact hd.held hnone
  exact io_triple hkeep fun e d hd _ => hkeep d hd

theorem io_ready (hs : s.writing = true) : Prog.Triple (Ready w l n t) (io w s) (fun _ => Ready w l n t)
    fun _ => Logged l :=
  (io_ready_attempt hs).fail fun _ _ hd => hd.log

/-- The write as it is left after the rename: what it replaced. -/
def Replaced (w : Around) (l : List Event) (n : Node) (bytes : List UInt8) (d : Disk) : Prop :=
  ∃ old, Held w n old ∧ d.log = l ++ [.put old (.file bytes false)]

theorem setTemp_ready {u : Option (List UInt8)} :
    Prog.Triple (Ready w l n t) (setTemp u) (fun _ => Ready w l n u) fun _ => Logged l := by
  apply Prog.Triple.act
  · rintro d a d' hd ⟨⟩
    exact ⟨hd.log, hd.held, rfl⟩
  · rintro d e d' hd ⟨⟩

theorem renameTemp_ready :
    Prog.Triple (Ready w l n (some bytes)) (renameTemp w) (fun _ => Replaced w l n bytes) fun _ => Logged l := by
  apply Prog.Triple.act
  · intro d a d' hd hrun
    split at hrun
    · cases hrun
    · cases hrun
    · rename_i bytes' htemp _
      cases hrun
      rw [hd.temp] at htemp
      cases htemp
      exact ⟨d.node, hd.held, by rw [hd.log]⟩
  · intro d e d' hd hrun
    split at hrun
    · cases hrun
      exact hd.log
    · cases hrun
      exact hd.log
    · cases hrun

theorem keepPermissions_ready : Prog.Triple (Ready w l n t) (keepPermissions w) (fun _ => Ready w l n t)
    fun _ => Logged l := by
  unfold keepPermissions
  refine Prog.Triple.bind (Q := fun _ => Ready w l n t) ?_ fun r => ?_
  · apply Prog.Triple.attempt
    apply io_ready_attempt rfl
  · cases r with
    | error e => exact Prog.Triple.pure fun d hd => hd
    | ok u =>
        refine Prog.Triple.bind (Q := fun _ => Ready w l n t) (Prog.Triple.read fun d hd => hd) fun m => ?_
        cases m with
        | file b linked => exact io_ready rfl
        | absent => exact Prog.Triple.pure fun d hd => hd
        | link => exact Prog.Triple.pure fun d hd => hd
        | folder => exact Prog.Triple.pure fun d hd => hd

/-- The inner part of the write, whatever its result. -/
def Tried (w : Around) (l : List Event) (n : Node) (bytes : List UInt8) : Except String Unit → Disk → Prop
  | .ok _ => Replaced w l n bytes
  | .error _ => Logged l

theorem replaceInDir_ready : Prog.Triple (Ready w l n t) (replaceInDir w bytes) (fun _ => Replaced w l n bytes)
    fun _ => Logged l := by
  unfold replaceInDir
  refine (io_ready rfl).bind fun _ => setTemp_ready.bind fun _ => ?_
  refine Prog.Triple.bind (Q := Tried w l n bytes) ?_ ?_
  · apply Prog.Triple.attempt
    show Prog.Triple (Ready w l n (some [])) _ (fun _ => Replaced w l n bytes) fun _ => Logged l
    refine (io_ready rfl).bind fun _ => setTemp_ready.bind fun _ => (io_ready rfl).bind fun _ => ?_
    exact keepPermissions_ready.bind fun _ => (io_ready rfl).bind fun _ => renameTemp_ready
  · intro r
    cases r with
    | ok u => exact Prog.Triple.pure fun d hd => hd
    | error e =>
        refine Prog.Triple.bind (Q := fun _ => Logged l) ?_ fun _ => Prog.Triple.throw fun d hd => hd
        apply Prog.Triple.attempt
        refine Prog.Triple.bind (Q := fun _ => Logged l) (io_logged fun _ _ hd => hd) fun _ => ?_
        apply Prog.Triple.act
        · rintro d a d' hd ⟨⟩
          exact hd
        · rintro d e d' hd ⟨⟩

theorem writeFile_ready : Prog.Triple (Ready w l n t) (writeFile w bytes) (fun _ => Replaced w l n bytes)
    fun _ => Logged l := by
  unfold writeFile
  refine Prog.Triple.bind (Q := fun _ => Ready w l n t) ?_ fun _ =>
    Prog.Triple.bind (Q := fun _ => Ready w l n t) ?_ fun _ => ?_
  · exact Prog.Triple.mapError (io_ready rfl)
  · exact Prog.Triple.mapError (io_ready rfl)
  · exact Prog.Triple.mapError replaceInDir_ready

/-! ## Reading -/

/-- Nothing was replaced so far. -/
def NoPut (l : List Event) : Prop := ∀ old new, Event.put old new ∉ l

theorem NoPut.read (h : NoPut l) : NoPut (l ++ [.read n]) := by
  intro old new hmem
  rcases List.mem_append.mp hmem with hmem | hmem
  · exact h old new hmem
  · exact nomatch List.mem_singleton.mp hmem

/-- The text that was read, from a file within the size limit. -/
structure TextRead (l : List Event) (text : String) (b : List UInt8) (linked : Bool) (d : Disk) : Prop where
  node : d.node = .file b linked
  log : d.log = l ++ [.read (.file b linked)]
  text : fromUtf8 b = some text
  size : b.length ≤ maxContentBytes

theorem readText_logged (hl : NoPut l) {statIo openIo : Io} {path : String} :
    Prog.Triple (Logged l) (readText w statIo openIo path) (fun text d => ∃ b linked, TextRead l text b linked d)
      fun _ d => NoPut d.log := by
  have hnone (d : Disk) (hd : Logged l d) : NoPut d.log := by
    rw [show d.log = l from hd]
    exact hl
  unfold readText
  refine (Prog.Triple.mapError (io_logged fun _ d hd => hnone d hd)).bind fun _ => ?_
  refine Prog.Triple.bind (Q := fun _ => Logged l) (Prog.Triple.read fun d hd => hd) fun m => ?_
  cases m with
  | absent => exact Prog.Triple.throw hnone
  | link => exact Prog.Triple.throw hnone
  | folder => exact Prog.Triple.throw hnone
  | file b linked =>
      simp only
      split
      · exact Prog.Triple.throw hnone
      · refine (Prog.Triple.mapError (io_logged fun _ d hd => hnone d hd)).bind fun _ => ?_
        refine Prog.Triple.bind (Q := fun m d => Logged l d ∧ d.node = m) (Prog.Triple.read fun d hd => ⟨hd, rfl⟩)
          fun m => ?_
        -- what is read is what the file is at the open
        refine Prog.Triple.bind
          (Q := fun _ d => ∃ b linked, m = .file b linked ∧ d.node = .file b linked ∧
            d.log = l ++ [.read (.file b linked)]) ?_ fun _ => ?_
        · apply Prog.Triple.mapError
          apply Prog.Triple.act
          · rintro d a d' ⟨hd, hm⟩ hrun
            split at hrun
            · rename_i b linked hnode
              cases hrun
              exact ⟨b, linked, hm.symm.trans hnode, hnode, by rw [show d.log = l from hd]⟩
            · cases hrun
          · rintro d e d' ⟨hd, hm⟩ hrun
            split at hrun
            · cases hrun
            · cases hrun
              exact hnone d hd
        · refine Prog.Triple.exists_pre fun b => Prog.Triple.exists_pre fun linked => Prog.Triple.pre ?_
          rintro rfl
          have hread (d : Disk) (hd : d.node = .file b linked ∧ d.log = l ++ [.read (.file b linked)]) :
              NoPut d.log := by
            rw [hd.2]
            exact hl.read
          simp only
          split
          · exact Prog.Triple.throw hread
          · rename_i hsize
            cases htext : fromUtf8 b with
            | none => exact Prog.Triple.throw hread
            | some text =>
                exact Prog.Triple.pure fun d hd => ⟨b, linked, hd.1, hd.2, htext, not_lt.mp hsize⟩

theorem leafRefusal_logged {E : Disk → Prop} (hE : ∀ d, Logged l d → E d) {path : String} :
    Prog.Triple (Logged l) (leafRefusal w path) (fun _ => Logged l) fun _ => E := by
  unfold leafRefusal
  refine Prog.Triple.bind (Q := fun _ => Logged l) (Prog.Triple.attempt (io_logged fun _ _ hd => hd)) fun r => ?_
  cases r with
  | error e => exact Prog.Triple.pure fun d hd => hd
  | ok u =>
      refine Prog.Triple.bind (Q := fun _ => Logged l) (Prog.Triple.read fun d hd => hd) fun m => ?_
      cases m with
      | absent => exact Prog.Triple.pure fun d hd => hd
      | link => exact Prog.Triple.throw hE
      | folder => exact Prog.Triple.throw hE
      | file b linked =>
          cases linked with
          | false => exact Prog.Triple.pure fun d hd => hd
          | true => exact Prog.Triple.throw hE

/-! ## The whole call -/

/-- A run that got to its rename: the same text was read twice, and the rename put the edited text in place. -/
def Edited (w : Around) (args : Value) (d : Disk) : Prop :=
  ∃ (e : Edit) (before after : String) (b : List UInt8) (linked linked' : Bool) (old : Node),
    Edit.parse args = .ok e ∧ fromUtf8 b = some before ∧ e.compute before = .ok after ∧
      d.log = [.read (.file b linked), .read (.file b linked'), .put old (.file (utf8 after) false)] ∧
      Held w (.file b linked') old

theorem fromUtf8_eq_utf8 {b : List UInt8} {text : String} (h : fromUtf8 b = some text) : b = utf8 text := by
  unfold fromUtf8 String.fromUTF8? at h
  split at h
  · cases h
    show b = b.toByteArray.data.toList
    rw [List.data_toByteArray]
  · cases h

theorem writeIfUnchanged_run {path before : String} {b : List UInt8} {linked : Bool}
    (hbefore : fromUtf8 b = some before) :
    Prog.Triple (Logged [.read (.file b linked)]) (writeIfUnchanged w path before bytes)
      (fun _ d => ∃ linked' old, d.log = [.read (.file b linked), .read (.file b linked'),
        .put old (.file bytes false)] ∧ Held w (.file b linked') old)
      fun _ d => NoPut d.log := by
  have hone : NoPut [.read (.file b linked)] := by
    intro old new hmem
    exact nomatch List.mem_singleton.mp hmem
  unfold writeIfUnchanged
  refine Prog.Triple.bind
    (Q := fun now d => ∃ b' linked', TextRead [.read (.file b linked)] now b' linked' d) ?_ fun now => ?_
  · exact Prog.Triple.mapError (readText_logged hone)
  · refine Prog.Triple.exists_pre fun b' => Prog.Triple.exists_pre fun linked' => ?_
    split
    · rename_i hsame
      subst hsame
      -- what was read is the same text, so the same bytes
      intro d hd
      obtain rfl := (fromUtf8_eq_utf8 hd.text).trans (fromUtf8_eq_utf8 hbefore).symm
      have hready : Ready w _ (.file b' linked') d.temp d := ⟨hd.log, fun _ => hd.node, rfl⟩
      obtain ⟨hok, herr⟩ := @writeFile_ready w _ _ _ bytes d hready
      refine ⟨?_, ?_⟩
      · intro a ha
        obtain ⟨old, hold, hlog⟩ := hok a ha
        exact ⟨linked', old, hlog, hold⟩
      · intro e he
        rw [show _ = _ from herr e he]
        exact hone.read
    · apply Prog.Triple.throw
      intro d hd
      rw [hd.log]
      exact hone.read

/-- What the write leaves, whatever its result. -/
def Changed (w : Around) (args : Value) : Except String Unit → Disk → Prop
  | .ok _ => Edited w args
  | .error _ => fun d => NoPut d.log

/-- **A run of `fs_edit`** that fails has replaced nothing, unless the commit of its step failed. -/
theorem fsEdit_runs (w : Around) (args : Value) :
    Prog.Triple (Logged []) (fsEdit w args) (fun _ d => Edited w args d) fun e d =>
      NoPut d.log ∨ Edited w args d ∧ ∃ m, w.fault .commit = some m ∧ e = undoRecordError w.seq m := by
  have hempty : NoPut [] := fun _ _ => List.not_mem_nil
  have hnil (d : Disk) (hd : Logged [] d) : NoPut d.log := by
    rw [show d.log = [] from hd]
    exact hempty
  unfold fsEdit
  refine Prog.Triple.bind (Q := fun e d => Edit.parse args = .ok e ∧ Logged [] d)
    (Prog.Triple.ofExcept (fun e d he hd => ⟨he, hd⟩) fun _ d _ hd => .inl (hnil d hd)) fun e => ?_
  refine Prog.Triple.pre fun hargs => ?_
  refine Prog.Triple.bind (Q := fun _ => Logged [])
    (Prog.Triple.ofExcept (fun _ d _ hd => hd) fun _ d _ hd => .inl (hnil d hd)) fun path => ?_
  refine Prog.Triple.bind (Q := fun _ => Logged []) ?_ fun _ => ?_
  · exact (leafRefusal_logged hnil).fail fun _ _ h => .inl h
  refine Prog.Triple.bind ((readText_logged hempty).fail fun _ _ h => .inl h) fun before => ?_
  refine Prog.Triple.exists_pre fun b => Prog.Triple.exists_pre fun linked => ?_
  -- from here on the log has the first reading
  have hone : NoPut [.read (.file b linked)] := by
    intro old new hmem
    exact nomatch List.mem_singleton.mp hmem
  have hread (d : Disk) (hd : Logged [.read (.file b linked)] d) : NoPut d.log := by
    rw [show d.log = _ from hd]
    exact hone
  refine Prog.Triple.weaken (P := fun d => fromUtf8 b = some before ∧ Logged [.read (.file b linked)] d) ?_
    (fun d hd => ⟨hd.text, hd.log⟩) fun _ _ h => h
  refine Prog.Triple.pre fun hbefore => ?_
  refine Prog.Triple.bind (Q := fun after d => e.compute before = .ok after ∧ Logged [.read (.file b linked)] d)
    (Prog.Triple.ofExcept (fun after d h hd => ⟨h, hd⟩) fun _ d _ hd => .inl (hread d hd)) fun after => ?_
  refine Prog.Triple.pre fun hafter => ?_
  refine Prog.Triple.bind (Q := fun _ => Logged [.read (.file b linked)]) ?_ fun _ => ?_
  · exact Prog.Triple.mapError (io_logged fun _ d hd => .inl (hread d hd))
  refine Prog.Triple.bind (Q := Changed w args) ?_ fun r => ?_
  · apply Prog.Triple.attempt
    refine (writeIfUnchanged_run hbefore).weaken (fun d hd => hd) ?_
    rintro u d ⟨linked', old, hlog, hold⟩
    exact ⟨e, before, after, b, linked, linked', old, hargs, hbefore, hafter, hlog, hold⟩
  · cases r with
    | error m => exact Prog.Triple.throw fun d hd => .inl hd
    | ok u =>
        apply Prog.Triple.mapError
        exact io_triple (fun d hd => hd) fun m d hd hm => .inr ⟨hd, m, hm, rfl⟩

end AgentRuntime.Sidecar
