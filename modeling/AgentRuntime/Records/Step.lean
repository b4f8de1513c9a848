import AgentRuntime.Records.Log

/-!
# `Records.Step` — what a durable file step does to the log

`Log.Step` is the transition system of the log: one constructor for each thing a file step of the
writer means. A described directory executes a step as the log takes it (`describes_apply`) and the
well-formedness of the log is kept (`ok_step`). `StepsIn` is a run that says where the history is at
every point of it, which is what a crash inside the run leaves behind.
-/

namespace AgentRuntime.Records

open Transition

variable {sha256 : List UInt8 → Digest}

/-- **One file step, as the log takes it.** -/
inductive Log.Step (sha256 : List UInt8 → Digest) : Log → FileStep → Log → Prop
  /-- A segment is finished and the next one started. -/
  | create (L : Log) (htail : L.tail = []) (hlisted : L.index + 1 < segNameBound) :
      Step sha256 L (.createSeg (L.index + 1)) { L with closed := L.closed ++ [L.cur], cur := [] }
  /-- CHECKPOINT takes in the oldest segment. -/
  | checkpoint (L : Log) (cp : Checkpoint) (hlt : L.covered < L.closed.length)
      (hne : L.closed[L.covered]? ≠ some []) (hhead : L.headAt = L.hist.length)
      (hcp : checkpointFor (L.closed.take (L.covered + 1)).flatten = some cp) :
      Step sha256 L (.replaceCheckpoint cp) { L with covered := L.covered + 1 }
  /-- A segment CHECKPOINT stands for is deleted. -/
  | delete (L : Log) (hlt : L.deleted < L.covered) :
      Step sha256 L (.deleteSeg (L.deleted + 1)) { L with deleted := L.deleted + 1 }
  /-- A segment without records is deleted; CHECKPOINT stands for it as it is. -/
  | deleteEmpty (L : Log) (hcovered : L.covered = L.deleted)
      (hempty : L.closed[L.deleted]? = some []) :
      Step sha256 L (.deleteSeg (L.deleted + 1))
        { L with deleted := L.deleted + 1, covered := L.covered + 1 }
  /-- A byte inside a line. -/
  | byte (L : Log) (b : UInt8) (hb : b ≠ 10) :
      Step sha256 L (.writeByte L.index b) { L with tail := L.tail ++ [b] }
  /-- The line feed that completes a record. -/
  | line (L : Log) (r : StoredRecord) (htail : L.tail = r.toVec) (hadm : L.cursor.Admits sha256 r)
      (hhead : L.headAt = L.hist.length) :
      Step sha256 L (.writeByte L.index 10) { L with cur := L.cur ++ [r], tail := [] }
  /-- Bytes `HEAD` has not seen are cut off again. -/
  | cut (L : Log) (kept rest : List StoredRecord) (hcur : L.cur = kept ++ rest)
      (hhead : L.headAt ≤ L.closed.flatten.length + kept.length) :
      Step sha256 L (.setLen L.index (encodeSeg kept).length) { L with cur := kept, tail := [] }
  /-- `HEAD` moves to the last record. -/
  | head (L : Log) (h : Head) (hh : headFor L.hist = some h) :
      Step sha256 L (.replaceHead h) { L with headAt := L.hist.length }
  /-- A torn line is put aside. -/
  | torn (L : Log) (name : String) (bytes : List UInt8) : Step sha256 L (.writeTorn name bytes) L

/-- A step to a log whose history is in `P`. -/
def Log.StepIn (sha256 : List UInt8 → Digest) (P : List StoredRecord → Prop) (L : Log)
    (s : FileStep) (L' : Log) : Prop :=
  Log.Step sha256 L s L' ∧ P L'.hist

/-- A run of steps that keep the history within `P`. -/
abbrev Log.StepsIn (sha256 : List UInt8 → Digest) (P : List StoredRecord → Prop) :
    Log → List FileStep → Log → Prop :=
  Steps (Log.StepIn sha256 P)

theorem Log.StepsIn.steps {P : List StoredRecord → Prop} {L L' : Log} {steps : List FileStep}
    (h : Log.StepsIn sha256 P L steps L') : Steps (Log.Step sha256) L steps L' :=
  h.mono fun _ _ _ hstep => hstep.1

theorem Log.StepsIn.weaken {P Q : List StoredRecord → Prop} {L L' : Log} {steps : List FileStep}
    (h : Log.StepsIn sha256 P L steps L') (hle : ∀ rs, P rs → Q rs) :
    Log.StepsIn sha256 Q L steps L' :=
  h.mono fun _ _ _ hstep => ⟨hstep.1, hle _ hstep.2⟩

/-- The log after the first `k` steps. -/
theorem Log.StepsIn.upTo {P : List StoredRecord → Prop} {L L' : Log} {steps : List FileStep}
    (h : Log.StepsIn sha256 P L steps L') (k : ℕ) :
    ∃ M, Log.StepsIn sha256 P L (steps.take k) M :=
  h.take k

/-- The history stays within `P`. -/
theorem Log.StepsIn.hist {P : List StoredRecord → Prop} {L L' : Log} {steps : List FileStep}
    (h : Log.StepsIn sha256 P L steps L') (hL : P L.hist) : P L'.hist :=
  h.preserves (P := fun L => P L.hist) (fun _ _ _ hstep _ => hstep.2) hL

/-! ## The directory executes the step -/

theorem entries_create {s : SegFiles} {i : ℕ} (h : i ∉ s.entries.map Prod.fst) :
    (s.create i).entries = s.entries ++ [(i, [])] := by
  have hnot : ¬ s.contains i = true := fun hc => h (SegFiles.contains_iff.mp hc)
  rw [SegFiles.create, dif_neg hnot]

theorem entries_modify_last {s : SegFiles} {i : ℕ} {init : List (ℕ × List UInt8)}
    {bytes : List UInt8} (f : List UInt8 → List UInt8) (hs : s.entries = init ++ [(i, bytes)]) :
    (s.modify i f).entries = init ++ [(i, f bytes)] := by
  have hnodup := s.nodup
  rw [hs, List.map_append, List.nodup_append] at hnodup
  have hinit : (init.map fun e => if e.1 = i then (e.1, f e.2) else e) = init := by
    conv_rhs => rw [← List.map_id init]
    apply List.map_congr_left
    intro e he
    have hne : e.1 ≠ i := by
      intro heq
      exact hnodup.2.2 e.1 (List.mem_map_of_mem he) i (by simp) heq
    rw [if_neg hne]
    rfl
  change s.entries.map _ = _
  rw [hs, List.map_append, hinit]
  simp

theorem entries_erase_first {s : SegFiles} {i : ℕ} {rest : List (ℕ × List UInt8)}
    {bytes : List UInt8} (hs : s.entries = (i, bytes) :: rest) : (s.erase i).entries = rest := by
  have hnodup := s.nodup
  rw [hs, List.map_cons, List.nodup_cons] at hnodup
  change s.entries.filter _ = _
  rw [hs, List.filter_cons_of_neg (by simp)]
  apply List.filter_eq_self.mpr
  intro e he
  have hne : e.1 ≠ i := by
    intro heq
    apply hnodup.1
    rw [← heq]
    exact List.mem_map.mpr ⟨e, he, rfl⟩
  simpa using hne

namespace Log

theorem entries_create (L : Log) (htail : L.tail = []) (hle : L.deleted ≤ L.closed.length) :
    Log.entries { L with closed := L.closed ++ [L.cur], cur := [] }
      = L.entries ++ [(L.index + 1, [])] := by
  simp only [Log.entries, Log.index, numbered_concat, htail, List.append_nil, encodeSeg_nil,
    List.length_append, List.length_singleton]
  rw [List.drop_append_of_le_length (by simpa using hle), List.map_append]
  rfl

/-- The first segment file, when a finished one is left. -/
theorem entries_eq_cons (L : Log) (hlt : L.deleted < L.closed.length) :
    ∃ bytes, L.entries = (L.deleted + 1, bytes) :: Log.entries { L with deleted := L.deleted + 1 } := by
  have hlen : L.deleted < (numbered L.closed).length := by simpa using hlt
  have hfst : ((numbered L.closed)[L.deleted]).1 = L.deleted + 1 := by
    have hget : ((numbered L.closed).map Prod.fst)[L.deleted]? = some (L.deleted + 1) := by
      rw [map_fst_numbered, List.getElem?_range' hlt]
      congr 1
      omega
    rw [List.getElem?_map, List.getElem?_eq_getElem hlen] at hget
    exact Option.some.inj hget
  refine ⟨encodeSeg ((numbered L.closed)[L.deleted]).2, ?_⟩
  rw [Log.entries, List.drop_eq_getElem_cons hlen, List.map_cons, closedEntry, hfst]
  rfl

theorem pruned_create (L : Log) (hle : L.covered ≤ L.closed.length) :
    Log.pruned { L with closed := L.closed ++ [L.cur], cur := [] } = L.pruned := by
  simp only [Log.pruned]
  rw [List.take_append_of_le_length hle]

theorem pruned_deleteEmpty (L : Log) (hcovered : L.covered = L.deleted)
    (hempty : L.closed[L.deleted]? = some []) :
    Log.pruned { L with deleted := L.deleted + 1, covered := L.covered + 1 } = L.pruned := by
  simp only [Log.pruned]
  rw [hcovered, List.take_add_one, hempty]
  simp

theorem hist_create (L : Log) :
    Log.hist { L with closed := L.closed ++ [L.cur], cur := [] } = L.hist := by
  simp [Log.hist]

theorem hist_concat (L : Log) (r : StoredRecord) :
    Log.hist { L with cur := L.cur ++ [r], tail := [] } = L.hist ++ [r] := by
  simp only [Log.hist, List.append_assoc]

theorem hist_cut (L : Log) {kept rest : List StoredRecord} (hcur : L.cur = kept ++ rest) :
    L.hist = Log.hist { L with cur := kept, tail := [] } ++ rest := by
  simp only [Log.hist, hcur, List.append_assoc]

end Log

/-- **A described directory executes a step as the log takes it.** -/
theorem describes_apply {d : Dir} {L L' : Log} {s : FileStep} (hd : Describes d L)
    (h : L.Ok sha256) (hstep : Log.Step sha256 L s L') : Describes (d.apply s) L' := by
  cases hstep with
  | create htail hlisted =>
      have hle := h.deleted_le.trans h.covered_le
      have hkeys : L.index + 1 ∉ d.segs.entries.map Prod.fst := by
        rw [hd.entries, map_fst_entries hle, List.mem_range'_1, Log.index]
        omega
      constructor
      · change (d.segs.create _).entries = _
        rw [entries_create hkeys, hd.entries, Log.entries_create L htail hle]
      · rw [Log.pruned_create L h.covered_le]
        exact hd.checkpoint
      · rw [Log.hist_create]
        exact hd.head
  | checkpoint cp hlt hne hhead hcp =>
      constructor
      · exact hd.entries
      · change JsonFile.ok cp = JsonFile.ofOption (checkpointFor (L.closed.take (L.covered + 1)).flatten)
        rw [hcp]
        rfl
      · exact hd.head
  | delete hlt =>
      obtain ⟨bytes, hcons⟩ := L.entries_eq_cons (hlt.trans_le h.covered_le)
      constructor
      · exact entries_erase_first (hd.entries.trans hcons)
      · exact hd.checkpoint
      · exact hd.head
  | deleteEmpty hcovered hempty =>
      obtain ⟨hlt, hget⟩ := List.getElem?_eq_some_iff.mp hempty
      obtain ⟨bytes, hcons⟩ := L.entries_eq_cons hlt
      constructor
      · exact entries_erase_first (hd.entries.trans hcons)
      · rw [Log.pruned_deleteEmpty L hcovered hempty]
        exact hd.checkpoint
      · exact hd.head
  | byte b hb =>
      constructor
      · change (d.segs.modify _ _).entries = _
        rw [entries_modify_last _ hd.entries, List.append_assoc]
        rfl
      · exact hd.checkpoint
      · exact hd.head
  | line r htail hadm hhead =>
      constructor
      · change (d.segs.modify _ _).entries = _
        rw [entries_modify_last _ hd.entries, htail, List.append_assoc, ← encodeSeg_singleton,
          ← encodeSeg_append, Log.entries]
        simp only [List.append_nil]
        rfl
      · exact hd.checkpoint
      · rw [Log.hist_concat, List.take_append_of_le_length hhead.le]
        exact hd.head
  | cut kept rest hcur hhead =>
      constructor
      · change (d.segs.modify _ _).entries = _
        rw [entries_modify_last _ hd.entries, hcur, encodeSeg_append, List.append_assoc,
          List.take_left, Log.entries]
        simp only [List.append_nil]
        rfl
      · exact hd.checkpoint
      · have hlen : L.headAt ≤ (Log.hist { L with cur := kept, tail := [] }).length := by
          rw [Log.hist, List.length_append]
          exact hhead
        have hhead' := hd.head
        rw [Log.hist_cut L hcur, List.take_append_of_le_length hlen] at hhead'
        exact hhead'
  | head head hh =>
      constructor
      · exact hd.entries
      · exact hd.checkpoint
      · change JsonFile.ok head = JsonFile.ofOption (headFor (L.hist.take L.hist.length))
        rw [List.take_length, hh]
        rfl
  | torn name bytes => exact ⟨hd.entries, hd.checkpoint, hd.head⟩

/-- Pruned records are part of the history. -/
theorem Log.length_pruned_le (L : Log) : L.pruned.length ≤ L.hist.length := by
  rw [L.length_hist]
  exact Nat.le_add_right _ _

/-- **A step keeps the log well formed.** -/
theorem ok_step {L L' : Log} {s : FileStep} (hstep : Log.Step sha256 L s L') (h : L.Ok sha256) :
    L'.Ok sha256 := by
  cases hstep with
  | create htail hlisted =>
      have hhist := Log.hist_create L
      have hcovered := h.covered_le
      constructor
      · rw [hhist]; exact h.chain
      · exact h.deleted_le
      · simp only [List.length_append, List.length_singleton]
        omega
      · rw [hhist]; exact h.head_le
      · rw [hhist]; exact h.head_lag
      · rw [Log.pruned_create L hcovered]; exact h.pruned_le
      · intro i hi hlt
        simp only
        rw [List.getElem?_append_left (hlt.trans_le hcovered)]
        exact h.stale_ne i hi hlt
      · exact h.tail
      · simpa [Log.index] using hlisted
  | checkpoint cp hlt hne hhead hcp =>
      refine ⟨h.chain, h.deleted_le.trans (Nat.le_succ _), hlt, h.head_le, h.head_lag, ?_, ?_, h.tail,
        h.listed⟩
      · exact (Log.length_pruned_le _).trans hhead.ge
      · intro i hi hi'
        rcases Nat.lt_succ_iff_lt_or_eq.mp hi' with hi' | rfl
        · exact h.stale_ne i hi hi'
        · exact hne
  | delete hlt =>
      refine ⟨h.chain, hlt, h.covered_le, h.head_le, h.head_lag, h.pruned_le, ?_, h.tail, h.listed⟩
      intro i hi hi'
      exact h.stale_ne i (Nat.le_of_succ_le hi) hi'
  | deleteEmpty hcovered hempty =>
      obtain ⟨hlt, -⟩ := List.getElem?_eq_some_iff.mp hempty
      refine ⟨h.chain, Nat.succ_le_succ h.deleted_le, hcovered ▸ hlt, h.head_le, h.head_lag, ?_, ?_,
        h.tail, h.listed⟩
      · rw [Log.pruned_deleteEmpty L hcovered hempty]
        exact h.pruned_le
      · intro i hi hi'
        simp only [hcovered] at hi hi'
        omega
  | byte b hb =>
      refine ⟨h.chain, h.deleted_le, h.covered_le, h.head_le, h.head_lag, h.pruned_le, h.stale_ne, ?_,
        h.listed⟩
      simp only [List.mem_append, List.mem_singleton, not_or]
      exact ⟨h.tail, Ne.symm hb⟩
  | line r htail hadm hhead =>
      have hhist := Log.hist_concat L r
      refine ⟨?_, h.deleted_le, h.covered_le, ?_, ?_, h.pruned_le, h.stale_ne, List.not_mem_nil,
        h.listed⟩
      · rw [hhist]
        exact (recordChain sha256).accepts_concat.mpr ⟨h.chain, hadm⟩
      · rw [hhist, List.length_append]
        exact h.head_le.trans (Nat.le_add_right _ _)
      · rw [hhist, List.length_append, List.length_singleton]
        exact Nat.succ_le_succ hhead.ge
  | cut kept rest hcur hhead =>
      have hhist := Log.hist_cut L hcur
      have hchain := h.chain
      have hlag := h.head_lag
      rw [hhist] at hchain
      rw [hhist, List.length_append] at hlag
      refine ⟨hchain.left, h.deleted_le, h.covered_le, ?_, (Nat.le_add_right _ _).trans hlag,
        h.pruned_le, h.stale_ne, List.not_mem_nil, h.listed⟩
      rw [Log.hist, List.length_append]
      exact hhead
  | head head hh =>
      exact ⟨h.chain, h.deleted_le, h.covered_le, le_rfl, Nat.le_succ _, Log.length_pruned_le L,
        h.stale_ne, h.tail, h.listed⟩
  | torn name bytes => exact h

/-- A described, well-formed log stays one along a run of file steps. -/
theorem describes_steps {d : Dir} {L L' : Log} {steps : List FileStep}
    (hrun : Steps (Log.Step sha256) L steps L') (hd : Describes d L) (h : L.Ok sha256) :
    Describes (d.applyAll steps) L' ∧ L'.Ok sha256 := by
  have hsim : ∀ (d : Dir) (L : Log) (s : FileStep) (L' : Log), Describes d L ∧ L.Ok sha256 →
      Log.Step sha256 L s L' → Describes (d.apply s) L' ∧ L'.Ok sha256 := by
    rintro d L s L' ⟨hd, h⟩ hstep
    exact ⟨describes_apply hd h hstep, ok_step hstep h⟩
  exact Steps.simulates hsim hrun ⟨hd, h⟩

end AgentRuntime.Records
