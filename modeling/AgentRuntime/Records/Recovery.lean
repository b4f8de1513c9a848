import AgentRuntime.Records.Session

/-!
# `Records.Recovery` — opening what a crash left behind

Opening walks the directory, repairs it, and closes the decisions left open. Over a described log each
part has its own lemma: the walk accepts the log exactly when it is `Recoverable` (`walk_recover`,
`walk_lost`), the repairs bring it to rest without touching its history (`repairs_steps`), the memory
then follows it (`follows_openSegment`), and each closing is a call of the writer (`closeOpen_steps`).
`open_steps` puts them together.

A log is not recoverable when `HEAD` was not yet moved to the first record after CHECKPOINT: the first
record of all, or the first one after everything was pruned.
-/

namespace AgentRuntime.Records

open Transition Words

variable {sha256 : List UInt8 → Digest} (serde : Serde)

/-! ## Which logs are recoverable -/

/-- `HEAD` names the last record or a retained one. -/
def Log.Recoverable (L : Log) : Prop := L.headAt = L.hist.length ∨ L.pruned.length < L.headAt

/-- The log after the repairs. -/
def Log.repaired (L : Log) : Log :=
  { L with tail := [], deleted := L.covered, headAt := L.hist.length }

@[simp] theorem hist_repaired (L : Log) : L.repaired.hist = L.hist := rfl

section Walk

variable {L : Log} (h : L.Ok sha256)

include h

theorem Log.Ok.checkHead_recover (hr : L.Recoverable) :
    checkHead .recover (headFor (L.hist.take L.headAt)) (checkpointFor L.pruned)
      (L.retained.getLast?.map StoredRecord.tip)
      (hashAt (headFor (L.hist.take L.headAt)) L.retained)
      = .ok (decide (L.headAt < L.hist.length)) := by
  rcases hr with hcurrent | hretained
  · rw [hcurrent, h.checkHead_current, decide_eq_false (Nat.lt_irrefl _)]
  · exact h.checkHead_retained hretained h.head_le (Or.inl h.head_lag)

/-- `HEAD` lags behind the first retained record: recovery refuses the log. -/
theorem Log.Ok.checkHead_lost (hr : ¬ L.Recoverable) :
    ∃ e, checkHead .recover (headFor (L.hist.take L.headAt)) (checkpointFor L.pruned)
      (L.retained.getLast?.map StoredRecord.tip)
      (hashAt (headFor (L.hist.take L.headAt)) L.retained) = .error (.integrity e) := by
  obtain ⟨hne, hlow⟩ := not_or.mp hr
  have hlen := L.length_hist
  have hlag := h.head_lag
  have hle := h.head_le
  have hpruned := h.pruned_le
  obtain ⟨r, hlast, -, hseq, -⟩ := h.tip_eq (List.ne_nil_of_length_pos (by omega))
  rw [hlast]
  rcases Nat.eq_zero_or_pos L.headAt with hzero | hpos
  · -- the first record of all
    rw [hzero, List.take_zero]
    exact ⟨.headMissing, rfl⟩
  · -- `HEAD` names the record before the checkpoint
    rw [h.headFor_take hpos hle]
    simp only [Option.map_some, StoredRecord.tip, checkHead, h.floor_eq]
    rw [if_neg (by omega), if_pos ⟨by omega, by decide⟩]
    exact ⟨_, rfl⟩

end Walk

/-- What the recovery walk reports. -/
def Log.walked (L : Log) (segments : ℕ) : Walked :=
  walkedOf (checkpointFor L.pruned) segments L.retained (decide (L.headAt < L.hist.length))
    (tornMark .recover L.index L.cur L.tail) (staleIndices L.stale)

theorem walk_recover {d : Dir} {L : Log} (hd : Describes d L) (h : L.Ok sha256)
    (hr : L.Recoverable) :
    walk sha256 serde d.view .recover = .ok (L.walked d.view.segs.length, L.retained) := by
  rw [hd.walk_eq h (Or.inr (by decide)), h.checkHead_recover hr]
  rfl

theorem walk_lost {d : Dir} {L : Log} (hd : Describes d L) (h : L.Ok sha256)
    (hr : ¬ L.Recoverable) :
    ∃ e, walk sha256 serde d.view .recover = .error (.integrity e) := by
  obtain ⟨e, hcheck⟩ := h.checkHead_lost hr
  rw [hd.walk_eq h (Or.inr (by decide)), hcheck]
  exact ⟨e, rfl⟩

/-! ## Repairs -/

/-- An incomplete line is put aside and cut off. -/
theorem quarantine_steps (d : Dir) {L : Log} (h : L.Ok sha256) :
    Log.StepsIn sha256 (· = L.hist) L
      (match tornMark .recover L.index L.cur L.tail with
        | some (index, off, _) => quarantineTorn d index off
        | none => [])
      { L with tail := [] } := by
  by_cases htail : L.tail = []
  · have hsame : ({ L with tail := [] } : Log) = L := by rw [← htail]
    rw [hsame, htail]
    exact .nil L
  · have hmark : tornMark .recover L.index L.cur L.tail
        = some (L.index, (encodeSeg L.cur).length, L.tail.length) := by
      simp [tornMark, tornOf, htail]
    have hhead : L.headAt ≤ L.closed.flatten.length + L.cur.length := by
      rw [← List.length_append]
      exact h.head_le
    rw [hmark]
    refine .cons ⟨.torn L _ _, rfl⟩ (.single ⟨?_, rfl⟩)
    exact .cut L L.cur [] (List.append_nil _).symm hhead

theorem staleIndices_stale {L : Log} (h : L.Ok sha256) :
    staleIndices L.stale = List.range' (L.deleted + 1) (L.covered - L.deleted) := by
  have hall : L.stale.filter (fun s => !s.2.isEmpty) = L.stale := by
    apply List.filter_eq_self.mpr
    intro s hs
    obtain ⟨i, hi, rfl⟩ := List.getElem_of_mem hs
    have hlen : L.deleted + i < L.covered := by
      simp only [Log.stale, List.length_drop, List.length_take] at hi
      omega
    have hget : L.closed[L.deleted + i]? = some (L.stale[i]).2 := by
      rw [← map_snd_numbered L.closed, List.getElem?_map]
      simp only [Log.stale, List.getElem_drop, List.getElem_take]
      rw [List.getElem?_eq_getElem]
      rfl
    have hne := h.stale_ne _ (Nat.le_add_right _ i) hlen
    rw [hget] at hne
    simpa using hne
  rw [staleIndices, hall, Log.stale, List.map_drop, List.map_take, map_fst_numbered,
    List.take_range'_of_length_ge h.covered_le, List.drop_range', Nat.mul_one, Nat.add_comm 1]

/-- The segments CHECKPOINT stands for are deleted. -/
theorem delete_steps (L : Log) (n : ℕ) (hn : L.deleted + n ≤ L.covered) :
    Log.StepsIn sha256 (· = L.hist) L ((List.range' (L.deleted + 1) n).map FileStep.deleteSeg)
      { L with deleted := L.deleted + n } := by
  induction n generalizing L with
  | zero => exact .nil L
  | succ n ih =>
      rw [List.range'_succ, List.map_cons]
      have hrest := ih { L with deleted := L.deleted + 1 } (by simp only; omega)
      rw [show L.deleted + (n + 1) = L.deleted + 1 + n from by omega]
      exact .cons ⟨.delete L (by omega), rfl⟩ hrest

/-- A lagging `HEAD` moves to the last record. -/
theorem head_steps {L : Log} (h : L.Ok sha256) (hr : L.Recoverable) :
    Log.StepsIn sha256 (· = L.hist) L
      (if decide (L.headAt < L.hist.length) then
        match L.retained.getLast?.map StoredRecord.tip with
        | some (seq, hash, _) => [.replaceHead { seq := seq, hash := hash }]
        | none => []
      else [])
      { L with headAt := L.hist.length } := by
  by_cases hlag : L.headAt < L.hist.length
  · have hlow : L.pruned.length < L.headAt := hr.resolve_left hlag.ne
    have hlen := L.length_hist
    obtain ⟨r, hlast, hhist, -, -⟩ := h.tip_eq (List.ne_nil_of_length_pos (by omega))
    rw [decide_eq_true hlag, hlast]
    refine .single ⟨.head L _ ?_, rfl⟩
    rw [headFor, hhist]
    rfl
  · have hcurrent : L.hist.length = L.headAt := by
      have := h.head_le
      omega
    rw [decide_eq_false hlag, hcurrent]
    exact .nil L

/-- **The repairs bring the log to rest**, with the same history. -/
theorem repairs_steps (d : Dir) {L : Log} (h : L.Ok sha256) (hr : L.Recoverable) (n : ℕ) :
    Log.StepsIn sha256 (· = L.hist) L (repairs d (L.walked n)) L.repaired := by
  have hquarantine := quarantine_steps d h
  have hok : ({ L with tail := [] } : Log).Ok sha256 := by
    exact ⟨h.chain, h.deleted_le, h.covered_le, h.head_le, h.head_lag, h.pruned_le, h.stale_ne,
      List.not_mem_nil, h.listed⟩
  have hdelete : Log.StepsIn sha256 (· = L.hist) { L with tail := [] }
      ((List.range' (L.deleted + 1) (L.covered - L.deleted)).map FileStep.deleteSeg)
      { L with tail := [], deleted := L.deleted + (L.covered - L.deleted) } :=
    delete_steps { L with tail := [] } _ (Nat.add_sub_cancel' h.deleted_le).le
  rw [Nat.add_sub_cancel' h.deleted_le] at hdelete
  have hok' : ({ L with tail := [], deleted := L.covered } : Log).Ok sha256 := by
    exact ⟨h.chain, le_rfl, h.covered_le, h.head_le, h.head_lag, h.pruned_le,
      fun i hi hi' => absurd hi' (Nat.not_lt.mpr hi), List.not_mem_nil, h.listed⟩
  have hhead := head_steps hok' hr
  refine hquarantine.append ?_
  simp only [Log.walked, walkedOf, staleIndices_stale h]
  exact hdelete.append hhead

/-! ## The memory over the repaired log -/

/-- The position after `rs` is that of its last record. -/
theorem afterAll_getLast (c : Cursor) (rs : List StoredRecord) :
    ((c.afterAll rs).nextSeq, (c.afterAll rs).prev, (c.afterAll rs).lastTs) =
      match rs.getLast? with
      | some r => (r.record.seq + 1, r.hash, r.record.tsMs)
      | none => (c.nextSeq, c.prev, c.lastTs) := by
  rcases List.eq_nil_or_concat rs with rfl | ⟨init, r, rfl⟩
  · rfl
  · rw [List.concat_eq_append, afterAll_concat, List.getLast?_concat]
    rfl

theorem resumeAt_walked (L : Log) (n : ℕ) :
    resumeAt (L.walked n) = (L.cursor.nextSeq, L.cursor.prev, L.cursor.lastTs) := by
  have hcursor : (cursorOf (checkpointFor L.pruned)).afterAll L.retained = L.cursor := by
    rw [cursorOf_checkpointFor, ← afterAll_append, L.pruned_append_retained, Log.cursor]
  have hlast := afterAll_getLast (cursorOf (checkpointFor L.pruned)) L.retained
  rw [hcursor] at hlast
  rw [hlast, resumeAt, Log.walked, walkedOf]
  cases L.retained.getLast? with
  | some r => rfl
  | none => cases checkpointFor L.pruned <;> rfl

theorem openSet_walked (L : Log) (n : ℕ) : (L.walked n).openSet = L.cursor.openSet :=
  openSet_retained L

theorem get?_current {d : Dir} {L : Log} (hd : Describes d L) :
    d.segs.get? L.index = some (encodeSeg L.cur ++ L.tail) := by
  have hmem : (L.index, encodeSeg L.cur ++ L.tail) ∈ d.segs.entries := by
    rw [hd.entries]
    exact List.mem_append_right _ List.mem_cons_self
  exact lookup_of_nodup d.segs.nodup hmem

/-- Opening the current segment of a log at rest writes nothing, and the memory follows the log. -/
theorem openSegment_repaired {d : Dir} {L : Log} (hd : Describes d L.repaired)
    (h : L.repaired.Ok sha256) (n : ℕ) :
    (openSegment d (L.walked n)).2 = [] ∧ (openSegment d (L.walked n)).1.Follows L.repaired := by
  have hle := h.covered_le
  have hlist : listSegments d = List.range' (L.covered + 1) (L.closed.length - L.covered + 1) := by
    rw [listSegments_describes hd h]
    show List.range' (L.covered + 1) (L.closed.length + 1 - L.covered) = _
    congr 1
    exact Nat.succ_sub hle
  have hindex : (listSegments d).getLast?.getD 1 = L.index := by
    rw [hlist, List.range'_concat, List.getLast?_concat, Log.index]
    show L.covered + 1 + 1 * (L.closed.length - L.covered) = L.closed.length + 1
    have : L.covered ≤ L.closed.length := hle
    omega
  have hget := get?_current hd
  have hcontains : d.segs.contains L.index = true := by
    rw [SegFiles.contains_iff, hd.entries]
    exact List.mem_map.mpr ⟨_, List.mem_append_right _ List.mem_cons_self, rfl⟩
  have hresume := resumeAt_walked L n
  constructor
  · simp only [openSegment, hindex, if_pos hcontains]
  · constructor
    · exact hindex
    · simp only [openSegment, hindex, if_pos hcontains, applyAll_nil]
      rw [show L.index = L.repaired.index from rfl, hget]
      simp [Log.repaired]
    · show max (listSegments d).length 1 = L.closed.length + 1 - L.covered
      rw [hlist, List.length_range', max_eq_left (Nat.succ_pos _)]
      exact (Nat.succ_sub hle).symm
    · show (resumeAt (L.walked n)).1 = L.cursor.nextSeq
      rw [hresume]
    · show (resumeAt (L.walked n)).2.1 = L.cursor.prev
      rw [hresume]
    · show (resumeAt (L.walked n)).2.2 = L.cursor.lastTs
      rw [hresume]
    · exact openSet_walked L n
    · rfl
    · exact ⟨rfl, rfl, rfl⟩

/-! ## Closing what was left open -/

/-- The record closes decision `seq` on recovery. -/
structure StoredRecord.ClosedOnRecovery (r : StoredRecord) (seq : ℕ) : Prop where
  actor : r.record.actor = recoveryActor
  entry : r.record.entry = .outcome (unknownOutcome seq)

/-- The records recovery adds to the history `before`. -/
def Closings (before after : List StoredRecord) : Prop :=
  ∃ closings, after = before ++ closings ∧ ∀ r ∈ closings, ∃ seq, r.ClosedOnRecovery seq

theorem Closings.refl (before : List StoredRecord) : Closings before before :=
  ⟨[], (List.append_nil _).symm, fun _ hr => absurd hr List.not_mem_nil⟩

theorem Closings.trans {a b c : List StoredRecord} (hab : Closings a b) (hbc : Closings b c) :
    Closings a c := by
  obtain ⟨cs, rfl, hcs⟩ := hab
  obtain ⟨ds, rfl, hds⟩ := hbc
  refine ⟨cs ++ ds, List.append_assoc _ _ _, ?_⟩
  intro r hr
  rcases List.mem_append.mp hr with hr | hr
  · exact hcs r hr
  · exact hds r hr

/-- The call that closes decision `seq`. -/
def closingCall (now seq : ℕ) : Call where
  now := now
  actor := recoveryActor
  entry := .outcome (unknownOutcome seq)
  fault := .none

/-- A closing that returns `Ok` is followed by the rest. -/
theorem closeOpen_cons {cfg : LogConfig} {clock : ℕ → ℕ} {i seq : ℕ} (rest : List ℕ) {g : Inner}
    {d : Dir} {receipt : Receipt}
    (hok : (record sha256 serde cfg g d (closingCall (clock i) seq)).result = .ok receipt) :
    closeOpen sha256 serde cfg clock i (seq :: rest) g d =
      let closed := record sha256 serde cfg g d (closingCall (clock i) seq)
      let more := closeOpen sha256 serde cfg clock (i + 1) rest closed.inner
        (d.applyAll closed.steps)
      { result := more.result.map (seq :: ·)
        inner := more.inner
        steps := closed.steps ++ more.steps } := by
  have hrecord : record sha256 serde cfg g d (closingCall (clock i) seq) =
      recordOutcome sha256 serde cfg g d (clock i) recoveryActor (unknownOutcome seq) .none := by
    rw [record, closingCall]
  rw [hrecord] at hok ⊢
  rw [closeOpen]
  simp only [hok]

/-- The rotations of the closings start segments whose names read back. -/
def ClosingsListed (sha256 : List UInt8 → Digest) (cfg : LogConfig) (clock : ℕ → ℕ) :
    ℕ → List ℕ → Inner → Dir → Prop
  | _, [], _, _ => True
  | i, seq :: rest, g, d =>
      RotationListed sha256 cfg g (closingCall (clock i) seq) ∧
        ClosingsListed sha256 cfg clock (i + 1) rest
          (record sha256 serde cfg g d (closingCall (clock i) seq)).inner
          (d.applyAll (record sha256 serde cfg g d (closingCall (clock i) seq)).steps)

theorem validateActor_recovery : validateActor recoveryActor = .ok () := by decide +kernel

theorem validateEntry_unknown (seq : ℕ) : validateEntry (.outcome (unknownOutcome seq)) = .ok () := by
  have h : validateEntry (.outcome (unknownOutcome 0)) = .ok () := by decide +kernel
  exact h

/-- A closing of an open decision is accepted. -/
theorem accepted_closing {g : Inner} (hfailed : g.failed = false) {seq : ℕ} (hopen : seq ∈ g.openSet)
    (now : ℕ) : Accepted g (closingCall now seq) := by
  refine ⟨hfailed, validateActor_recovery, validateEntry_unknown seq, ?_⟩
  show (if seq ∈ g.openSet then none else some seq) = none
  rw [if_pos hopen]

theorem cursor_of_hist {L L' : Log} {rs : List StoredRecord} (h : L'.hist = L.hist ++ rs) :
    L'.cursor = L.cursor.afterAll rs := by
  rw [Log.cursor, h, afterAll_append, Log.cursor]

/-- A closing leaves the other decisions open. -/
theorem openSet_after_closing {L L' : Log} {r : StoredRecord} {seq : ℕ}
    (hhist : L'.hist = L.hist ++ [r]) (hr : r.ClosedOnRecovery seq) :
    L'.cursor.openSet = L.cursor.openSet.erase seq := by
  rw [cursor_of_hist hhist, afterAll_cons, afterAll_nil, after_openSet, openAfter, hr.entry]
  rfl

theorem open_after_closing {L L' : Log} {r : StoredRecord} {seq : ℕ} {rest : List ℕ}
    (hhist : L'.hist = L.hist ++ [r]) (hr : r.ClosedOnRecovery seq)
    (hopen : ∀ other ∈ seq :: rest, other ∈ L.cursor.openSet) (hnot : seq ∉ rest) :
    ∀ other ∈ rest, other ∈ L'.cursor.openSet := by
  intro other hother
  rw [openSet_after_closing hhist hr]
  refine Finset.mem_erase.mpr ⟨?_, hopen other (List.mem_cons_of_mem _ hother)⟩
  rintro rfl
  exact hnot hother

theorem closedOnRecovery_stored (g : Inner) (now seq : ℕ) :
    ((closingCall now seq).stored sha256 g).ClosedOnRecovery seq := ⟨rfl, rfl⟩

/-- Closings of a log with room for them start segments whose names read back. -/
theorem closingsListed_of_lt {cfg : LogConfig} (hmax : ∀ max, cfg.maxSegments = some max → 1 ≤ max)
    (clock : ℕ → ℕ) {seqs : List ℕ} (hnodup : seqs.Nodup) {i : ℕ} {g : Inner} {d : Dir} {L : Log}
    (hd : Describes d L) (h : L.Ok sha256) (hf : g.Follows L)
    (hopen : ∀ seq ∈ seqs, seq ∈ L.cursor.openSet) (hlt : L.index + seqs.length < segNameBound) :
    ClosingsListed serde sha256 cfg clock i seqs g d := by
  induction seqs generalizing i g d L with
  | nil => trivial
  | cons seq rest ih =>
      obtain ⟨hnot, hrest⟩ := List.nodup_cons.mp hnodup
      rw [List.length_cons] at hlt
      have hseq : seq ∈ g.openSet := by
        rw [hf.openSet]
        exact hopen seq List.mem_cons_self
      have hrotation : RotationListed sha256 cfg g (closingCall (clock i) seq) := by
        intro _ _
        rw [hf.segIndex]
        exact (Nat.add_le_add_left (Nat.le_add_left 1 _) _).trans_lt hlt
      have hacc := accepted_closing hf.failed hseq (clock i)
      obtain ⟨L₁, hrun, -, hf₁, hhist⟩ := record_appends serde hmax hd h hf hacc rfl hrotation
      obtain ⟨-, hindex⟩ := record_ok serde hmax hd h hf hacc rfl hrotation
      obtain ⟨hd₁, h₁⟩ := describes_steps hrun.steps hd h
      have hle : L₁.index ≤ L.index + 1 := by
        rw [← hf₁.segIndex, hindex, hf.segIndex]
        split <;> omega
      have hopen₁ := open_after_closing hhist (closedOnRecovery_stored g (clock i) seq) hopen hnot
      exact ⟨hrotation, ih hrest hd₁ h₁ hf₁ hopen₁ (by omega)⟩

/-- **The closings are appended in order**, one for each open decision. -/
theorem closeOpen_steps {cfg : LogConfig} (hmax : ∀ max, cfg.maxSegments = some max → 1 ≤ max)
    (clock : ℕ → ℕ) {seqs : List ℕ} (hnodup : seqs.Nodup) {i : ℕ} {g : Inner} {d : Dir} {L : Log}
    (hd : Describes d L) (h : L.Ok sha256) (hf : g.Follows L)
    (hopen : ∀ seq ∈ seqs, seq ∈ L.cursor.openSet)
    (hlisted : ClosingsListed serde sha256 cfg clock i seqs g d) :
    ∃ L' closings,
      Log.StepsIn sha256 (Closings L.hist) L (closeOpen sha256 serde cfg clock i seqs g d).steps L' ∧
      (closeOpen sha256 serde cfg clock i seqs g d).result = .ok seqs ∧
      (closeOpen sha256 serde cfg clock i seqs g d).inner.Follows L' ∧
      L'.hist = L.hist ++ closings ∧
      List.Forall₂ StoredRecord.ClosedOnRecovery closings seqs := by
  induction seqs generalizing i g d L with
  | nil => exact ⟨L, [], .nil L, rfl, hf, (List.append_nil _).symm, .nil⟩
  | cons seq rest ih =>
      obtain ⟨hnot, hrest⟩ := List.nodup_cons.mp hnodup
      obtain ⟨hrotation, hmore⟩ := hlisted
      have hseq : seq ∈ g.openSet := by
        rw [hf.openSet]
        exact hopen seq List.mem_cons_self
      obtain ⟨L₁, hrun, hok, hf₁, hhist⟩ := record_appends serde hmax hd h hf
        (accepted_closing hf.failed hseq (clock i)) rfl hrotation
      obtain ⟨hd₁, h₁⟩ := describes_steps hrun.steps hd h
      have hclosed : ((closingCall (clock i) seq).stored sha256 g).ClosedOnRecovery seq :=
        closedOnRecovery_stored g (clock i) seq
      have hopen₁ := open_after_closing hhist hclosed hopen hnot
      obtain ⟨L', closings, hrun', hresult, hf', hhist', hclosings⟩ :=
        ih hrest hd₁ h₁ hf₁ hopen₁ hmore
      have hone : Closings L.hist L₁.hist := by
        refine ⟨[_], hhist, ?_⟩
        intro r hr
        rw [List.mem_singleton.mp hr]
        exact ⟨seq, hclosed⟩
      have hwhile : ∀ rs, L.Appending ((closingCall (clock i) seq).stored sha256 g) rs →
          Closings L.hist rs := by
        rintro rs (rfl | rfl)
        · exact .refl _
        · exact hhist ▸ hone
      refine ⟨L', (closingCall (clock i) seq).stored sha256 g :: closings, ?_, ?_, ?_, ?_, ?_⟩
      · rw [closeOpen_cons serde rest hok]
        exact (hrun.weaken hwhile).append (hrun'.weaken fun _ hrs => hone.trans hrs)
      · rw [closeOpen_cons serde rest hok]
        simp only [hresult]
        rfl
      · rw [closeOpen_cons serde rest hok]
        exact hf'
      · rw [hhist', hhist, List.append_assoc]
        rfl
      · exact .cons hclosed hclosings

/-- The closings empty the open set. -/
theorem openSet_closings {c : Cursor} {closings : List StoredRecord} {seqs : List ℕ}
    (h : List.Forall₂ StoredRecord.ClosedOnRecovery closings seqs) :
    (c.afterAll closings).openSet = c.openSet \ seqs.toFinset := by
  induction h generalizing c with
  | nil => simp
  | @cons r seq closings seqs hr _ ih =>
      have hafter : (c.after r).openSet = c.openSet.erase seq := by
        rw [after_openSet, openAfter, hr.entry]
        rfl
      rw [afterAll_cons, ih, hafter, List.toFinset_cons, Finset.erase_sdiff_comm,
        Finset.sdiff_insert]

/-! ## Opening -/

/-- The rotations made while opening `d` start segments whose names read back. -/
def OpeningListed (sha256 : List UInt8 → Digest) (cfg : LogConfig) (d : Dir) (clock : ℕ → ℕ) :
    Prop :=
  ∀ w visited, walk sha256 serde d.view .recover = .ok (w, visited) →
    ClosingsListed serde sha256 cfg.clamped clock 0 (w.openSet.sort (· ≤ ·))
      (openSegment (d.applyAll (repairs d w)) w).1
      ((d.applyAll (repairs d w)).applyAll (openSegment (d.applyAll (repairs d w)) w).2)

/-- **Opening recovers the log**: nothing is lost, and every decision left open is closed. -/
theorem open_steps {cfg : LogConfig} {d : Dir} {L : Log} (hd : Describes d L) (h : L.Ok sha256)
    (hr : L.Recoverable) {clock : ℕ → ℕ} (hlisted : OpeningListed serde sha256 cfg d clock) :
    ∃ g report L' closings,
      (openWithClock sha256 serde cfg d clock).result = .ok (g, report) ∧
      Log.StepsIn sha256 (Closings L.hist) L (openWithClock sha256 serde cfg d clock).steps L' ∧
      g.Follows L' ∧ L'.hist = L.hist ++ closings ∧
      List.Forall₂ StoredRecord.ClosedOnRecovery closings report.markedUnknown ∧
      report.markedUnknown = L.cursor.openSet.sort (· ≤ ·) ∧ L'.cursor.openSet = ∅ := by
  have hwalk := walk_recover serde hd h hr
  have hclosings := hlisted _ _ hwalk
  have hrepairs := repairs_steps d h hr d.view.segs.length
  obtain ⟨hd₁, h₁⟩ := describes_steps hrepairs.steps hd h
  obtain ⟨hnothing, hf₁⟩ := openSegment_repaired hd₁ h₁ d.view.segs.length
  rw [hnothing, applyAll_nil, openSet_walked] at hclosings
  have hopen : ∀ seq ∈ L.cursor.openSet.sort (· ≤ ·), seq ∈ L.repaired.cursor.openSet := by
    intro seq hseq
    exact (Finset.mem_sort _).mp hseq
  obtain ⟨L', closings, hrun, hresult, hf', hhist, hclosed⟩ :=
    closeOpen_steps serde (one_le_of_clamped cfg) clock (Finset.sort_nodup _ _) hd₁ h₁ hf₁ hopen
      hclosings
  have hopened : openWithClock sha256 serde cfg d clock =
      { result := .ok ((closeOpen sha256 serde cfg.clamped clock 0 (L.cursor.openSet.sort (· ≤ ·))
            (openSegment (d.applyAll (repairs d (L.walked d.view.segs.length)))
              (L.walked d.view.segs.length)).1
            (d.applyAll (repairs d (L.walked d.view.segs.length)))).inner,
          { tornTailBytes := ((L.walked d.view.segs.length).torn.map fun t => t.2.2).getD 0
            headRepaired := (L.walked d.view.segs.length).headLag &&
              (L.walked d.view.segs.length).tip.isSome
            markedUnknown := L.cursor.openSet.sort (· ≤ ·)
            staleSegmentsRemoved := (L.walked d.view.segs.length).staleSegments.length })
        steps := repairs d (L.walked d.view.segs.length) ++
          (closeOpen sha256 serde cfg.clamped clock 0 (L.cursor.openSet.sort (· ≤ ·))
            (openSegment (d.applyAll (repairs d (L.walked d.view.segs.length)))
              (L.walked d.view.segs.length)).1
            (d.applyAll (repairs d (L.walked d.view.segs.length)))).steps } := by
    rw [openWithClock, hwalk]
    simp only [hnothing, applyAll_nil, openSet_walked, hresult, List.nil_append]
    rfl
  have hcursor : L'.cursor.openSet = ∅ := by
    rw [cursor_of_hist hhist, openSet_closings hclosed, Finset.sort_toFinset]
    exact Finset.sdiff_self _
  rw [hopened]
  refine ⟨_, _, L', closings, rfl, ?_, hf', hhist, hclosed, rfl, hcursor⟩
  exact (hrepairs.weaken fun rs hrs => hrs ▸ Closings.refl _).append hrun

/-- A log with room for the closings opens within the listed segments. -/
theorem openingListed_of_lt {cfg : LogConfig} {d : Dir} {L : Log} (hd : Describes d L)
    (h : L.Ok sha256) (clock : ℕ → ℕ) (hlt : L.index + L.cursor.openSet.card < segNameBound) :
    OpeningListed serde sha256 cfg d clock := by
  intro w visited hwalk
  by_cases hr : L.Recoverable
  · rw [walk_recover serde hd h hr] at hwalk
    obtain ⟨rfl, -⟩ := Prod.mk.inj (Except.ok.inj hwalk)
    have hrepairs := repairs_steps d h hr d.view.segs.length
    obtain ⟨hd₁, h₁⟩ := describes_steps hrepairs.steps hd h
    obtain ⟨hnothing, hf₁⟩ := openSegment_repaired hd₁ h₁ d.view.segs.length
    rw [hnothing, applyAll_nil, openSet_walked]
    refine closingsListed_of_lt serde (one_le_of_clamped cfg) clock (Finset.sort_nodup _ _) hd₁ h₁
      hf₁ ?_ ?_
    · intro seq hseq
      exact (Finset.mem_sort _).mp hseq
    · rw [Finset.length_sort]
      exact hlt
  · obtain ⟨e, hlost⟩ := walk_lost serde hd h hr
    rw [hlost] at hwalk
    cases hwalk

/-- A log that is not recoverable is refused, and the directory is left as it is. -/
theorem open_lost {cfg : LogConfig} {d : Dir} {L : Log} (hd : Describes d L) (h : L.Ok sha256)
    (hr : ¬ L.Recoverable) (clock : ℕ → ℕ) :
    ∃ e, openWithClock sha256 serde cfg d clock = { result := .error (.integrity e), steps := [] } := by
  obtain ⟨e, hwalk⟩ := walk_lost serde hd h hr
  refine ⟨e, ?_⟩
  rw [openWithClock, hwalk]

end AgentRuntime.Records
