import AgentRuntime.Records.Seg

/-!
# `Records.Walk` — what the walk accepts

The loop over records is the acceptor `recordChain` (`walkRecord_eq_ok_iff`), so a segment's fold is
`Accepts` plus `pushAll`. Two results about the whole loop: whatever it accepts is a chain
(`walk_sound`, for any directory), and a view that lays a chain out in segments, behind stale ones and
before at most one incomplete line, is accepted and read back exactly (`walk_laidOut`).
-/

namespace AgentRuntime.Records

open Words

/-! ## Segment names read back -/

theorem ofDigitChars_pad8 (index : ℕ) : Nat.ofDigitChars 10 (pad8 index) 0 = index := by
  have hzero : ∀ (k : ℕ) (ds : List Char),
      Nat.ofDigitChars 10 (List.replicate k '0' ++ ds) 0 = Nat.ofDigitChars 10 ds 0 := by
    intro k ds
    induction k with
    | zero => rfl
    | succ k ih =>
        rw [List.replicate_succ, List.cons_append, ← ih]
        rfl
  rw [pad8, hzero, Nat.ofDigitChars_ten_toDigits]

theorem length_pad8_eq_iff {index : ℕ} : (pad8 index).length = 8 ↔ index < segNameBound := by
  have hle : (Nat.toDigits 10 index).length ≤ 8 ↔ index < segNameBound :=
    Nat.length_toDigits_le_iff (by norm_num) (by norm_num)
  rw [← hle, pad8, List.length_append, List.length_replicate]
  omega

theorem all_isDigit_pad8 (index : ℕ) : (pad8 index).all Char.isDigit = true := by
  rw [List.all_eq_true]
  intro c hc
  rcases List.mem_append.mp hc with hc | hc
  · rw [List.eq_of_mem_replicate hc]
    rfl
  · exact Nat.isDigit_of_mem_toDigits (by norm_num) (by norm_num) hc

theorem segNameBound_lt_u32Bound : segNameBound < u32Bound := by decide

/-- **A segment name reads back exactly below `segNameBound`**: from there on the padded index has
    nine digits, and `parse_seg_name` wants eight. -/
theorem parseSegName_segName (index : ℕ) :
    parseSegName (segName index) = if index < segNameBound then some index else none := by
  have hprefix : ("seg-".toList ++ (pad8 index ++ ".jsonl".toList)).dropPrefix? "seg-".toList
      = some (pad8 index ++ ".jsonl".toList) :=
    List.dropPrefix?_append_of_beq _ (beq_self_eq_true _)
  have hsuffix : (pad8 index ++ ".jsonl".toList).dropSuffix? ".jsonl".toList = some (pad8 index) :=
    List.dropSuffix?_eq_some_iff.mpr ⟨_, rfl, beq_self_eq_true _⟩
  rw [parseSegName, segName, String.toList_ofList, hprefix, Option.bind_some, hsuffix,
    Option.bind_some]
  simp only [length_pad8_eq_iff, all_isDigit_pad8, and_true]
  by_cases h : index < segNameBound
  · have hu : index < u32Bound := h.trans segNameBound_lt_u32Bound
    simp only [h, if_true, parseU32, ofDigitChars_pad8, hu]
  · simp only [h, if_false]

/-! ## The bytes of a segment -/

/-- The segment file of `records`: one line each. -/
def encodeSeg (records : List StoredRecord) : List UInt8 :=
  records.flatMap fun r => r.toVec ++ [10]

@[simp] theorem encodeSeg_nil : encodeSeg [] = [] := rfl

theorem encodeSeg_append (rs ss : List StoredRecord) :
    encodeSeg (rs ++ ss) = encodeSeg rs ++ encodeSeg ss := List.flatMap_append

theorem encodeSeg_cons (r : StoredRecord) (rs : List StoredRecord) :
    encodeSeg (r :: rs) = r.toVec ++ 10 :: encodeSeg rs := by
  simp [encodeSeg, List.flatMap_cons]

@[simp] theorem encodeSeg_singleton (r : StoredRecord) : encodeSeg [r] = r.toVec ++ [10] := by
  simp [encodeSeg]

theorem splitLines_line {line rest : List UInt8} (h : (10 : UInt8) ∉ line) :
    splitLines (line ++ 10 :: rest) = (line :: (splitLines rest).1, (splitLines rest).2) := by
  induction line with
  | nil => rfl
  | cons b line ih =>
      rw [List.mem_cons, not_or] at h
      rw [List.cons_append, splitLines, if_neg (Ne.symm h.1), ih h.2]

theorem splitLines_tail {tail : List UInt8} (h : (10 : UInt8) ∉ tail) :
    splitLines tail = ([], tail) := by
  induction tail with
  | nil => rfl
  | cons b tail ih =>
      rw [List.mem_cons, not_or] at h
      rw [splitLines, if_neg (Ne.symm h.1), ih h.2]

theorem splitLines_encodeSeg (rs : List StoredRecord) {tail : List UInt8} (h : (10 : UInt8) ∉ tail) :
    splitLines (encodeSeg rs ++ tail) = (rs.map StoredRecord.toVec, tail) := by
  induction rs with
  | nil => exact splitLines_tail h
  | cons r rs ih =>
      rw [encodeSeg_cons, List.append_assoc, List.cons_append,
        splitLines_line (newline_not_mem_toVec r), ih, List.map_cons]

theorem parseLines_toVec (serde : Serde) (segment : String) (lineNo : ℕ) (rs : List StoredRecord) :
    parseLines serde segment lineNo (rs.map StoredRecord.toVec) = .ok rs := by
  induction rs generalizing lineNo with
  | nil => rfl
  | cons r rs ih =>
      rw [List.map_cons, parseLines, serde.fromSlice_toVec]
      simp only [ih, bind, Except.bind, pure, Except.pure]

/-- The torn line `read_segment` reports after `records`. -/
def tornOf (records : List StoredRecord) (tail : List UInt8) : Option (ℕ × ℕ) :=
  if tail.isEmpty then none else some ((encodeSeg records).length, tail.length)

/-- **What was written is read back**, with the incomplete line after it reported. -/
theorem readSegment_encodeSeg (serde : Serde) (index : ℕ) (rs : List StoredRecord)
    {tail : List UInt8} (h : (10 : UInt8) ∉ tail) :
    readSegment serde index (some (encodeSeg rs ++ tail)) =
      .ok { records := rs, torn := tornOf rs tail } := by
  have hlen : (encodeSeg rs ++ tail).length - tail.length = (encodeSeg rs).length := by
    rw [List.length_append, Nat.add_sub_cancel]
  simp only [readSegment, splitLines_encodeSeg rs h, parseLines_toVec, bind, Except.bind, pure,
    Except.pure, hlen, tornOf]

theorem readSegment_encodeSeg_whole (serde : Serde) (index : ℕ) (rs : List StoredRecord) :
    readSegment serde index (some (encodeSeg rs)) = .ok { records := rs, torn := none } := by
  have hnil : (10 : UInt8) ∉ [] := List.not_mem_nil
  have h := readSegment_encodeSeg serde index rs hnil
  rw [List.append_nil] at h
  exact h

/-! ## The records of the walk are an acceptor -/

/-- The position the walk's variables hold. -/
def WalkState.cursor (st : WalkState) : Cursor :=
  { nextSeq := st.expectSeq, prev := st.prev, lastTs := st.lastTs, openSet := st.w.openSet }

/-- Visit a record that was admitted. -/
def WalkState.visit (head : Option Head) (st : WalkState) (r : StoredRecord) : WalkState :=
  st.push head (openAfter st.w.openSet r.record) r

theorem cursor_visit (head : Option Head) (st : WalkState) (r : StoredRecord) :
    (st.visit head r).cursor = st.cursor.after r := rfl

variable {sha256 : List UInt8 → Digest} {serde : Serde}

theorem checkEntry_eq_ok_iff {openSet s : Finset ℕ} {b : RecordBody} :
    checkEntry openSet b = .ok s ↔
      validateEntry b.entry = .ok () ∧ (∀ o, b.entry = .outcome o → o.decisionSeq ∈ openSet) ∧
        s = openAfter openSet b := by
  unfold checkEntry openAfter
  cases hentry : b.entry with
  | decision d =>
      cases hv : validateDecision d with
      | error e => simp [validateEntry, hv]
      | ok u =>
          simp only [validateEntry, hv, Except.ok.injEq, reduceCtorEq, false_implies, implies_true,
            true_and]
          exact eq_comm
  | outcome o =>
      cases hv : validateOutcome o with
      | error e => simp [validateEntry, hv]
      | ok u =>
          by_cases hmem : o.decisionSeq ∈ openSet
          · simp only [validateEntry, hv, hmem, if_true, Except.ok.injEq, true_and]
            constructor
            · rintro rfl
              refine ⟨?_, rfl⟩
              rintro _ h
              rw [← Entry.outcome.inj h]
              exact hmem
            · rintro ⟨-, rfl⟩
              rfl
          · simp [validateEntry, hv, hmem]

/-- **One record is accepted exactly when it follows.** -/
theorem walkRecord_eq_ok_iff {head : Option Head} {checkpoint : Option Checkpoint}
    {st st' : WalkState} {r : StoredRecord} :
    walkRecord sha256 head checkpoint st r = .ok st' ↔
      st.cursor.Admits sha256 r ∧ st' = st.visit head r := by
  constructor
  · intro h
    unfold walkRecord at h
    simp only at h
    by_cases hv : r.record.v = schemaVersion
    swap
    · rw [if_pos hv] at h; cases h
    by_cases hhash : r.hashMatches sha256 = true
    swap
    · simp only [hv, hhash, ne_eq, not_true_eq_false, if_false, if_true] at h; cases h
    by_cases hseq : r.record.seq = st.expectSeq
    swap
    · simp [hv, hhash, hseq] at h
    by_cases hprev : r.record.prev = st.prev
    swap
    · simp only [hv, hhash, hseq, hprev, ne_eq, not_true_eq_false, not_false_eq_true, if_false,
        if_true, Bool.true_eq_false] at h
      split at h <;> cases h
    by_cases hts : r.record.tsMs < st.lastTs
    · simp [hv, hhash, hseq, hprev, hts] at h
    simp only [hv, hhash, hseq, hprev, hts, ne_eq, not_true_eq_false, if_false,
      Bool.true_eq_false] at h
    cases hactor : validateActor r.record.actor with
    | error e => rw [hactor] at h; cases h
    | ok u =>
        rw [hactor] at h
        cases hentry : checkEntry st.w.openSet r.record with
        | error e => rw [hentry] at h; cases h
        | ok s =>
            rw [hentry] at h
            obtain ⟨hvalid, hout, rfl⟩ := checkEntry_eq_ok_iff.mp hentry
            exact ⟨⟨hv, hhash, hseq, hprev, Nat.le_of_not_lt hts, hactor, hvalid, hout⟩,
              (Except.ok.inj h).symm⟩
  · rintro ⟨hadm, rfl⟩
    have hentry : checkEntry st.w.openSet r.record = .ok (openAfter st.w.openSet r.record) :=
      checkEntry_eq_ok_iff.mpr ⟨hadm.entry, hadm.outcome, rfl⟩
    have hseq : r.record.seq = st.expectSeq := hadm.seq
    have hprev : r.record.prev = st.prev := hadm.prev
    have hts : ¬ r.record.tsMs < st.lastTs := Nat.not_lt.mpr hadm.time
    simp only [walkRecord, hadm.version, hadm.hash, hseq, hprev, hts, hadm.actor, hentry, ne_eq,
      not_true_eq_false, if_false, Bool.true_eq_false]
    rfl

/-- Visit every record. -/
def WalkState.visitAll (head : Option Head) (st : WalkState) (rs : List StoredRecord) : WalkState :=
  rs.foldl (WalkState.visit head) st

@[simp] theorem visitAll_nil (head : Option Head) (st : WalkState) : st.visitAll head [] = st := rfl

@[simp] theorem visitAll_cons (head : Option Head) (st : WalkState) (r : StoredRecord)
    (rs : List StoredRecord) :
    st.visitAll head (r :: rs) = (st.visit head r).visitAll head rs := rfl

theorem visitAll_append (head : Option Head) (st : WalkState) (rs ss : List StoredRecord) :
    st.visitAll head (rs ++ ss) = (st.visitAll head rs).visitAll head ss := List.foldl_append

theorem walkRecords_eq_ok_iff {head : Option Head} {checkpoint : Option Checkpoint}
    {st st' : WalkState} {rs : List StoredRecord} :
    rs.foldlM (walkRecord sha256 head checkpoint) st = .ok st' ↔
      (recordChain sha256).Accepts st.cursor rs ∧ st' = st.visitAll head rs :=
  Acceptor.foldlM_eq_ok_iff (cursor_visit head) (fun _ _ _ => walkRecord_eq_ok_iff)

/-! ## What visiting leaves in the walk's variables -/

/-- `(seq, hash, ts_ms)` of a record. -/
def StoredRecord.tip (r : StoredRecord) : ℕ × String × ℕ := (r.record.seq, r.hash, r.record.tsMs)

/-- The hash of the record `HEAD` names, among `rs`. -/
def hashAt (head : Option Head) (rs : List StoredRecord) : Option String :=
  head.bind fun h => (rs.reverse.find? fun r => h.seq == r.record.seq).map StoredRecord.hash

@[simp] theorem hashAt_nil (head : Option Head) : hashAt head [] = none := by
  cases head <;> rfl

theorem hashAt_concat (head : Option Head) (rs : List StoredRecord) (r : StoredRecord) :
    hashAt head (rs ++ [r]) =
      if head.any (fun h => h.seq == r.record.seq) then some r.hash else hashAt head rs := by
  cases head with
  | none => rfl
  | some h =>
      by_cases hseq : h.seq = r.record.seq
      · simp [hashAt, hseq]
      · simp [hashAt, hseq]

/-- **The variables after visiting `rs`.** -/
theorem visitAll_eq (head : Option Head) (st : WalkState) (rs : List StoredRecord) :
    st.visitAll head rs =
      { w :=
          { st.w with
            count := st.w.count + rs.length
            firstSeq := st.w.firstSeq.or (rs.head?.map fun r => r.record.seq)
            tip := (rs.getLast?.map StoredRecord.tip).or st.w.tip
            openSet := (st.cursor.afterAll rs).openSet }
        expectSeq := (st.cursor.afterAll rs).nextSeq
        prev := (st.cursor.afterAll rs).prev
        lastTs := (st.cursor.afterAll rs).lastTs
        headHashAtSeq := (hashAt head rs).or st.headHashAtSeq
        visited := st.visited ++ rs } := by
  induction rs using List.reverseRecOn with
  | nil =>
      rw [hashAt_nil]
      simp [WalkState.cursor]
  | append_singleton rs r ih =>
      rw [visitAll_append, ih, visitAll_cons, visitAll_nil, WalkState.visit, WalkState.push,
        afterAll_concat, hashAt_concat]
      have hfirst : some ((st.w.firstSeq.or (rs.head?.map fun r => r.record.seq)).getD r.record.seq)
          = st.w.firstSeq.or ((rs ++ [r]).head?.map fun r => r.record.seq) := by
        cases st.w.firstSeq <;> cases rs <;> rfl
      have hhash : (if head.any (fun h => h.seq == r.record.seq) then some r.hash
            else (hashAt head rs).or st.headHashAtSeq)
          = (if head.any (fun h => h.seq == r.record.seq) then some r.hash
            else hashAt head rs).or st.headHashAtSeq := by
        split <;> rfl
      simp only [hfirst, hhash, List.length_append, List.length_singleton, List.append_assoc,
        List.getLast?_append, List.getLast?_singleton, Option.map_some, Option.some_or,
        StoredRecord.tip, after_nextSeq, after_prev, after_lastTs, after_openSet, Nat.add_assoc]

/-- Set the two fields the records do not touch. -/
def WalkState.mark (st : WalkState) (torn : Option (ℕ × ℕ × ℕ)) (stale : List ℕ) : WalkState :=
  { st with w := { st.w with torn := torn, staleSegments := stale } }

theorem visitAll_mark (head : Option Head) (st : WalkState) (torn : Option (ℕ × ℕ × ℕ))
    (stale : List ℕ) (rs : List StoredRecord) :
    (st.mark torn stale).visitAll head rs = (st.visitAll head rs).mark torn stale := by
  induction rs generalizing st with
  | nil => rfl
  | cons r rs ih => exact ih (st.visit head r)

/-! ## Whatever the walk accepts is a chain -/

theorem checkTorn_eq_ok {mode : Mode} {isLast : Bool} {index : ℕ} {torn : Option (ℕ × ℕ)}
    {w w' : Walked} (h : checkTorn mode isLast index torn w = .ok w') :
    ∃ t, w' = { w with torn := t } := by
  unfold checkTorn at h
  split at h
  · exact ⟨w.torn, (Except.ok.inj h).symm⟩
  · split at h
    · exact ⟨w.torn, (Except.ok.inj h).symm⟩
    · exact ⟨_, (Except.ok.inj h).symm⟩
    · cases h

theorem skipStale_eq_ok {checkpoint : Option Checkpoint} {index : ℕ} {rs : List StoredRecord}
    {st st' : WalkState} (h : skipStale checkpoint index rs st = .ok st') :
    ∃ stale, st' = st.mark st.w.torn stale := by
  unfold skipStale at h
  split at h
  · cases h
  · split at h
    · cases h
    · exact ⟨_, (Except.ok.inj h).symm⟩

@[simp] theorem cursor_mark (st : WalkState) (torn : Option (ℕ × ℕ × ℕ)) (stale : List ℕ) :
    (st.mark torn stale).cursor = st.cursor := rfl

@[simp] theorem mark_mark (st : WalkState) (torn torn' : Option (ℕ × ℕ × ℕ))
    (stale stale' : List ℕ) : (st.mark torn stale).mark torn' stale' = st.mark torn' stale' := rfl

theorem cursor_visitAll (head : Option Head) (st : WalkState) (rs : List StoredRecord) :
    (st.visitAll head rs).cursor = st.cursor.afterAll rs := by
  induction rs generalizing st with
  | nil => rfl
  | cons r rs ih => exact ih (st.visit head r)

/-- The records of the retained chain: those of the listed segments that are not stale. -/
def keptRecords (serde : Serde) (floor : ℕ) (segs : List (ℕ × Option (List UInt8))) :
    List StoredRecord :=
  segs.flatMap fun s =>
    match readSegment serde s.1 s.2 with
    | .ok seg => if allStale floor seg.records then [] else seg.records
    | .error _ => []

/-- The first `seq` after CHECKPOINT. -/
def Dir.floor (d : Dir) : ℕ :=
  match d.checkpoint with
  | .ok cp => cp.nextSeq
  | _ => 0

/-- The records of a directory's retained chain. -/
def Dir.kept (serde : Serde) (d : Dir) : List StoredRecord := keptRecords serde d.floor d.view.segs

/-- An accepted segment: its records are visited, or none of them. -/
theorem walkSeg_sound {head : Option Head} {checkpoint : Option Checkpoint} {mode : Mode}
    {isLast : Bool} {index : ℕ} {bytes : Option (List UInt8)} {st st' : WalkState}
    (h : walkSeg sha256 serde head checkpoint mode isLast index bytes st = .ok st') :
    ∃ kept torn stale, kept = keptRecords serde (floorOf checkpoint) [(index, bytes)] ∧
      (recordChain sha256).Accepts st.cursor kept ∧
      st' = (st.visitAll head kept).mark torn stale := by
  obtain ⟨read, hread, h⟩ := Except.bind_eq_ok.mp h
  obtain ⟨w, htorn, h⟩ := Except.bind_eq_ok.mp h
  obtain ⟨t, rfl⟩ := checkTorn_eq_ok htorn
  have hkept : keptRecords serde (floorOf checkpoint) [(index, bytes)]
      = if allStale (floorOf checkpoint) read.records then [] else read.records := by
    simp only [keptRecords, List.flatMap_cons, List.flatMap_nil, List.append_nil, hread]
  rw [hkept]
  split at h
  case isTrue hstale =>
    obtain ⟨stale, rfl⟩ := skipStale_eq_ok h
    exact ⟨[], _, stale, (if_pos hstale).symm, trivial, rfl⟩
  case isFalse hlive =>
    obtain ⟨hacc, rfl⟩ := walkRecords_eq_ok_iff.mp h
    exact ⟨read.records, t, st.w.staleSegments, (if_neg hlive).symm, hacc,
      visitAll_mark head st t st.w.staleSegments read.records⟩

/-- The walk's loop visits a chain, and touches nothing else but the torn and stale marks. -/
theorem walkSegs_sound {head : Option Head} {checkpoint : Option Checkpoint} {mode : Mode}
    {segs : List (ℕ × Option (List UInt8))} {st st' : WalkState}
    (h : walkSegs sha256 serde head checkpoint mode segs st = .ok st') :
    ∃ kept torn stale, kept = keptRecords serde (floorOf checkpoint) segs ∧
      (recordChain sha256).Accepts st.cursor kept ∧
      st' = (st.visitAll head kept).mark torn stale := by
  induction segs generalizing st with
  | nil => exact ⟨[], st.w.torn, st.w.staleSegments, rfl, trivial, (Except.ok.inj h).symm⟩
  | cons seg rest ih =>
      obtain ⟨st₁, hseg, hrest⟩ := Except.bind_eq_ok.mp h
      obtain ⟨kept₁, torn₁, stale₁, hkept₁, hacc₁, rfl⟩ := walkSeg_sound hseg
      obtain ⟨kept₂, torn₂, stale₂, hkept₂, hacc₂, rfl⟩ := ih hrest
      refine ⟨kept₁ ++ kept₂, torn₂, stale₂, ?_, ?_, ?_⟩
      · rw [hkept₁, hkept₂, keptRecords, keptRecords, keptRecords, ← List.flatMap_append]
        rfl
      · rw [cursor_mark, cursor_visitAll] at hacc₂
        exact (recordChain sha256).accepts_append.mpr ⟨hacc₁, hacc₂⟩
      · rw [visitAll_mark, mark_mark, visitAll_append]

/-- The position a checkpoint stands for. -/
def cursorOf (checkpoint : Option Checkpoint) : Cursor :=
  match checkpoint with
  | some cp =>
      { nextSeq := cp.nextSeq, prev := cp.prev, lastTs := cp.tsMs, openSet := cp.openSeqs.toFinset }
  | none => Cursor.genesis

theorem cursor_walkStart (checkpoint : Option Checkpoint) (n : ℕ) :
    (walkStart checkpoint n).cursor = cursorOf checkpoint := by
  cases checkpoint <;> rfl

@[simp] theorem nextSeq_cursorOf (checkpoint : Option Checkpoint) :
    (cursorOf checkpoint).nextSeq = floorOf checkpoint := by
  cases checkpoint <;> rfl

/-- What a walk over the records `kept` reports. -/
def walkedOf (checkpoint : Option Checkpoint) (segments : ℕ) (kept : List StoredRecord)
    (headLag : Bool) (torn : Option (ℕ × ℕ × ℕ)) (stale : List ℕ) : Walked where
  count := kept.length
  firstSeq := kept.head?.map fun r => r.record.seq
  tip := kept.getLast?.map StoredRecord.tip
  segments := segments
  openSet := ((cursorOf checkpoint).afterAll kept).openSet
  headLag := headLag
  torn := torn
  staleSegments := stale
  checkpoint := checkpoint

theorem walked_visitAll (head : Option Head) (checkpoint : Option Checkpoint) (n : ℕ)
    (kept : List StoredRecord) (lag : Bool) (torn : Option (ℕ × ℕ × ℕ)) (stale : List ℕ) :
    { (((walkStart checkpoint n).visitAll head kept).mark torn stale).w with
      headLag := lag, checkpoint := checkpoint } = walkedOf checkpoint n kept lag torn stale := by
  rw [visitAll_eq, cursor_walkStart]
  simp [WalkState.mark, walkedOf, walkStart]

theorem headHash_visitAll (head : Option Head) (checkpoint : Option Checkpoint) (n : ℕ)
    (kept : List StoredRecord) (torn : Option (ℕ × ℕ × ℕ)) (stale : List ℕ) :
    (((walkStart checkpoint n).visitAll head kept).mark torn stale).headHashAtSeq
      = hashAt head kept := by
  rw [visitAll_eq]
  simp [WalkState.mark, walkStart]

theorem tip_visitAll (head : Option Head) (checkpoint : Option Checkpoint) (n : ℕ)
    (kept : List StoredRecord) (torn : Option (ℕ × ℕ × ℕ)) (stale : List ℕ) :
    (((walkStart checkpoint n).visitAll head kept).mark torn stale).w.tip
      = kept.getLast?.map StoredRecord.tip := by
  rw [visitAll_eq]
  simp [WalkState.mark, walkStart]

theorem visited_visitAll (head : Option Head) (checkpoint : Option Checkpoint) (n : ℕ)
    (kept : List StoredRecord) (torn : Option (ℕ × ℕ × ℕ)) (stale : List ℕ) :
    (((walkStart checkpoint n).visitAll head kept).mark torn stale).visited = kept := by
  rw [visitAll_eq]
  simp [WalkState.mark, walkStart]

/-- **Whatever the walk accepts is a chain** from the checkpoint, and passes the check against
    `HEAD`. -/
theorem walk_sound {v : View} {mode : Mode} {w : Walked} {visited : List StoredRecord}
    (h : walk sha256 serde v mode = .ok (w, visited)) :
    ∃ head checkpoint lag torn stale,
      readJsonFile v.head = .ok head ∧ readJsonFile v.checkpoint = .ok checkpoint ∧
      visited = keptRecords serde (floorOf checkpoint) v.segs ∧
      (recordChain sha256).Accepts (cursorOf checkpoint) visited ∧
      checkHead mode head checkpoint (visited.getLast?.map StoredRecord.tip) (hashAt head visited)
        = .ok lag ∧
      w = walkedOf checkpoint v.segs.length visited lag torn stale := by
  obtain ⟨head, hhead, h⟩ := Except.bind_eq_ok.mp h
  obtain ⟨checkpoint, hcp, h⟩ := Except.bind_eq_ok.mp h
  obtain ⟨st, hsegs, h⟩ := Except.bind_eq_ok.mp h
  obtain ⟨lag, hcheck, h⟩ := Except.bind_eq_ok.mp h
  obtain ⟨kept, torn, stale, hkept, hacc, rfl⟩ := walkSegs_sound hsegs
  obtain ⟨hw, hvisited⟩ := Prod.mk.inj (Except.ok.inj h)
  rw [visited_visitAll] at hvisited
  rw [tip_visitAll, headHash_visitAll] at hcheck
  rw [cursor_walkStart] at hacc
  subst hvisited
  exact ⟨head, checkpoint, lag, torn, stale, hhead, hcp, hkept, hacc, hcheck,
    hw.symm.trans (walked_visitAll head checkpoint _ kept lag torn stale)⟩

/-! ## A chain laid out in segments is accepted -/

/-- A whole segment file. -/
def wholeSeg (s : ℕ × List StoredRecord) : ℕ × Option (List UInt8) := (s.1, some (encodeSeg s.2))

/-- The segments the walk reports as stale: an empty one is walked like any other. -/
def staleIndices (stale : List (ℕ × List StoredRecord)) : List ℕ :=
  (stale.filter fun s => !s.2.isEmpty).map Prod.fst

/-- The torn mark the last segment leaves. -/
def tornMark (mode : Mode) (index : ℕ) (records : List StoredRecord) (tail : List UInt8) :
    Option (ℕ × ℕ × ℕ) :=
  if mode = .recover then (tornOf records tail).map fun t => (index, t.1, t.2) else none

/-- **A laid-out chain.** The view lists stale segments (every record before the checkpoint), then
    whole segments of the retained chain, then a last segment that may end in an incomplete line. -/
structure View.LaidOut (sha256 : List UInt8 → Digest) (v : View) (head : Option Head)
    (checkpoint : Option Checkpoint) (stale live : List (ℕ × List StoredRecord))
    (last : ℕ × List StoredRecord) (tail : List UInt8) : Prop where
  head_eq : readJsonFile v.head = .ok head
  checkpoint_eq : readJsonFile v.checkpoint = .ok checkpoint
  segs : v.segs = (stale ++ live).map wholeSeg ++ [(last.1, some (encodeSeg last.2 ++ tail))]
  tail : (10 : UInt8) ∉ tail
  stale_lt : ∀ s ∈ stale, ∀ r ∈ s.2, r.record.seq < floorOf checkpoint
  stale_hash : ∀ s ∈ stale, ∀ r ∈ s.2, r.record.seq + 1 = floorOf checkpoint →
    ∀ cp, checkpoint = some cp → cp.prev = r.hash
  chain : (recordChain sha256).Accepts (cursorOf checkpoint) (live.flatMap Prod.snd ++ last.2)

theorem walkSeg_whole {head : Option Head} {checkpoint : Option Checkpoint} {mode : Mode}
    {isLast : Bool} (s : ℕ × List StoredRecord) (st : WalkState) :
    walkSeg sha256 serde head checkpoint mode isLast (wholeSeg s).1 (wholeSeg s).2 st =
      if allStale (floorOf checkpoint) s.2 then skipStale checkpoint s.1 s.2 st
      else s.2.foldlM (walkRecord sha256 head checkpoint) st := by
  simp only [walkSeg, wholeSeg, readSegment_encodeSeg_whole, checkTorn, bind, Except.bind]

/-- Segments before the checkpoint are skipped and marked. -/
theorem walkSegs_stale {head : Option Head} {checkpoint : Option Checkpoint} {mode : Mode}
    {stale : List (ℕ × List StoredRecord)} {rest : List (ℕ × Option (List UInt8))}
    (hlt : ∀ s ∈ stale, ∀ r ∈ s.2, r.record.seq < floorOf checkpoint)
    (hhash : ∀ s ∈ stale, ∀ r ∈ s.2, r.record.seq + 1 = floorOf checkpoint →
      ∀ cp, checkpoint = some cp → cp.prev = r.hash)
    {st : WalkState} (hcount : st.w.count = 0) :
    walkSegs sha256 serde head checkpoint mode (stale.map wholeSeg ++ rest) st =
      walkSegs sha256 serde head checkpoint mode rest
        (st.mark st.w.torn (st.w.staleSegments ++ staleIndices stale)) := by
  induction stale generalizing st with
  | nil => simp [staleIndices, WalkState.mark]
  | cons s stale ih =>
      rw [List.forall_mem_cons] at hlt hhash
      rw [List.map_cons, List.cons_append]
      change (walkSeg sha256 serde head checkpoint mode _ (wholeSeg s).1 (wholeSeg s).2 st >>= _) = _
      rw [walkSeg_whole]
      cases hs : s.2 with
      | nil =>
          have hidx : staleIndices (s :: stale) = staleIndices stale := by simp [staleIndices, hs]
          rw [hidx]
          exact ih hlt.2 hhash.2 hcount
      | cons r rs =>
          have hall : allStale (floorOf checkpoint) (r :: rs) = true := by
            rw [← hs]
            simp only [allStale, hs, List.isEmpty_cons, Bool.not_false, Bool.true_and,
              List.all_eq_true, decide_eq_true_eq]
            rw [← hs]
            exact hlt.1
          have hfind : ¬ ((r :: rs).find? fun r => r.record.seq + 1 == floorOf checkpoint).any
              (fun r => checkpoint.any fun cp => cp.prev != r.hash) = true := by
            intro hany
            obtain ⟨r', hfound, hbad⟩ := Option.any_eq_true _ _ |>.mp hany
            obtain ⟨cp, hcp, hne⟩ := Option.any_eq_true _ _ |>.mp hbad
            have hmem : r' ∈ s.2 := hs ▸ List.mem_of_find?_eq_some hfound
            have hseq : r'.record.seq + 1 = floorOf checkpoint := by
              simpa using List.find?_some hfound
            exact absurd (hhash.1 r' hmem hseq cp hcp) (by simpa using hne)
          have hskip : skipStale checkpoint s.1 (r :: rs) st =
              .ok (st.mark st.w.torn (st.w.staleSegments ++ [s.1])) := by
            rw [skipStale, if_neg (by omega), if_neg hfind]
            rfl
          have hidx : staleIndices (s :: stale) = s.1 :: staleIndices stale := by
            simp [staleIndices, hs]
          rw [if_pos hall, hskip, hidx]
          change walkSegs sha256 serde head checkpoint mode (stale.map wholeSeg ++ rest)
            (st.mark st.w.torn (st.w.staleSegments ++ [s.1])) = _
          have hcount' : (st.mark st.w.torn (st.w.staleSegments ++ [s.1])).w.count = 0 := hcount
          rw [ih hlt.2 hhash.2 hcount', mark_mark]
          simp only [WalkState.mark, List.append_assoc, List.singleton_append]

/-- A segment of the retained chain is not stale. -/
theorem allStale_of_accepts {c : Cursor} {rs : List StoredRecord} {floor : ℕ}
    (h : (recordChain sha256).Accepts c rs) (hfloor : floor ≤ c.nextSeq) :
    allStale floor rs = false := by
  cases rs with
  | nil => rfl
  | cons r rs =>
      have hseq := h.1.seq
      have hnot : ¬ r.record.seq < floor := by omega
      simp [allStale, hnot]

/-- Segments of the retained chain are visited in order. -/
theorem walkSegs_live {head : Option Head} {checkpoint : Option Checkpoint} {mode : Mode}
    {live : List (ℕ × List StoredRecord)} {rest : List (ℕ × Option (List UInt8))} {st : WalkState}
    (hchain : (recordChain sha256).Accepts st.cursor (live.flatMap Prod.snd))
    (hfloor : floorOf checkpoint ≤ st.expectSeq) :
    walkSegs sha256 serde head checkpoint mode (live.map wholeSeg ++ rest) st =
      walkSegs sha256 serde head checkpoint mode rest
        (st.visitAll head (live.flatMap Prod.snd)) := by
  induction live generalizing st with
  | nil => rfl
  | cons s live ih =>
      rw [List.flatMap_cons] at hchain ⊢
      rw [List.map_cons, List.cons_append]
      change (walkSeg sha256 serde head checkpoint mode _ (wholeSeg s).1 (wholeSeg s).2 st >>= _) = _
      have hnot : ¬ allStale (floorOf checkpoint) s.2 = true := by
        rw [allStale_of_accepts hchain.left hfloor]
        exact Bool.false_ne_true
      have hfold : s.2.foldlM (walkRecord sha256 head checkpoint) st
          = .ok (st.visitAll head s.2) := walkRecords_eq_ok_iff.mpr ⟨hchain.left, rfl⟩
      have hcursor := cursor_visitAll head st s.2
      have hnext : floorOf checkpoint ≤ (st.visitAll head s.2).expectSeq := by
        have heq : (st.visitAll head s.2).expectSeq = st.expectSeq + s.2.length :=
          (congrArg Cursor.nextSeq hcursor).trans (nextSeq_afterAll hchain.left)
        omega
      rw [walkSeg_whole, if_neg hnot, hfold]
      refine (ih ?_ hnext).trans ?_
      · rw [hcursor]
        exact hchain.right
      · rw [visitAll_append]

/-- The last segment: an incomplete line is reported, or skipped, or refused. -/
theorem walkSegs_last {head : Option Head} {checkpoint : Option Checkpoint} {mode : Mode}
    {last : ℕ × List StoredRecord} {tail : List UInt8} {st : WalkState}
    (hchain : (recordChain sha256).Accepts st.cursor last.2)
    (hfloor : floorOf checkpoint ≤ st.expectSeq) (htail : (10 : UInt8) ∉ tail)
    (hmode : tail = [] ∨ mode ≠ .strict) (htorn : st.w.torn = none) :
    walkSegs sha256 serde head checkpoint mode [(last.1, some (encodeSeg last.2 ++ tail))] st =
      .ok ((st.visitAll head last.2).mark (tornMark mode last.1 last.2 tail)
        st.w.staleSegments) := by
  have hcheck : checkTorn mode true last.1 (tornOf last.2 tail) st.w =
      .ok { st.w with torn := tornMark mode last.1 last.2 tail } := by
    cases tail with
    | nil => simp [checkTorn, tornOf, tornMark, ← htorn]
    | cons b tail =>
        cases mode with
        | strict => simp at hmode
        | recover => simp [checkTorn, tornOf, tornMark]
        | live => simp [checkTorn, tornOf, tornMark, ← htorn]
  have hnot : ¬ allStale (floorOf checkpoint) last.2 = true := by
    rw [allStale_of_accepts hchain hfloor]
    exact Bool.false_ne_true
  have hfold : last.2.foldlM (walkRecord sha256 head checkpoint)
      (st.mark (tornMark mode last.1 last.2 tail) st.w.staleSegments) =
      .ok ((st.visitAll head last.2).mark (tornMark mode last.1 last.2 tail) st.w.staleSegments) :=
    walkRecords_eq_ok_iff.mpr ⟨hchain, (visitAll_mark _ _ _ _ _).symm⟩
  simp only [WalkState.mark] at hfold
  simp only [walkSegs, walkSeg, readSegment_encodeSeg serde last.1 last.2 htail, bind, Except.bind,
    List.isEmpty_nil, hcheck, if_neg hnot, hfold, WalkState.mark]

/-- **A laid-out chain is walked whole**: the walk visits the retained records in order and reports
    the position they lead to; only the check against `HEAD` remains. -/
theorem walk_laidOut {v : View} {head : Option Head} {checkpoint : Option Checkpoint}
    {stale live : List (ℕ × List StoredRecord)} {last : ℕ × List StoredRecord} {tail : List UInt8}
    {mode : Mode} (h : v.LaidOut sha256 head checkpoint stale live last tail)
    (hmode : tail = [] ∨ mode ≠ .strict) :
    walk sha256 serde v mode = (do
      let kept := live.flatMap Prod.snd ++ last.2
      let lag ← checkHead mode head checkpoint (kept.getLast?.map StoredRecord.tip)
        (hashAt head kept)
      pure (walkedOf checkpoint v.segs.length kept lag (tornMark mode last.1 last.2 tail)
        (staleIndices stale), kept)) := by
  have hsegs : walkSegs sha256 serde head checkpoint mode v.segs
      (walkStart checkpoint v.segs.length) =
      .ok (((walkStart checkpoint v.segs.length).visitAll head
        (live.flatMap Prod.snd ++ last.2)).mark (tornMark mode last.1 last.2 tail)
        (staleIndices stale)) := by
    generalize v.segs.length = n
    have hcursor := cursor_walkStart checkpoint n
    have hlive : (recordChain sha256).Accepts
        ((walkStart checkpoint n).mark none (staleIndices stale)).cursor
        (live.flatMap Prod.snd) := by
      rw [cursor_mark, hcursor]
      exact h.chain.left
    -- the position after the whole segments
    have hafter : (((walkStart checkpoint n).visitAll head (live.flatMap Prod.snd)).mark none
        (staleIndices stale)).cursor = (cursorOf checkpoint).afterAll (live.flatMap Prod.snd) := by
      rw [cursor_mark, cursor_visitAll, hcursor]
    rw [h.segs, List.map_append, List.append_assoc, walkSegs_stale h.stale_lt h.stale_hash rfl]
    refine (walkSegs_live hlive le_rfl).trans ?_
    rw [visitAll_mark]
    refine (walkSegs_last ?_ ?_ h.tail hmode ?_).trans ?_
    · rw [hafter]
      exact h.chain.right
    · have hnext := nextSeq_afterAll h.chain.left
      rw [nextSeq_cursorOf, ← hafter] at hnext
      exact (Nat.le_add_right _ _).trans hnext.ge
    · rw [visitAll_eq]
      rfl
    · rw [visitAll_mark, mark_mark, visitAll_append]
      rfl
  rw [walk, h.head_eq, h.checkpoint_eq]
  change (walkSegs sha256 serde head checkpoint mode v.segs
    (walkStart checkpoint v.segs.length) >>= _) = _
  rw [hsegs]
  change (checkHead mode head checkpoint _ _ >>= _) = _
  rw [tip_visitAll, headHash_visitAll]
  refine congrArg _ (funext fun lag => congrArg Except.ok (Prod.ext ?_ ?_))
  · exact walked_visitAll head checkpoint v.segs.length (live.flatMap Prod.snd ++ last.2) lag
      (tornMark mode last.1 last.2 tail) (staleIndices stale)
  · exact visited_visitAll head checkpoint v.segs.length (live.flatMap Prod.snd ++ last.2)
      (tornMark mode last.1 last.2 tail) (staleIndices stale)

end AgentRuntime.Records
