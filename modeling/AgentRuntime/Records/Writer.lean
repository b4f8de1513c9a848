import AgentRuntime.Records.Step

/-!
# `Records.Writer` — the writer's calls are runs of the log

A writer whose memory follows the log (`Inner.Follows`) makes only file steps the log takes, and its
memory follows the log afterwards (`record_steps`). Each function of the writer has its own lemma:
pruning deletes whole segments behind the checkpoint (`pruneOldest_steps`, `pruneLoop_eq`), rotation
starts a segment (`rotate_steps`), writing appends one admitted record (`writeRecord_steps`).

The one thing the writer can do that its readers do not follow is to start a segment whose name does
not read back; `RotationListed` excludes that.
-/

namespace AgentRuntime.Records

open Transition Words

variable {sha256 : List UInt8 → Digest} (serde : Serde)

/-- **The writer's memory follows the log**, and nothing is in flight. -/
structure Inner.Follows (g : Inner) (L : Log) : Prop where
  segIndex : g.segIndex = L.index
  segLen : g.segLen = (encodeSeg L.cur).length
  segCount : g.segCount = L.closed.length + 1 - L.deleted
  nextSeq : g.nextSeq = L.cursor.nextSeq
  prev : g.prev = L.cursor.prev
  lastTs : g.lastTs = L.cursor.lastTs
  openSet : g.openSet = L.cursor.openSet
  failed : g.failed = false
  quiet : L.Quiet

/-! ## Pruning -/

/-- The log after deleting `n` more segments behind CHECKPOINT. -/
def Log.prune (L : Log) (n : ℕ) : Log :=
  { L with deleted := L.deleted + n, covered := L.covered + n }

@[simp] theorem hist_prune (L : Log) (n : ℕ) : (L.prune n).hist = L.hist := rfl

theorem openBehind_eq (c : Cursor) (rs : List StoredRecord) :
    openBehind c.openSet rs = (c.afterAll rs).openSet := by
  induction rs generalizing c with
  | nil => rfl
  | cons r rs ih => exact ih (c.after r)

theorem pruned_succ (L : Log) {seg : List StoredRecord} (hseg : L.closed[L.covered]? = some seg) :
    (L.closed.take (L.covered + 1)).flatten = L.pruned ++ seg := by
  rw [List.take_add_one, hseg, Log.pruned]
  simp

theorem accepts_oldest {L : Log} (h : L.Ok sha256) {seg : List StoredRecord}
    (hseg : L.closed[L.covered]? = some seg) :
    (recordChain sha256).Accepts (Cursor.genesis.afterAll L.pruned) seg := by
  obtain ⟨hlt, hget⟩ := List.getElem?_eq_some_iff.mp hseg
  have hchain := h.chain_retained
  rw [Log.retained, List.drop_eq_getElem_cons hlt, hget, List.flatten_cons, List.append_assoc]
    at hchain
  exact hchain.left

theorem listSegments_describes {d : Dir} {L : Log} (hd : Describes d L) (h : L.Ok sha256) :
    listSegments d = List.range' (L.deleted + 1) (L.closed.length + 1 - L.deleted) := by
  have hle := h.deleted_le.trans h.covered_le
  have hentries : d.segs.entries = L.entries ++ [] := by rw [hd.entries, List.append_nil]
  rw [listSegments_of_sorted hentries (entries_sorted hle) (entries_listed hle h.listed) (by simp),
    map_fst_entries hle]

/-- **Pruning the oldest segment** covers it with CHECKPOINT and deletes it. -/
theorem pruneOldest_steps {d : Dir} {L : Log} (hd : Describes d L) (h : L.Ok sha256)
    (hcovered : L.covered = L.deleted) (hhead : L.headAt = L.hist.length)
    (hlt : L.deleted < L.closed.length) :
    ∃ steps, pruneOldest serde d = .ok steps ∧
      Log.StepsIn sha256 (· = L.hist) L steps (L.prune 1) := by
  have hlist := listSegments_describes hd h
  rw [show L.closed.length + 1 - L.deleted = L.closed.length - L.deleted + 1 from by omega,
    List.range'_succ] at hlist
  -- the oldest file holds the oldest finished segment
  have hseg : L.closed[L.covered]? = some L.closed[L.deleted] := by
    rw [hcovered, List.getElem?_eq_getElem hlt]
  have hmem : (L.deleted + 1, encodeSeg L.closed[L.deleted]) ∈ d.segs.entries := by
    have hlen : L.deleted < (numbered L.closed).length := by simpa using hlt
    have hentry : (numbered L.closed)[L.deleted] = (L.deleted + 1, L.closed[L.deleted]) := by
      simp [numbered, Nat.add_comm]
    rw [hd.entries, Log.entries, List.drop_eq_getElem_cons hlen, hentry]
    exact List.mem_append_left _ List.mem_cons_self
  have hget : d.segs.get? (L.deleted + 1) = some (encodeSeg L.closed[L.deleted]) :=
    lookup_of_nodup d.segs.nodup hmem
  have hacc := accepts_oldest h hseg
  -- none of its records precedes the checkpoint
  have hfloor : floorOf (checkpointFor L.pruned) = (Cursor.genesis.afterAll L.pruned).nextSeq := by
    rw [← nextSeq_cursorOf, cursorOf_checkpointFor]
  have hfilter : (L.closed[L.deleted].filter
      fun r => decide (floorOf (checkpointFor L.pruned) ≤ r.record.seq)) = L.closed[L.deleted] := by
    apply List.filter_eq_self.mpr
    intro r hr
    rw [hfloor]
    exact decide_eq_true (seq_of_mem hacc hr).1
  have hprune : pruneOldest serde d = L.closed[L.deleted].getLast?.elim (.ok [.deleteSeg (L.deleted + 1)])
      fun last => .ok
          [ .replaceCheckpoint
              { nextSeq := last.record.seq + 1
                prev := last.hash
                tsMs := last.record.tsMs
                openSeqs := (openBehind ((checkpointFor L.pruned).elim [] Checkpoint.openSeqs).toFinset
                  L.closed[L.deleted]).sort (· ≤ ·) },
            .deleteSeg (L.deleted + 1) ] := by
    unfold pruneOldest
    rw [hlist]
    simp only [hd.checkpoint, readJsonFile_ofOption, hget, readSegment_encodeSeg_whole, bind,
      Except.bind, hfilter]
    cases L.closed[L.deleted].getLast? <;> rfl
  rw [hprune]
  cases hlast : L.closed[L.deleted].getLast? with
  | none =>
      have hempty : L.closed[L.deleted]? = some [] := by
        rw [List.getElem?_eq_getElem hlt, List.getLast?_eq_none_iff.mp hlast]
      exact ⟨_, rfl, .single ⟨.deleteEmpty L hcovered hempty, rfl⟩⟩
  | some last =>
      have hopen : openBehind ((checkpointFor L.pruned).elim [] Checkpoint.openSeqs).toFinset
          L.closed[L.deleted]
          = (Cursor.genesis.afterAll (L.pruned ++ L.closed[L.deleted])).openSet := by
        have hprior : ((checkpointFor L.pruned).elim [] Checkpoint.openSeqs).toFinset
            = (Cursor.genesis.afterAll L.pruned).openSet := by
          rw [← cursorOf_checkpointFor]
          cases checkpointFor L.pruned <;> rfl
        rw [hprior, openBehind_eq, afterAll_append]
      have hne : L.closed[L.covered]? ≠ some [] := by
        rw [hseg]
        intro hnil
        rw [Option.some.inj hnil] at hlast
        cases hlast
      refine ⟨_, rfl, .cons ⟨.checkpoint L _ (hcovered ▸ hlt) hne hhead ?_, rfl⟩
        (.single ⟨.delete _ ?_, rfl⟩)⟩
      · rw [pruned_succ L hseg, checkpointFor, List.getLast?_append, hlast, ← hopen]
        rfl
      · exact Nat.lt_succ_of_le hcovered.ge

/-- **The retention loop** keeps at most `max` segments. -/
theorem pruneLoop_steps {max : ℕ} (hmax : 1 ≤ max) {g : Inner} {d : Dir} {L : Log}
    (hd : Describes d L) (h : L.Ok sha256) (hcovered : L.covered = L.deleted)
    (hhead : L.headAt = L.hist.length)
    (hcount : g.segCount = L.closed.length + 1 - L.deleted) :
    ∃ steps, pruneLoop serde max g d =
        { result := .ok (), inner := { g with segCount := g.segCount - (g.segCount - max) },
          steps := steps } ∧
      Log.StepsIn sha256 (· = L.hist) L steps (L.prune (g.segCount - max)) := by
  induction hn : g.segCount - max generalizing g d L with
  | zero =>
      refine ⟨[], ?_, .nil L⟩
      rw [pruneLoop, if_neg (by omega)]
      rfl
  | succ n ih =>
      have hle := h.deleted_le.trans h.covered_le
      obtain ⟨steps, hprune, hrun⟩ := pruneOldest_steps serde hd h hcovered hhead (by omega)
      obtain ⟨hd', h'⟩ := describes_steps hrun.steps hd h
      have hcount' : g.segCount - 1 = L.closed.length + 1 - (L.deleted + 1) := by omega
      have hn' : g.segCount - 1 - max = n := by omega
      obtain ⟨more, hloop, hrest⟩ := ih (g := { g with segCount := g.segCount - 1 }) hd' h'
        (congrArg (· + 1) hcovered) hhead hcount' hn'
      refine ⟨steps ++ more, ?_, hrun.append ?_⟩
      · rw [pruneLoop, if_pos (by omega), hprune]
        simp only [hloop]
        congr 2
        omega
      · have hsum : (L.prune 1).prune n = L.prune (n + 1) := by
          simp only [Log.prune, Nat.add_assoc, Nat.add_comm 1 n]
        rw [← hsum]
        exact hrest

/-! ## Rotation -/

/-- The log after starting a new segment and dropping the `n` oldest ones. -/
def Log.rotate (L : Log) (n : ℕ) : Log :=
  Log.prune { L with closed := L.closed ++ [L.cur], cur := [] } n

@[simp] theorem hist_rotate (L : Log) (n : ℕ) : (L.rotate n).hist = L.hist := L.hist_create

/-- How many segments a rotation prunes. -/
def LogConfig.excess (cfg : LogConfig) (segCount : ℕ) : ℕ :=
  cfg.maxSegments.elim 0 fun max => segCount - max

/-- **Rotation** starts the next segment, as long as its name reads back. -/
theorem rotate_steps {cfg : LogConfig} (hmax : ∀ max, cfg.maxSegments = some max → 1 ≤ max)
    {g : Inner} {d : Dir} {L : Log} (hd : Describes d L) (h : L.Ok sha256) (hf : g.Follows L)
    (hlisted : g.segIndex + 1 < segNameBound) :
    ∃ steps, rotate serde cfg g d =
        { result := .ok ()
          inner :=
            { g with
              segIndex := g.segIndex + 1
              segLen := 0
              segCount := g.segCount + 1 - cfg.excess (g.segCount + 1) }
          steps := steps } ∧
      Log.StepsIn sha256 (· = L.hist) L steps (L.rotate (cfg.excess (g.segCount + 1))) := by
  have hle := h.deleted_le.trans h.covered_le
  have hadd : checkedAdd u32Bound g.segIndex 1 = some (g.segIndex + 1) :=
    checkedAdd_eq_some.mpr ⟨rfl, hlisted.trans segNameBound_lt_u32Bound⟩
  have hfresh : ¬ d.segs.contains (g.segIndex + 1) = true := by
    rw [SegFiles.contains_iff, hd.entries, map_fst_entries hle, List.mem_range'_1, hf.segIndex,
      Log.index]
    omega
  have hcreate : Log.Step sha256 L (.createSeg (g.segIndex + 1))
      { L with closed := L.closed ++ [L.cur], cur := [] } := by
    rw [hf.segIndex] at hlisted ⊢
    exact .create L hf.quiet.tail hlisted
  unfold rotate
  simp only [hadd, if_neg hfresh]
  cases hcfg : cfg.maxSegments with
  | none =>
      refine ⟨[.createSeg (g.segIndex + 1)], ?_, .single ⟨?_, L.hist_create⟩⟩
      · simp only [LogConfig.excess, hcfg, Option.elim_none, Nat.sub_zero]
      · simp only [LogConfig.excess, hcfg, Option.elim_none]
        exact hcreate
  | some max =>
      have hd' := describes_apply hd h hcreate
      have h' := ok_step hcreate h
      let g' : Inner := { g with segIndex := g.segIndex + 1, segLen := 0, segCount := g.segCount + 1 }
      have hcount : g'.segCount = (L.closed ++ [L.cur]).length + 1 - L.deleted := by
        have := hf.segCount
        rw [List.length_append, List.length_singleton]
        change g.segCount + 1 = _
        omega
      obtain ⟨steps, hloop, hrun⟩ :=
        pruneLoop_steps serde (hmax max hcfg) hd' h' hf.quiet.covered
          (hf.quiet.head.trans (congrArg List.length L.hist_create.symm)) hcount
      simp only [g'] at hloop hrun
      rw [L.hist_create] at hrun
      refine ⟨.createSeg (g.segIndex + 1) :: steps, ?_, .cons ⟨hcreate, L.hist_create⟩ ?_⟩
      · simp only [hloop, LogConfig.excess, hcfg, Option.elim_some]
      · simp only [LogConfig.excess, hcfg, Option.elim_some]
        exact hrun

theorem follows_rotate {cfg : LogConfig} {g : Inner} {L : Log} (hf : g.Follows L)
    (hle : L.deleted ≤ L.closed.length) :
    Inner.Follows
      { g with
        segIndex := g.segIndex + 1
        segLen := 0
        segCount := g.segCount + 1 - cfg.excess (g.segCount + 1) }
      (L.rotate (cfg.excess (g.segCount + 1))) := by
  have hcursor : (L.rotate (cfg.excess (g.segCount + 1))).cursor = L.cursor := by
    rw [Log.cursor, hist_rotate, Log.cursor]
  constructor
  · change g.segIndex + 1 = (L.closed ++ [L.cur]).length + 1
    rw [hf.segIndex, List.length_append, List.length_singleton, Log.index]
  · rfl
  · have hcount := hf.segCount
    change g.segCount + 1 - cfg.excess (g.segCount + 1)
      = (L.closed ++ [L.cur]).length + 1 - (L.deleted + cfg.excess (g.segCount + 1))
    rw [List.length_append, List.length_singleton]
    omega
  · rw [hcursor]; exact hf.nextSeq
  · rw [hcursor]; exact hf.prev
  · rw [hcursor]; exact hf.lastTs
  · rw [hcursor]; exact hf.openSet
  · exact hf.failed
  · constructor
    · exact hf.quiet.tail
    · rw [hist_rotate]
      exact hf.quiet.head
    · exact congrArg (· + cfg.excess (g.segCount + 1)) hf.quiet.covered

section

variable {serde : Serde} {cfg : LogConfig}

theorem pruneLoop_ok {max : ℕ} {g : Inner} {d : Dir} (h : (pruneLoop serde max g d).result = .ok ()) :
    ∃ n, (pruneLoop serde max g d).inner = { g with segCount := n } := by
  induction g, d using pruneLoop.induct serde max with
  | case1 g d hlt e hprune =>
      rw [pruneLoop, if_pos hlt, hprune] at h
      cases h
  | case2 g d hlt steps hprune ih =>
      rw [pruneLoop, if_pos hlt, hprune] at h ⊢
      obtain ⟨n, hn⟩ := ih h
      exact ⟨n, hn⟩
  | case3 g d hlt =>
      rw [pruneLoop, if_neg hlt]
      exact ⟨g.segCount, rfl⟩

/-- A rotation that succeeds moves to the next segment, and nothing else of the writer's memory changes. -/
theorem rotate_ok {g : Inner} {d : Dir} (h : (rotate serde cfg g d).result = .ok ()) :
    ∃ len n, (rotate serde cfg g d).inner =
      { g with segIndex := g.segIndex + 1, segLen := len, segCount := n } := by
  unfold rotate at h ⊢
  split at h
  · cases h
  · rename_i next hadd
    obtain ⟨rfl, -⟩ := checkedAdd_eq_some.mp hadd
    split at h
    · cases h
    · rename_i hfree
      rw [if_neg hfree]
      split at h
      · exact ⟨_, _, rfl⟩
      · obtain ⟨n, hn⟩ := pruneLoop_ok h
        exact ⟨_, n, hn⟩

end

/-! ## Writing one record -/

/-- The log with one more record, not yet in `HEAD`. -/
def Log.push (L : Log) (r : StoredRecord) : Log := { L with cur := L.cur ++ [r], tail := [] }

@[simp] theorem hist_push (L : Log) (r : StoredRecord) : (L.push r).hist = L.hist ++ [r] :=
  L.hist_concat r

/-- The history while `stored` is being written. -/
def Log.Appending (L : Log) (stored : StoredRecord) (rs : List StoredRecord) : Prop :=
  rs = L.hist ∨ rs = L.hist ++ [stored]

@[simp] theorem appending_rotate (L : Log) (n : ℕ) (stored : StoredRecord) :
    (L.rotate n).Appending stored = L.Appending stored := by
  funext rs
  rw [Log.Appending, hist_rotate, Log.Appending]

/-- Bytes without a line feed stay an incomplete line. -/
theorem writeLine_steps (L : Log) {bytes : List UInt8} (h : (10 : UInt8) ∉ bytes) :
    Log.StepsIn sha256 (· = L.hist) L (writeLine L.index bytes)
      { L with tail := L.tail ++ bytes } := by
  induction bytes generalizing L with
  | nil =>
      rw [List.append_nil]
      exact .nil L
  | cons b bytes ih =>
      rw [List.mem_cons, not_or] at h
      have hrest := ih { L with tail := L.tail ++ [b] } h.2
      rw [List.append_assoc] at hrest
      exact .cons ⟨.byte L b (Ne.symm h.1), rfl⟩ hrest

/-- A whole line appends its record. -/
theorem writeStored_steps {L : Log} (hq : L.Quiet) {r : StoredRecord}
    (hadm : L.cursor.Admits sha256 r) :
    Log.StepsIn sha256 (L.Appending r) L (writeLine L.index (r.toVec ++ [10])) (L.push r) := by
  have hbytes : Log.StepsIn sha256 (· = L.hist) L (writeLine L.index r.toVec)
      { L with tail := L.tail ++ r.toVec } := writeLine_steps L (newline_not_mem_toVec r)
  rw [hq.tail, List.nil_append] at hbytes
  rw [writeLine, List.map_append]
  exact (hbytes.weaken fun _ => Or.inl).append
    (.single ⟨.line { L with tail := r.toVec } r rfl hadm hq.head, Or.inr (hist_push L r)⟩)

theorem headStep (L : Log) (r : StoredRecord) :
    Log.StepIn sha256 (L.Appending r) (L.push r)
      (.replaceHead { seq := r.record.seq, hash := r.hash })
      { L.push r with headAt := (L.push r).hist.length } := by
  refine ⟨.head (L.push r) _ ?_, Or.inr (hist_push L r)⟩
  rw [hist_push, headFor, List.getLast?_concat]
  rfl

/-- The receipt of a record. -/
def receiptFor (stored : StoredRecord) : Receipt where
  seq := stored.record.seq
  hash := stored.hash
  tsMs := stored.record.tsMs
  awaitingOutcome :=
    match stored.record.entry with
    | .decision d => d.decision.expectsOutcome
    | .outcome _ => false

/-- **What a call leaves behind**: its record appended and acknowledged; or the log as it was, apart
    from a rotation; or a log that refuses further calls, with at most the record it was writing. -/
inductive Leaves (L : Log) (stored : StoredRecord) (done : Done Receipt) (L' : Log) : Prop
  | appended (hresult : done.result = .ok (receiptFor stored)) (hfollows : done.inner.Follows L')
      (hhist : L'.hist = L.hist ++ [stored]) (hcur : stored ∈ L'.cur)
  | refused (e : Error) (hresult : done.result = .error e) (hfollows : done.inner.Follows L')
      (hhist : L'.hist = L.hist)
  | failed (e : Error) (hresult : done.result = .error e) (hfailed : done.inner.failed = true)
      (hhist : L'.hist = L.hist ∨ L'.hist = L.hist ++ [stored])

theorem follows_push {g : Inner} {L : Log} (hf : g.Follows L) {r : StoredRecord}
    (hadm : L.cursor.Admits sha256 r) :
    Inner.Follows
      { g with
        segLen := g.segLen + (r.toVec ++ [10]).length
        nextSeq := g.nextSeq + 1
        prev := r.hash
        lastTs := r.record.tsMs
        openSet := openAfter g.openSet r.record }
      { L.push r with headAt := (L.push r).hist.length } := by
  have hcursor : Log.cursor { L.push r with headAt := (L.push r).hist.length }
      = L.cursor.after r := by
    change Cursor.genesis.afterAll (L.push r).hist = _
    rw [hist_push, afterAll_concat]
    rfl
  constructor
  · exact hf.segIndex
  · change g.segLen + _ = (encodeSeg (L.cur ++ [r])).length
    rw [encodeSeg_append, encodeSeg_singleton, hf.segLen]
    exact List.length_append.symm
  · exact hf.segCount
  · rw [hcursor, after_nextSeq, hadm.seq, ← hf.nextSeq]
  · rw [hcursor, after_prev]
  · rw [hcursor, after_lastTs]
  · rw [hcursor, after_openSet, ← hf.openSet]
  · exact hf.failed
  · exact ⟨rfl, rfl, hf.quiet.covered⟩

/-- Cutting off what `HEAD` has not seen restores the log. -/
theorem rollback_step {L : Log} (hq : L.Quiet) (r : StoredRecord) (rest : List StoredRecord)
    (tail : List UInt8) :
    Log.StepIn sha256 (L.Appending r) { L with cur := L.cur ++ rest, tail := tail }
      (.setLen L.index (encodeSeg L.cur).length) L := by
  refine ⟨?_, Or.inl rfl⟩
  have hhead : L.headAt ≤ L.closed.flatten.length + L.cur.length := by
    rw [hq.head, Log.hist, List.length_append]
  have hsame : ({ L with tail := [] } : Log) = L := by
    rw [← hq.tail]
  conv => rhs; rw [← hsame]
  exact .cut { L with cur := L.cur ++ rest, tail := tail } L.cur rest rfl hhead

/-- A failed write of the line leaves an incomplete line, or the whole record. -/
theorem writePartial_steps {L : Log} (hq : L.Quiet) {r : StoredRecord}
    (hadm : L.cursor.Admits sha256 r) (written : ℕ) :
    ∃ rest tail, (rest = [] ∨ rest = [r]) ∧
      Log.StepsIn sha256 (L.Appending r) L (writeLine L.index ((r.toVec ++ [10]).take written))
        { L with cur := L.cur ++ rest, tail := tail } := by
  by_cases hw : written ≤ r.toVec.length
  · refine ⟨[], r.toVec.take written, Or.inl rfl, ?_⟩
    have hbytes : Log.StepsIn sha256 (· = L.hist) L (writeLine L.index (r.toVec.take written))
        { L with tail := L.tail ++ r.toVec.take written } :=
      writeLine_steps L fun hmem => newline_not_mem_toVec r (List.mem_of_mem_take hmem)
    rw [hq.tail, List.nil_append] at hbytes
    rw [List.take_append_of_le_length hw, List.append_nil]
    exact hbytes.weaken fun _ => Or.inl
  · refine ⟨[r], [], Or.inr rfl, ?_⟩
    rw [List.take_of_length_le (by simp; omega)]
    exact writeStored_steps hq hadm

/-- **Writing a record** that may follow. -/
theorem writeRecord_steps {g : Inner} {L : Log} (hf : g.Follows L) {stored : StoredRecord}
    (hadm : L.cursor.Admits sha256 stored) (fault : Fault) :
    ∃ L', Log.StepsIn sha256 (L.Appending stored) L (writeRecord g stored fault).steps L' ∧
      Leaves L stored (writeRecord g stored fault) L' := by
  cases fault with
  | none =>
      refine ⟨{ L.push stored with headAt := (L.push stored).hist.length }, ?_, ?_⟩
      · simp only [writeRecord, hf.segIndex]
        exact (writeStored_steps hf.quiet hadm).append (.single (headStep L stored))
      · exact .appended rfl (follows_push hf hadm) (hist_push L stored)
          (List.mem_append_right _ List.mem_cons_self)
  | head replaced =>
      cases replaced with
      | true =>
          refine ⟨{ L.push stored with headAt := (L.push stored).hist.length }, ?_, ?_⟩
          · simp only [writeRecord, hf.segIndex, if_true]
            exact (writeStored_steps hf.quiet hadm).append (.single (headStep L stored))
          · exact .failed _ rfl rfl (Or.inr (hist_push L stored))
      | false =>
          refine ⟨L.push stored, ?_, ?_⟩
          · simp only [writeRecord, hf.segIndex, Bool.false_eq_true, if_false, List.append_nil]
            exact writeStored_steps hf.quiet hadm
          · exact .failed _ rfl rfl (Or.inr (hist_push L stored))
  | line written rolledBack =>
      obtain ⟨rest, tail, hrest, hrun⟩ := writePartial_steps hf.quiet hadm written
      cases rolledBack with
      | true =>
          refine ⟨L, ?_, ?_⟩
          · simp only [writeRecord, hf.segIndex, hf.segLen, if_true]
            exact hrun.append (.single (rollback_step hf.quiet stored rest tail))
          · refine .refused _ rfl ?_ rfl
            have hinner : (writeRecord g stored (.line written true)).inner = g := by
              change { g with failed := false } = g
              rw [← hf.failed]
            rw [hinner]
            exact hf
      | false =>
          refine ⟨{ L with cur := L.cur ++ rest, tail := tail }, ?_, .failed _ rfl rfl ?_⟩
          · simp only [writeRecord, hf.segIndex, Bool.false_eq_true, if_false, List.append_nil]
            exact hrun
          · rcases hrest with rfl | rfl
            · left
              simp [Log.hist]
            · right
              simp [Log.hist]

/-! ## A call -/

/-- The call passes every check made before anything is written. -/
structure Accepted (g : Inner) (call : Call) : Prop where
  failed : g.failed = false
  actor : validateActor call.actor = .ok ()
  entry : validateEntry call.entry = .ok ()
  outcome : refusesOutcome g call.entry = none

variable (sha256) in
/-- The record an accepted call appends. -/
def Call.stored (g : Inner) (call : Call) : StoredRecord :=
  sealNext sha256 g call.now call.actor call.entry

variable (sha256) in
/-- **If the call starts a new segment, the segment's name reads back.** -/
def RotationListed (cfg : LogConfig) (g : Inner) (call : Call) : Prop :=
  Accepted g call → mustRotate cfg g (call.stored sha256 g) → g.segIndex + 1 < segNameBound

theorem admits_stored {g : Inner} {L : Log} (hf : g.Follows L) {call : Call}
    (hacc : Accepted g call) : L.cursor.Admits sha256 (call.stored sha256 g) := by
  constructor
  · rfl
  · exact hashMatches_seal _
  · exact hf.nextSeq
  · exact hf.prev
  · change L.cursor.lastTs ≤ max call.now g.lastTs
    rw [hf.lastTs]
    exact le_max_right _ _
  · exact hacc.actor
  · exact hacc.entry
  · intro o ho
    change call.entry = .outcome o at ho
    have hout := hacc.outcome
    simp only [refusesOutcome, ho] at hout
    rw [← hf.openSet]
    by_contra hmem
    rw [if_neg hmem] at hout
    cases hout

/-- `record`, with the two validations read as one. -/
theorem record_eq (sha256 : List UInt8 → Digest) (cfg : LogConfig) (g : Inner) (d : Dir)
    (call : Call) :
    record sha256 serde cfg g d call =
      validated (validateActor call.actor) g
        (validated (validateEntry call.entry) g
          (append sha256 serde cfg g d call.now call.actor call.entry call.fault)) := by
  unfold record
  cases hentry : call.entry <;> rfl

theorem record_refused {cfg : LogConfig} {g : Inner} {d : Dir} {call : Call}
    (hacc : ¬ Accepted g call) :
    ∃ e, record sha256 serde cfg g d call = { result := .error e, inner := g, steps := [] } := by
  rw [record_eq]
  cases hactor : validateActor call.actor with
  | error e => exact ⟨e, rfl⟩
  | ok u =>
      cases hentry : validateEntry call.entry with
      | error e => exact ⟨e, rfl⟩
      | ok u =>
          by_cases hfailed : g.failed = true
          · simp only [validated, append, if_pos hfailed]
            exact ⟨_, rfl⟩
          · cases hout : refusesOutcome g call.entry with
            | none => exact absurd ⟨eq_false_of_ne_true hfailed, hactor, hentry, hout⟩ hacc
            | some decisionSeq =>
                simp only [validated, append, if_neg hfailed, hout]
                exact ⟨_, rfl⟩

theorem record_accepted {cfg : LogConfig} {g : Inner} {d : Dir} {call : Call}
    (hacc : Accepted g call) :
    record sha256 serde cfg g d call =
      if mustRotate cfg g (call.stored sha256 g) then
        match (rotate serde cfg g d).result with
        | .error e =>
            { result := .error e
              inner := (rotate serde cfg g d).inner
              steps := (rotate serde cfg g d).steps }
        | .ok () =>
            { writeRecord (rotate serde cfg g d).inner (call.stored sha256 g) call.fault with
              steps := (rotate serde cfg g d).steps ++
                (writeRecord (rotate serde cfg g d).inner (call.stored sha256 g) call.fault).steps }
      else writeRecord g (call.stored sha256 g) call.fault := by
  rw [record_eq, hacc.actor, hacc.entry]
  simp only [validated, append, hacc.failed, hacc.outcome]
  rfl

/-- **A call is a run of the log**, with the call's record in the history or not at every point of
    it, and the writer's memory follows it. -/
theorem record_steps {cfg : LogConfig} (hmax : ∀ max, cfg.maxSegments = some max → 1 ≤ max)
    {g : Inner} {d : Dir} {L : Log} (hd : Describes d L) (h : L.Ok sha256) (hf : g.Follows L)
    {call : Call} (hlisted : RotationListed sha256 cfg g call) :
    ∃ L', Log.StepsIn sha256 (L.Appending (call.stored sha256 g)) L
        (record sha256 serde cfg g d call).steps L' ∧
      Leaves L (call.stored sha256 g) (record sha256 serde cfg g d call) L' := by
  by_cases hacc : Accepted g call
  swap
  · obtain ⟨e, hrefused⟩ : ∃ e, record sha256 serde cfg g d call =
        { result := .error e, inner := g, steps := [] } := record_refused serde hacc
    rw [hrefused]
    exact ⟨L, .nil L, .refused e rfl hf rfl⟩
  have hadm : L.cursor.Admits sha256 (call.stored sha256 g) := admits_stored hf hacc
  rw [record_accepted serde hacc]
  by_cases hrot : mustRotate cfg g (call.stored sha256 g)
  · rw [if_pos hrot]
    obtain ⟨steps, hrotate, hrun⟩ := rotate_steps serde hmax hd h hf (hlisted hacc hrot)
    have hf' := @follows_rotate cfg g L hf (h.deleted_le.trans h.covered_le)
    -- the record follows the rotated log as well: its history is the same
    have hcursor : (L.rotate (cfg.excess (g.segCount + 1))).cursor = L.cursor := by
      rw [Log.cursor, hist_rotate, Log.cursor]
    obtain ⟨L', hwrite, hleaves⟩ := writeRecord_steps hf' (hcursor ▸ hadm) call.fault
    rw [hrotate]
    rw [appending_rotate] at hwrite
    refine ⟨L', (hrun.weaken fun _ => Or.inl).append hwrite, ?_⟩
    cases hleaves with
    | appended hresult hfollows hhist hcur =>
        exact .appended hresult hfollows (hist_rotate L _ ▸ hhist) hcur
    | refused e hresult hfollows hhist =>
        exact .refused e hresult hfollows (hist_rotate L _ ▸ hhist)
    | failed e hresult hfailed hhist =>
        exact .failed e hresult hfailed (hist_rotate L _ ▸ hhist)
  · rw [if_neg hrot]
    exact writeRecord_steps hf hadm call.fault

/-- An accepted call whose writes succeed returns `Ok`, one segment further when it rotates. -/
theorem record_ok {cfg : LogConfig} (hmax : ∀ max, cfg.maxSegments = some max → 1 ≤ max) {g : Inner}
    {d : Dir} {L : Log} (hd : Describes d L) (h : L.Ok sha256) (hf : g.Follows L) {call : Call}
    (hacc : Accepted g call) (hfault : call.fault = .none)
    (hlisted : RotationListed sha256 cfg g call) :
    (record sha256 serde cfg g d call).result = .ok (receiptFor (call.stored sha256 g)) ∧
      (record sha256 serde cfg g d call).inner.segIndex =
        if mustRotate cfg g (call.stored sha256 g) then g.segIndex + 1 else g.segIndex := by
  rw [record_accepted serde hacc, hfault]
  by_cases hrot : mustRotate cfg g (call.stored sha256 g)
  · obtain ⟨steps, hrotate, -⟩ := rotate_steps serde hmax hd h hf (hlisted hacc hrot)
    rw [if_pos hrot, if_pos hrot, hrotate]
    exact ⟨rfl, rfl⟩
  · rw [if_neg hrot, if_neg hrot]
    exact ⟨rfl, rfl⟩

/-- Such a call appends its record. -/
theorem record_appends {cfg : LogConfig} (hmax : ∀ max, cfg.maxSegments = some max → 1 ≤ max)
    {g : Inner} {d : Dir} {L : Log} (hd : Describes d L) (h : L.Ok sha256) (hf : g.Follows L)
    {call : Call} (hacc : Accepted g call) (hfault : call.fault = .none)
    (hlisted : RotationListed sha256 cfg g call) :
    ∃ L', Log.StepsIn sha256 (L.Appending (call.stored sha256 g)) L
        (record sha256 serde cfg g d call).steps L' ∧
      (record sha256 serde cfg g d call).result = .ok (receiptFor (call.stored sha256 g)) ∧
      (record sha256 serde cfg g d call).inner.Follows L' ∧
      L'.hist = L.hist ++ [call.stored sha256 g] := by
  obtain ⟨hok, -⟩ := record_ok serde hmax hd h hf hacc hfault hlisted
  obtain ⟨L', hrun, hleaves⟩ := record_steps serde hmax hd h hf hlisted
  cases hleaves with
  | appended hresult hfollows hhist _ => exact ⟨L', hrun, hok, hfollows, hhist⟩
  | refused e hresult =>
      rw [hok] at hresult
      cases hresult
  | failed e hresult =>
      rw [hok] at hresult
      cases hresult

end AgentRuntime.Records
