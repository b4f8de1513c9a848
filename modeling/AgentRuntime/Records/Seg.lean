import AgentRuntime.Lib.Words
import AgentRuntime.Records.Chain

/-!
# `Records.Seg` — on-disk layout and the chain walk (`agent-records/src/seg.rs`)

A records directory holds segment files `seg-NNNNNNNN.jsonl` (one `StoredRecord` per line), `HEAD`,
`CHECKPOINT` and quarantined `torn-*.bin` files. `walk` is shared by the writer (`Recover`), the verifier
(`Strict`) and concurrent readers (`Live`). It works on a `View`: what its reads of the directory
returned, so that a live walk, whose reads happen at different moments, is the same function.

`LOCK` and the `.tmp` files of atomic writes are left out: no function reads them.
-/

namespace AgentRuntime.Records

open Words

/-! ## Segment names -/

/-- `{index:08}`: decimal digits, zero padded to eight. -/
def pad8 (index : ℕ) : List Char :=
  List.replicate (8 - (Nat.toDigits 10 index).length) '0' ++ Nat.toDigits 10 index

def segName (index : ℕ) : String :=
  String.ofList ("seg-".toList ++ (pad8 index ++ ".jsonl".toList))

/-- The file name without its extension. -/
def segStem (index : ℕ) : String := String.ofList ("seg-".toList ++ pad8 index)

/-- `str::parse::<u32>` of a text of digits. -/
def parseU32 (digits : List Char) : Option ℕ :=
  if Nat.ofDigitChars 10 digits 0 < u32Bound then some (Nat.ofDigitChars 10 digits 0) else none

def parseSegName (name : String) : Option ℕ :=
  (name.toList.dropPrefix? "seg-".toList).bind fun rest =>
    (rest.dropSuffix? ".jsonl".toList).bind fun n =>
      if n.length = 8 ∧ n.all Char.isDigit then parseU32 n else none

/-- The first segment index whose name `parse_seg_name` does not read back. -/
def segNameBound : ℕ := 10 ^ 8

/-! ## Files -/

/-- The tip file. -/
structure Head where
  seq : ℕ
  hash : String
deriving DecidableEq, Repr

/-- Where the retained chain starts after older segments were pruned. -/
structure Checkpoint where
  /-- The first retained `seq`. -/
  nextSeq : ℕ
  /-- Hash of the last pruned record (the `prev` of record `nextSeq`). -/
  prev : String
  /-- Timestamp of the last pruned record. -/
  tsMs : ℕ
  /-- Allowing decisions at or before the checkpoint that still had no outcome. -/
  openSeqs : List ℕ
deriving DecidableEq, Repr

/-- A JSON file of the directory, as `serde_json` sees it. -/
inductive JsonFile (α : Type) where
  | absent
  | malformed
  | ok (value : α)
deriving DecidableEq, Repr

def readJsonFile {α : Type} : JsonFile α → Except Error (Option α)
  | .absent => .ok none
  | .malformed => .error .json
  | .ok value => .ok (some value)

/-- The segment files of a directory, keyed by index: file `i` is named `segName i`. -/
structure SegFiles where
  entries : List (ℕ × List UInt8)
  nodup : (entries.map Prod.fst).Nodup

namespace SegFiles

def empty : SegFiles := ⟨[], List.nodup_nil⟩

/-- The bytes of file `i`. -/
def get? (s : SegFiles) (i : ℕ) : Option (List UInt8) := s.entries.lookup i

def contains (s : SegFiles) (i : ℕ) : Bool := s.entries.any (fun e => e.1 == i)

theorem contains_iff {s : SegFiles} {i : ℕ} : s.contains i = true ↔ i ∈ s.entries.map Prod.fst := by
  simp [contains]

/-- Create file `i`, empty, unless it exists. -/
def create (s : SegFiles) (i : ℕ) : SegFiles :=
  if h : s.contains i = true then s
  else
    { entries := s.entries ++ [(i, [])]
      nodup := by
        rw [List.map_append, List.nodup_append]
        refine ⟨s.nodup, List.nodup_singleton i, ?_⟩
        intro a ha b hb hab
        rw [hab, List.mem_singleton.mp hb] at ha
        exact h (contains_iff.mpr ha) }

/-- Change the bytes of file `i`. -/
def modify (s : SegFiles) (i : ℕ) (f : List UInt8 → List UInt8) : SegFiles where
  entries := s.entries.map fun e => if e.1 = i then (e.1, f e.2) else e
  nodup := by
    have hfst : (s.entries.map fun e => if e.1 = i then (e.1, f e.2) else e).map Prod.fst
        = s.entries.map Prod.fst := by
      rw [List.map_map]
      apply List.map_congr_left
      intro e _
      by_cases he : e.1 = i <;> simp [he]
    rw [hfst]
    exact s.nodup

/-- Remove file `i`. -/
def erase (s : SegFiles) (i : ℕ) : SegFiles where
  entries := s.entries.filter fun e => e.1 != i
  nodup := (List.filter_sublist.map Prod.fst).nodup s.nodup

end SegFiles

/-- A records directory. -/
structure Dir where
  head : JsonFile Head
  checkpoint : JsonFile Checkpoint
  segs : SegFiles
  /-- Quarantined final lines, by file name. -/
  torn : List (String × List UInt8)

/-- A directory nothing was written to. -/
def Dir.empty : Dir := { head := .absent, checkpoint := .absent, segs := .empty, torn := [] }

/-- Indices of the segments, sorted. -/
def listSegments (d : Dir) : List ℕ :=
  (d.segs.entries.filterMap fun e => parseSegName (segName e.1)).mergeSort (· ≤ ·)

/-! ## Reading one segment -/

/-- A segment as read from disk. -/
structure SegmentRead where
  records : List StoredRecord
  /-- Byte offset and length of an incomplete final line. -/
  torn : Option (ℕ × ℕ)

/-- The lines closed by a line feed, without it, and what follows the last line feed. -/
def splitLines : List UInt8 → List (List UInt8) × List UInt8
  | [] => ([], [])
  | b :: rest =>
      if b = 10 then ([] :: (splitLines rest).1, (splitLines rest).2)
      else
        match (splitLines rest).1 with
        | [] => ([], b :: (splitLines rest).2)
        | line :: lines => ((b :: line) :: lines, (splitLines rest).2)

/-- Parse the complete lines in order; `lineNo` is the number of the line before. -/
def parseLines (serde : Serde) (segment : String) :
    ℕ → List (List UInt8) → Except Error (List StoredRecord)
  | _, [] => .ok []
  | lineNo, line :: rest =>
      match serde.fromSlice line with
      | none => .error (.integrity (.malformed segment (lineNo + 1)))
      | some rec => do
          let records ← parseLines serde segment (lineNo + 1) rest
          pure (rec :: records)

/-- Read segment `index` from what `fs::read` returned for it. -/
def readSegment (serde : Serde) (index : ℕ) : Option (List UInt8) → Except Error SegmentRead
  | none => .error (.io (segName index))
  | some bytes => do
      let records ← parseLines serde (segName index) 0 (splitLines bytes).1
      let tail := (splitLines bytes).2
      pure
        { records := records
          torn := if tail.isEmpty then none else some (bytes.length - tail.length, tail.length) }

/-! ## The walk -/

/-- How strictly the walk treats states a live writer can produce mid-read. -/
inductive Mode where
  | strict
  | recover
  | live
deriving DecidableEq, Repr

structure Walked where
  count : ℕ
  firstSeq : Option ℕ
  /-- `(seq, hash, ts_ms)` of the last record. -/
  tip : Option (ℕ × String × ℕ)
  segments : ℕ
  openSet : Finset ℕ
  headLag : Bool
  /-- Last segment with an incomplete final line: its index, offset and length. -/
  torn : Option (ℕ × ℕ × ℕ)
  /-- Segments whose records all precede the checkpoint. -/
  staleSegments : List ℕ
  checkpoint : Option Checkpoint
deriving DecidableEq

/-- What the walk's reads returned: `HEAD`, `CHECKPOINT`, and each listed segment. -/
structure View where
  head : JsonFile Head
  checkpoint : JsonFile Checkpoint
  segs : List (ℕ × Option (List UInt8))

/-- The reads of a quiescent directory. -/
def Dir.view (d : Dir) : View where
  head := d.head
  checkpoint := d.checkpoint
  segs := (listSegments d).map fun i => (i, d.segs.get? i)

/-- The walk's local variables, and the records visited so far. -/
structure WalkState where
  w : Walked
  expectSeq : ℕ
  prev : String
  lastTs : ℕ
  headHashAtSeq : Option String
  visited : List StoredRecord

/-- The first retained `seq`. -/
def floorOf (checkpoint : Option Checkpoint) : ℕ :=
  match checkpoint with
  | some cp => cp.nextSeq
  | none => 0

section Walk

variable (sha256 : List UInt8 → Digest) (serde : Serde)

/-- The open set after the entry of `b`, when the entry is valid. -/
def checkEntry (openSet : Finset ℕ) (b : RecordBody) : Except Error (Finset ℕ) :=
  match b.entry with
  | .decision d =>
      match validateDecision d with
      | .error e => .error (.integrity (.policy b.seq e.text))
      | .ok () => .ok (if d.decision.expectsOutcome then insert b.seq openSet else openSet)
  | .outcome o =>
      match validateOutcome o with
      | .error e => .error (.integrity (.policy b.seq e.text))
      | .ok () =>
          if o.decisionSeq ∈ openSet then .ok (openSet.erase o.decisionSeq)
          else .error (.integrity (.badOutcomeRef b.seq o.decisionSeq))

/-- The end of the loop body: visit the record and move to it. -/
def WalkState.push (head : Option Head) (openSet : Finset ℕ) (st : WalkState) (r : StoredRecord) :
    WalkState :=
  { w :=
      { st.w with
        count := st.w.count + 1
        firstSeq := some (st.w.firstSeq.getD r.record.seq)
        tip := some (r.record.seq, r.hash, r.record.tsMs)
        openSet := openSet }
    expectSeq := r.record.seq + 1
    prev := r.hash
    lastTs := r.record.tsMs
    headHashAtSeq :=
      if head.any (fun h => h.seq == r.record.seq) then some r.hash else st.headHashAtSeq
    visited := st.visited ++ [r] }

/-- One record of the walk. -/
def walkRecord (head : Option Head) (checkpoint : Option Checkpoint) (st : WalkState)
    (r : StoredRecord) : Except Error WalkState :=
  let b := r.record
  if b.v ≠ schemaVersion then .error (.integrity (.unknownVersion b.seq b.v))
  else if r.hashMatches sha256 = false then .error (.integrity (.hashMismatch b.seq))
  else if b.seq ≠ st.expectSeq then .error (.integrity (.seqGap st.expectSeq b.seq))
  else if b.prev ≠ st.prev then
    if checkpoint.isSome ∧ b.seq = floorOf checkpoint then .error (.integrity .checkpointMismatch)
    else .error (.integrity (.prevMismatch b.seq))
  else if b.tsMs < st.lastTs then .error (.integrity (.timeReversed b.seq))
  else
    match validateActor b.actor with
    | .error e => .error (.integrity (.policy b.seq e.text))
    | .ok () =>
        match checkEntry st.w.openSet b with
        | .error e => .error e
        | .ok openSet => .ok (st.push head openSet r)

/-- What an incomplete final line means for the mode. -/
def checkTorn (mode : Mode) (isLast : Bool) (index : ℕ) (torn : Option (ℕ × ℕ)) (w : Walked) :
    Except Error Walked :=
  match torn with
  | none => .ok w
  | some (off, len) =>
      match mode, isLast with
      | .live, true => .ok w
      | .recover, true => .ok { w with torn := some (index, off, len) }
      | _, _ => .error (.integrity (.tornTail (segName index)))

/-- Every record of the segment precedes the checkpoint. -/
def allStale (floor : ℕ) (records : List StoredRecord) : Bool :=
  !records.isEmpty && records.all (fun r => decide (r.record.seq < floor))

/-- A segment left behind by a crash between writing CHECKPOINT and deleting it. -/
def skipStale (checkpoint : Option Checkpoint) (index : ℕ) (records : List StoredRecord)
    (st : WalkState) : Except Error WalkState :=
  if st.w.count > 0 then
    .error (.integrity (.seqGap st.expectSeq ((records.head?.map fun r => r.record.seq).getD 0)))
  else if (records.find? fun r => r.record.seq + 1 == floorOf checkpoint).any
      (fun r => checkpoint.any fun cp => cp.prev != r.hash) then
    .error (.integrity .checkpointMismatch)
  else .ok { st with w := { st.w with staleSegments := st.w.staleSegments ++ [index] } }

/-- One segment of the walk. -/
def walkSeg (head : Option Head) (checkpoint : Option Checkpoint) (mode : Mode) (isLast : Bool)
    (index : ℕ) (bytes : Option (List UInt8)) (st : WalkState) : Except Error WalkState := do
  let seg ← readSegment serde index bytes
  let w ← checkTorn mode isLast index seg.torn st.w
  if allStale (floorOf checkpoint) seg.records then
    skipStale checkpoint index seg.records { st with w := w }
  else seg.records.foldlM (walkRecord sha256 head checkpoint) { st with w := w }

/-- The loop over the segments. -/
def walkSegs (head : Option Head) (checkpoint : Option Checkpoint) (mode : Mode) :
    List (ℕ × Option (List UInt8)) → WalkState → Except Error WalkState
  | [], st => .ok st
  | (index, bytes) :: rest, st => do
      let st ← walkSeg sha256 serde head checkpoint mode rest.isEmpty index bytes st
      walkSegs head checkpoint mode rest st

/-- Where the walk starts. -/
def walkStart (checkpoint : Option Checkpoint) (segments : ℕ) : WalkState where
  w :=
    { count := 0
      firstSeq := none
      tip := none
      segments := segments
      openSet := (checkpoint.elim [] Checkpoint.openSeqs).toFinset
      headLag := false
      torn := none
      staleSegments := []
      checkpoint := none }
  expectSeq := floorOf checkpoint
  prev := checkpoint.elim genesisPrev Checkpoint.prev
  lastTs := checkpoint.elim 0 Checkpoint.tsMs
  headHashAtSeq := none
  visited := []

/-- The check of the tip against `HEAD`: whether `HEAD` lags. -/
def checkHead (mode : Mode) (head : Option Head) (checkpoint : Option Checkpoint)
    (tip : Option (ℕ × String × ℕ)) (headHashAtSeq : Option String) : Except Error Bool :=
  match head, tip with
  | none, none => if checkpoint.isNone then .ok false else .error (.integrity .headMissing)
  | none, some _ => .error (.integrity .headMissing)
  | some h, none =>
      -- right after a prune dropped every record, `HEAD` names the checkpoint's last record
      if checkpoint.any (fun cp => h.seq + 1 == cp.nextSeq && h.hash == cp.prev) then .ok false
      else .error (.integrity (.truncated h.seq none))
  | some h, some (tip, tipHash, _) =>
      if h.seq > tip then .error (.integrity (.truncated h.seq (some tip)))
      else if h.seq < floorOf checkpoint ∧ mode ≠ .live then .error (.integrity (.headBehind h.seq tip))
      else if ¬ h.seq < floorOf checkpoint ∧ headHashAtSeq ≠ some h.hash then
        .error (.integrity (.headHashMismatch h.seq))
      else if h.seq = tip ∧ tipHash ≠ h.hash then .error (.integrity (.headHashMismatch h.seq))
      else if tip - h.seq > 1 ∧ mode ≠ .live then .error (.integrity (.headBehind h.seq tip))
      else .ok (decide (tip - h.seq > 0))

/-- **Walk the whole retained chain**, checking every link; returns what was seen and the records
    visited, in order. -/
def walk (v : View) (mode : Mode) : Except Error (Walked × List StoredRecord) := do
  let head ← readJsonFile v.head
  let checkpoint ← readJsonFile v.checkpoint
  let st ← walkSegs sha256 serde head checkpoint mode v.segs (walkStart checkpoint v.segs.length)
  let headLag ← checkHead mode head checkpoint st.w.tip st.headHashAtSeq
  pure ({ st.w with headLag := headLag, checkpoint := checkpoint }, st.visited)

/-! ## The offline verifier (`verify.rs`) -/

/-- What a successful verification saw. -/
structure VerifyReport where
  count : ℕ
  firstSeq : Option ℕ
  tip : Option (ℕ × String)
  segments : ℕ
  /-- Allowing decisions that have no outcome yet, ascending. -/
  openDecisions : List ℕ
  headLag : Bool
deriving DecidableEq

def Walked.report (w : Walked) : VerifyReport where
  count := w.count
  firstSeq := w.firstSeq
  tip := w.tip.map fun t => (t.1, t.2.1)
  segments := w.segments
  openDecisions := w.openSet.sort (· ≤ ·)
  headLag := w.headLag

/-- Verify a records directory end to end. -/
def verifyDir (d : Dir) : Except Error VerifyReport := do
  let (w, _) ← walk sha256 serde d.view .strict
  pure w.report

end Walk

end AgentRuntime.Records
