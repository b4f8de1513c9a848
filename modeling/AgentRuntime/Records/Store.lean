import AgentRuntime.Records.Seg

/-!
# `Records.Store` — the single writer (`agent-records/src/store.rs`)

A call of the writer reads the directory and makes a sequence of durable file steps. `Done` carries
all three: the result, the writer's memory afterwards, and the steps in order. The directory after a
call is the directory before it with the steps applied, a crash leaves the directory after a prefix
of them (a torn line is a prefix of the line's `writeByte` steps), and a concurrent reader sees the
directory after some prefix at each of its reads.

`Fault` is what can go wrong with the writes of one `append`. Integers are naturals, so
`saturating_add` and the `seq` counter do not wrap; the segment index keeps its `u32` check.
-/

namespace AgentRuntime.Records

open Words

/-! ## Durable file steps -/

inductive FileStep where
  | createSeg (index : ℕ)
  /-- One more byte of a line reaches the segment. -/
  | writeByte (index : ℕ) (byte : UInt8)
  | setLen (index len : ℕ)
  | deleteSeg (index : ℕ)
  | replaceHead (head : Head)
  | replaceCheckpoint (checkpoint : Checkpoint)
  | writeTorn (name : String) (bytes : List UInt8)
deriving DecidableEq, Repr

def Dir.apply (d : Dir) : FileStep → Dir
  | .createSeg index => { d with segs := d.segs.create index }
  | .writeByte index byte => { d with segs := d.segs.modify index fun bytes => bytes ++ [byte] }
  | .setLen index len => { d with segs := d.segs.modify index fun bytes => bytes.take len }
  | .deleteSeg index => { d with segs := d.segs.erase index }
  | .replaceHead head => { d with head := .ok head }
  | .replaceCheckpoint checkpoint => { d with checkpoint := .ok checkpoint }
  | .writeTorn name bytes => { d with torn := d.torn ++ [(name, bytes)] }

def Dir.applyAll (d : Dir) (steps : List FileStep) : Dir := steps.foldl Dir.apply d

@[simp] theorem applyAll_nil (d : Dir) : d.applyAll [] = d := rfl

@[simp] theorem applyAll_cons (d : Dir) (s : FileStep) (steps : List FileStep) :
    d.applyAll (s :: steps) = (d.apply s).applyAll steps := rfl

theorem applyAll_append (d : Dir) (steps steps' : List FileStep) :
    d.applyAll (steps ++ steps') = (d.applyAll steps).applyAll steps' := List.foldl_append

/-- `write_all` of a line. -/
def writeLine (index : ℕ) (line : List UInt8) : List FileStep := line.map (FileStep.writeByte index)

/-! ## Configuration, memory, results -/

/-- Rotation and retention. -/
structure LogConfig where
  /-- A new segment starts when the next record would push the current one past this size. -/
  maxSegmentBytes : ℕ
  /-- Keep at most this many segments. -/
  maxSegments : Option ℕ
deriving DecidableEq, Repr

/-- The clamping done on open. -/
def LogConfig.clamped (cfg : LogConfig) : LogConfig where
  maxSegmentBytes := max cfg.maxSegmentBytes 1
  maxSegments := cfg.maxSegments.map fun n => max n 1

/-- Returned once a record is durable. -/
structure Receipt where
  seq : ℕ
  hash : String
  tsMs : ℕ
  /-- The decision allows an effect, so an outcome is owed. -/
  awaitingOutcome : Bool
deriving DecidableEq, Repr

/-- What opening had to repair. -/
structure RecoveryReport where
  tornTailBytes : ℕ
  headRepaired : Bool
  markedUnknown : List ℕ
  staleSegmentsRemoved : ℕ
deriving DecidableEq, Repr

/-- The writer's memory. -/
structure Inner where
  segIndex : ℕ
  segLen : ℕ
  segCount : ℕ
  nextSeq : ℕ
  prev : String
  lastTs : ℕ
  openSet : Finset ℕ
  /-- Set after a write failed in a way that may leave the files inconsistent with this state. -/
  failed : Bool
deriving DecidableEq

/-- What goes wrong with the writes of one append. -/
inductive Fault where
  | none
  /-- Writing the line failed after `written` bytes; whether cutting them off again worked. -/
  | line (written : ℕ) (rolledBack : Bool)
  /-- Replacing `HEAD` failed, before or after the rename. -/
  | head (replaced : Bool)
deriving DecidableEq, Repr

/-- What a call did: its result, the memory it left, its durable steps in order. -/
structure Done (α : Type) where
  result : Except Error α
  inner : Inner
  steps : List FileStep

/-! ## Rotation and retention -/

section Writer

variable (sha256 : List UInt8 → Digest) (serde : Serde)

/-- The loop of `prune_oldest` over the records of the oldest segment: the open set behind them. -/
def openBehind (prior : Finset ℕ) (records : List StoredRecord) : Finset ℕ :=
  records.foldl (fun openSet r => openAfter openSet r.record) prior

/-- Drop the oldest segment behind a checkpoint: write the new CHECKPOINT, then delete it. -/
def pruneOldest (d : Dir) : Except Error (List FileStep) :=
  match listSegments d with
  | [] => .ok []
  | oldest :: _ => do
      let prior ← readJsonFile d.checkpoint
      let seg ← readSegment serde oldest (d.segs.get? oldest)
      let dropped := seg.records.filter fun r => decide (floorOf prior ≤ r.record.seq)
      match dropped.getLast? with
      | none => pure [.deleteSeg oldest]
      | some last =>
          let openSet := openBehind (prior.elim [] Checkpoint.openSeqs).toFinset dropped
          pure
            [ .replaceCheckpoint
                { nextSeq := last.record.seq + 1
                  prev := last.hash
                  tsMs := last.record.tsMs
                  openSeqs := openSet.sort (· ≤ ·) },
              .deleteSeg oldest ]

/-- `while g.seg_count > max`. -/
def pruneLoop (max : ℕ) (g : Inner) (d : Dir) : Done Unit :=
  if g.segCount > max then
    match pruneOldest serde d with
    | .error e => { result := .error e, inner := { g with failed := true }, steps := [] }
    | .ok steps =>
        let rest := pruneLoop max { g with segCount := g.segCount - 1 } (d.applyAll steps)
        { rest with steps := steps ++ rest.steps }
  else { result := .ok (), inner := g, steps := [] }
termination_by g.segCount

def rotate (cfg : LogConfig) (g : Inner) (d : Dir) : Done Unit :=
  match checkedAdd u32Bound g.segIndex 1 with
  | none => { result := .error (.invalid "segment index exhausted"), inner := g, steps := [] }
  | some next =>
      if d.segs.contains next then
        { result := .error (.io (segName next)), inner := g, steps := [] }
      else
        let g := { g with segIndex := next, segLen := 0, segCount := g.segCount + 1 }
        match cfg.maxSegments with
        | none => { result := .ok (), inner := g, steps := [.createSeg next] }
        | some max =>
            let pruned := pruneLoop serde max g (d.apply (.createSeg next))
            { pruned with steps := .createSeg next :: pruned.steps }

/-! ## Appending -/

/-- Write a sealed record and move `HEAD` to it. -/
def writeRecord (g : Inner) (stored : StoredRecord) (fault : Fault) : Done Receipt :=
  let line := stored.toVec ++ [10]
  let head : Head := { seq := stored.record.seq, hash := stored.hash }
  match fault with
  | .line written rolledBack =>
      -- roll back a partial line; if even that fails, refuse further writes
      { result := .error (.io (segName g.segIndex))
        inner := { g with failed := !rolledBack }
        steps := writeLine g.segIndex (line.take written) ++
          if rolledBack then [.setLen g.segIndex g.segLen] else [] }
  | .head replaced =>
      -- the record is durable but `HEAD` lags
      { result := .error (.io "HEAD")
        inner := { g with failed := true }
        steps := writeLine g.segIndex line ++ if replaced then [.replaceHead head] else [] }
  | .none =>
      let awaitingOutcome :=
        match stored.record.entry with
        | .decision d => d.decision.expectsOutcome
        | .outcome _ => false
      { result := .ok
          { seq := stored.record.seq
            hash := stored.hash
            tsMs := stored.record.tsMs
            awaitingOutcome := awaitingOutcome }
        inner :=
          { g with
            segLen := g.segLen + line.length
            nextSeq := g.nextSeq + 1
            prev := stored.hash
            lastTs := stored.record.tsMs
            openSet := openAfter g.openSet stored.record }
        steps := writeLine g.segIndex line ++ [.replaceHead head] }

/-- The record an append seals. -/
def sealNext (g : Inner) (now : ℕ) (actor : Actor) (entry : Entry) : StoredRecord :=
  StoredRecord.seal sha256
    { v := schemaVersion
      seq := g.nextSeq
      tsMs := max now g.lastTs
      prev := g.prev
      actor := actor
      entry := entry }

/-- Whether the record would push the current segment past its size. -/
def mustRotate (cfg : LogConfig) (g : Inner) (stored : StoredRecord) : Prop :=
  g.segLen > 0 ∧ g.segLen + (stored.toVec ++ [10]).length > cfg.maxSegmentBytes

instance (cfg : LogConfig) (g : Inner) (stored : StoredRecord) :
    Decidable (mustRotate cfg g stored) := by
  unfold mustRotate; infer_instance

/-- The outcome of a decision that is not open is refused. -/
def refusesOutcome (g : Inner) (entry : Entry) : Option ℕ :=
  match entry with
  | .decision _ => none
  | .outcome o => if o.decisionSeq ∈ g.openSet then none else some o.decisionSeq

def append (cfg : LogConfig) (g : Inner) (d : Dir) (now : ℕ) (actor : Actor) (entry : Entry)
    (fault : Fault) : Done Receipt :=
  if g.failed then
    { result := .error (.invalid
        "an earlier write failed; reopen the log to recover before recording more")
      inner := g
      steps := [] }
  else
    match refusesOutcome g entry with
    | some decisionSeq =>
        { result := .error (.invalid
            ("decision " ++ toString decisionSeq ++ " is not an open allowing decision"))
          inner := g
          steps := [] }
    | none =>
        let stored := sealNext sha256 g now actor entry
        if mustRotate cfg g stored then
          let rotated := rotate serde cfg g d
          match rotated.result with
          | .error e => { result := .error e, inner := rotated.inner, steps := rotated.steps }
          | .ok () =>
              let written := writeRecord rotated.inner stored fault
              { written with steps := rotated.steps ++ written.steps }
        else writeRecord g stored fault

/-- A call that fails its validation does nothing. -/
def validated (check : Except Error Unit) (g : Inner) (done : Done Receipt) : Done Receipt :=
  match check with
  | .error e => { result := .error e, inner := g, steps := [] }
  | .ok () => done

/-- Record an HIC decision. -/
def recordDecision (cfg : LogConfig) (g : Inner) (d : Dir) (now : ℕ) (actor : Actor)
    (event : DecisionEvent) (fault : Fault) : Done Receipt :=
  validated (validateActor actor) g
    (validated (validateDecision event) g
      (append sha256 serde cfg g d now actor (.decision event) fault))

/-- Close an allowing decision with what happened to its effect. -/
def recordOutcome (cfg : LogConfig) (g : Inner) (d : Dir) (now : ℕ) (actor : Actor)
    (event : OutcomeEvent) (fault : Fault) : Done Receipt :=
  validated (validateActor actor) g
    (validated (validateOutcome event) g
      (append sha256 serde cfg g d now actor (.outcome event) fault))

/-- One call of the public interface, with the clock's reading and the fate of its writes. -/
structure Call where
  now : ℕ
  actor : Actor
  entry : Entry
  fault : Fault
deriving DecidableEq, Repr

def record (cfg : LogConfig) (g : Inner) (d : Dir) (call : Call) : Done Receipt :=
  match call.entry with
  | .decision event => recordDecision sha256 serde cfg g d call.now call.actor event call.fault
  | .outcome event => recordOutcome sha256 serde cfg g d call.now call.actor event call.fault

/-! ## Opening -/

def recoveryActor : Actor := { kind := .daemon, id := "agent-records.recovery" }

@[irreducible] def unknownDetail : String :=
  "closed on recovery: the process stopped after this decision was recorded and before " ++
    "its outcome was; the effect may or may not have happened"

/-- The outcome that closes decision `seq` on recovery. -/
def unknownOutcome (seq : ℕ) : OutcomeEvent where
  decisionSeq := seq
  outcome := .outcomeUnknown
  detail := unknownDetail

/-- Move an incomplete final line into `torn-<segment>-<offset>.bin`, then cut it off. -/
def quarantineTorn (d : Dir) (index off : ℕ) : List FileStep :=
  let tail := ((d.segs.get? index).getD []).drop off
  [.writeTorn ("torn-" ++ segStem index ++ "-" ++ toString off ++ ".bin") tail, .setLen index off]

/-- The repairs before the segment is opened: quarantine, stale segments, a lagging `HEAD`. -/
def repairs (d : Dir) (w : Walked) : List FileStep :=
  (match w.torn with
    | some (index, off, _) => quarantineTorn d index off
    | none => []) ++
  (w.staleSegments.map FileStep.deleteSeg ++
    if w.headLag then
      match w.tip with
      | some (seq, hash, _) => [.replaceHead { seq := seq, hash := hash }]
      | none => []
    else [])

/-- The chain position the opened log continues from. -/
def resumeAt (w : Walked) : ℕ × String × ℕ :=
  match w.tip, w.checkpoint with
  | some (seq, hash, ts), _ => (seq + 1, hash, ts)
  | none, some cp => (cp.nextSeq, cp.prev, cp.tsMs)
  | none, none => (0, genesisPrev, 0)

/-- The memory over the repaired directory `d`, and the steps of opening the current segment. -/
def openSegment (d : Dir) (w : Walked) : Inner × List FileStep :=
  let segs := listSegments d
  let index := segs.getLast?.getD 1
  let steps := if d.segs.contains index then [] else [FileStep.createSeg index]
  let seg := ((d.applyAll steps).segs.get? index).getD []
  ({ segIndex := index
     segLen := seg.length
     segCount := max segs.length 1
     nextSeq := (resumeAt w).1
     prev := (resumeAt w).2.1
     lastTs := (resumeAt w).2.2
     openSet := w.openSet
     failed := false }, steps)

/-- Close the decisions left open, in order; `clock i` is the `i`-th reading of the clock. -/
def closeOpen (cfg : LogConfig) (clock : ℕ → ℕ) :
    ℕ → List ℕ → Inner → Dir → Done (List ℕ)
  | _, [], g, _ => { result := .ok [], inner := g, steps := [] }
  | i, seq :: rest, g, d =>
      let closed := recordOutcome sha256 serde cfg g d (clock i) recoveryActor (unknownOutcome seq) .none
      match closed.result with
      | .error e => { result := .error e, inner := closed.inner, steps := closed.steps }
      | .ok _ =>
          let more := closeOpen cfg clock (i + 1) rest closed.inner (d.applyAll closed.steps)
          { result := more.result.map (seq :: ·)
            inner := more.inner
            steps := closed.steps ++ more.steps }

/-- What opening did: the opened log with what it repaired, and its durable steps in order. -/
structure Opened where
  result : Except Error (Inner × RecoveryReport)
  steps : List FileStep

/-- **Open (or create) the log**, recovering from a crash. -/
def openWithClock (cfg : LogConfig) (d : Dir) (clock : ℕ → ℕ) : Opened :=
  match walk sha256 serde d.view .recover with
  | .error e => { result := .error e, steps := [] }
  | .ok (w, _) =>
      let repair := repairs d w
      let opened := openSegment (d.applyAll repair) w
      let closed := closeOpen sha256 serde cfg.clamped clock 0 (w.openSet.sort (· ≤ ·)) opened.1
        ((d.applyAll repair).applyAll opened.2)
      { result := closed.result.map fun marked =>
          (closed.inner,
            { tornTailBytes := (w.torn.map fun t => t.2.2).getD 0
              headRepaired := w.headLag && w.tip.isSome
              markedUnknown := marked
              staleSegmentsRemoved := w.staleSegments.length })
        steps := repair ++ (opened.2 ++ closed.steps) }

end Writer

end AgentRuntime.Records
