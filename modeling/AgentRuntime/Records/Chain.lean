import AgentRuntime.Lib.Acceptor
import AgentRuntime.Records.Record

/-!
# `Records.Chain` — the abstract record chain

What the log is for, without its files: a sequence of records in which each one follows from the ones
before it. A `Cursor` is the position a sequence leads to (the next `seq`, the hash to link to, the
last timestamp, the allowing decisions still owed an outcome), `Admits` says when a record may follow,
and `recordChain` is the acceptor of the two. The verifier, the writer's memory and the pruning
checkpoint are three ways of computing a `Cursor`.

`mem_openSet_afterAll` reads the open set off the records: the allowing decisions without an outcome.
-/

namespace AgentRuntime.Records

/-! ## Positions -/

/-- The position after a sequence of records. -/
structure Cursor where
  nextSeq : ℕ
  prev : String
  lastTs : ℕ
  /-- Allowing decisions with no outcome yet. -/
  openSet : Finset ℕ
deriving DecidableEq

/-- Before the first record. -/
def Cursor.genesis : Cursor := { nextSeq := 0, prev := genesisPrev, lastTs := 0, openSet := ∅ }

/-- What one record does to the open set. -/
def openAfter (openSet : Finset ℕ) (b : RecordBody) : Finset ℕ :=
  match b.entry with
  | .decision d => if d.decision.expectsOutcome then insert b.seq openSet else openSet
  | .outcome o => openSet.erase o.decisionSeq

/-- The position after one more record. -/
def Cursor.after (c : Cursor) (r : StoredRecord) : Cursor :=
  { nextSeq := r.record.seq + 1
    prev := r.hash
    lastTs := r.record.tsMs
    openSet := openAfter c.openSet r.record }

@[simp] theorem after_nextSeq (c : Cursor) (r : StoredRecord) :
    (c.after r).nextSeq = r.record.seq + 1 := rfl

@[simp] theorem after_prev (c : Cursor) (r : StoredRecord) : (c.after r).prev = r.hash := rfl

@[simp] theorem after_lastTs (c : Cursor) (r : StoredRecord) :
    (c.after r).lastTs = r.record.tsMs := rfl

@[simp] theorem after_openSet (c : Cursor) (r : StoredRecord) :
    (c.after r).openSet = openAfter c.openSet r.record := rfl

/-! ## Which record may follow -/

/-- The record may stand at the position. -/
structure Cursor.Admits (sha256 : List UInt8 → Digest) (c : Cursor) (r : StoredRecord) : Prop where
  version : r.record.v = schemaVersion
  hash : r.hashMatches sha256 = true
  seq : r.record.seq = c.nextSeq
  prev : r.record.prev = c.prev
  time : c.lastTs ≤ r.record.tsMs
  actor : validateActor r.record.actor = .ok ()
  entry : validateEntry r.record.entry = .ok ()
  outcome : ∀ o, r.record.entry = .outcome o → o.decisionSeq ∈ c.openSet

/-- The chain of records under a hash. -/
def recordChain (sha256 : List UInt8 → Digest) : Acceptor Cursor StoredRecord where
  admits := Cursor.Admits sha256
  after := Cursor.after

variable {sha256 : List UInt8 → Digest}

@[simp] theorem recordChain_admits : (recordChain sha256).admits = Cursor.Admits sha256 := rfl

@[simp] theorem recordChain_after : (recordChain sha256).after = Cursor.after := rfl

/-- The position after all of `rs` (whatever the hash). -/
def Cursor.afterAll (c : Cursor) (rs : List StoredRecord) : Cursor := rs.foldl Cursor.after c

theorem accepts_cons_iff {c : Cursor} {r : StoredRecord} {rs : List StoredRecord} :
    (recordChain sha256).Accepts c (r :: rs) ↔
      c.Admits sha256 r ∧ (recordChain sha256).Accepts (c.after r) rs := Iff.rfl

theorem recordChain_afterAll (c : Cursor) (rs : List StoredRecord) :
    (recordChain sha256).afterAll c rs = c.afterAll rs := rfl

@[simp] theorem afterAll_nil (c : Cursor) : c.afterAll [] = c := rfl

@[simp] theorem afterAll_cons (c : Cursor) (r : StoredRecord) (rs : List StoredRecord) :
    c.afterAll (r :: rs) = (c.after r).afterAll rs := rfl

@[simp] theorem afterAll_append (c : Cursor) (rs ss : List StoredRecord) :
    c.afterAll (rs ++ ss) = (c.afterAll rs).afterAll ss := List.foldl_append

/-! ## What a chain looks like -/

/-- The records' `seq` are consecutive. -/
theorem map_seq_of_accepts {c : Cursor} {rs : List StoredRecord}
    (h : (recordChain sha256).Accepts c rs) :
    rs.map (fun r => r.record.seq) = List.range' c.nextSeq rs.length := by
  induction rs generalizing c with
  | nil => rfl
  | cons r rs ih =>
      obtain ⟨hadm, hrest⟩ := accepts_cons_iff.mp h
      rw [List.map_cons, List.length_cons, List.range'_succ, ih hrest,
        after_nextSeq, hadm.seq]

theorem nextSeq_afterAll {c : Cursor} {rs : List StoredRecord}
    (h : (recordChain sha256).Accepts c rs) :
    (c.afterAll rs).nextSeq = c.nextSeq + rs.length := by
  induction rs generalizing c with
  | nil => rfl
  | cons r rs ih =>
      obtain ⟨hadm, hrest⟩ := accepts_cons_iff.mp h
      rw [afterAll_cons, ih hrest, after_nextSeq, hadm.seq, List.length_cons]
      omega

/-- A record at index `i` carries `seq` `c.nextSeq + i`. -/
theorem seq_getElem {c : Cursor} {rs : List StoredRecord} (h : (recordChain sha256).Accepts c rs)
    {i : ℕ} (hi : i < rs.length) : (rs[i]).record.seq = c.nextSeq + i := by
  have hget : (rs.map fun r => r.record.seq)[i]? = some (c.nextSeq + i) := by
    rw [map_seq_of_accepts h, List.getElem?_range' hi, Nat.one_mul]
  rw [List.getElem?_map, List.getElem?_eq_getElem hi] at hget
  exact Option.some.inj hget

theorem seq_of_mem {c : Cursor} {rs : List StoredRecord} (h : (recordChain sha256).Accepts c rs)
    {r : StoredRecord} (hr : r ∈ rs) :
    c.nextSeq ≤ r.record.seq ∧ r.record.seq < c.nextSeq + rs.length := by
  obtain ⟨i, hi, rfl⟩ := List.getElem_of_mem hr
  rw [seq_getElem h hi]
  omega

/-- The last record of a non-empty chain is the position's predecessor. -/
theorem afterAll_concat (c : Cursor) (rs : List StoredRecord) (r : StoredRecord) :
    c.afterAll (rs ++ [r]) = (c.afterAll rs).after r := by
  rw [afterAll_append, afterAll_cons, afterAll_nil]

/-- Timestamps never decrease. -/
theorem sorted_ts_of_accepts {c : Cursor} {rs : List StoredRecord}
    (h : (recordChain sha256).Accepts c rs) :
    (rs.map fun r => r.record.tsMs).Pairwise (· ≤ ·) ∧ ∀ r ∈ rs, c.lastTs ≤ r.record.tsMs := by
  induction rs generalizing c with
  | nil => simp
  | cons r rs ih =>
      obtain ⟨hadm, hrest⟩ := accepts_cons_iff.mp h
      obtain ⟨hsorted, hle⟩ := ih hrest
      constructor
      · rw [List.map_cons, List.pairwise_cons]
        refine ⟨?_, hsorted⟩
        intro t ht
        obtain ⟨r', hr', rfl⟩ := List.mem_map.mp ht
        exact hle r' hr'
      · intro r' hr'
        rcases List.mem_cons.mp hr' with rfl | hr'
        · exact hadm.time
        · exact hadm.time.trans (hle r' hr')

/-! ## The open set -/

/-- `r` is an allowing decision. -/
def StoredRecord.allows (r : StoredRecord) : Prop :=
  ∃ d, r.record.entry = .decision d ∧ d.decision.expectsOutcome = true

/-- `r` closes decision `seq`. -/
def StoredRecord.closes (r : StoredRecord) (seq : ℕ) : Prop :=
  ∃ o, r.record.entry = .outcome o ∧ o.decisionSeq = seq

theorem mem_openAfter {s : Finset ℕ} {r : StoredRecord} {seq : ℕ} :
    seq ∈ openAfter s r.record ↔
      (r.allows ∧ r.record.seq = seq) ∨ (seq ∈ s ∧ ¬ r.closes seq) := by
  unfold openAfter StoredRecord.allows StoredRecord.closes
  cases hentry : r.record.entry with
  | decision d =>
      by_cases hd : d.decision.expectsOutcome = true
      · simp [hd, eq_comm (a := seq)]
      · simp [hd]
  | outcome o =>
      simp [and_comm, eq_comm (a := seq)]

theorem lt_nextSeq_of_mem_openSet {rs : List StoredRecord}
    (h : (recordChain sha256).Accepts Cursor.genesis rs) {seq : ℕ}
    (hmem : seq ∈ (Cursor.genesis.afterAll rs).openSet) : seq < rs.length := by
  induction rs using List.reverseRecOn with
  | nil => simp [Cursor.genesis] at hmem
  | append_singleton rs r ih =>
      obtain ⟨hrs, hadm⟩ := (recordChain sha256).accepts_concat.mp h
      have hseq : r.record.seq = rs.length := by
        rw [hadm.seq, recordChain_afterAll, nextSeq_afterAll hrs]
        simp [Cursor.genesis]
      rw [afterAll_concat, after_openSet, mem_openAfter] at hmem
      rw [List.length_append, List.length_singleton]
      rcases hmem with ⟨-, rfl⟩ | ⟨hmem, -⟩
      · omega
      · have := ih hrs hmem
        omega

/-- **The open set, read off the records**: the allowing decisions that no outcome closes. -/
theorem mem_openSet_afterAll {rs : List StoredRecord}
    (h : (recordChain sha256).Accepts Cursor.genesis rs) {seq : ℕ} :
    seq ∈ (Cursor.genesis.afterAll rs).openSet ↔
      (∃ r ∈ rs, r.allows ∧ r.record.seq = seq) ∧ ¬ ∃ r ∈ rs, r.closes seq := by
  induction rs using List.reverseRecOn with
  | nil => simp [Cursor.genesis]
  | append_singleton rs r ih =>
      obtain ⟨hrs, hadm⟩ := (recordChain sha256).accepts_concat.mp h
      have hseq : r.record.seq = rs.length := by
        rw [hadm.seq, recordChain_afterAll, nextSeq_afterAll hrs]
        simp [Cursor.genesis]
      -- an outcome closes a decision that is open, hence an earlier one
      have hclosed : ∀ r' ∈ rs, ∀ s, r'.closes s → s < rs.length := by
        intro r' hr' s hs
        obtain ⟨pre, post, rfl⟩ := List.append_of_mem hr'
        obtain ⟨o, ho, rfl⟩ := hs
        have hpre := hrs.left
        have hopen := hrs.right.1.outcome o ho
        have := lt_nextSeq_of_mem_openSet hpre hopen
        simp only [List.length_append, List.length_cons]
        omega
      rw [afterAll_concat, after_openSet, mem_openAfter, ih hrs]
      simp only [List.mem_append, List.mem_singleton]
      constructor
      · rintro (⟨hallows, rfl⟩ | ⟨⟨⟨r', hr', hallows, hr'seq⟩, hnone⟩, hnot⟩)
        · refine ⟨⟨r, Or.inr rfl, hallows, rfl⟩, ?_⟩
          rintro ⟨r', hr' | rfl, hcloses⟩
          · have := hclosed r' hr' _ hcloses
            omega
          · obtain ⟨d, hd, -⟩ := hallows
            obtain ⟨o, ho, -⟩ := hcloses
            rw [hd] at ho
            cases ho
        · refine ⟨⟨r', Or.inl hr', hallows, hr'seq⟩, ?_⟩
          rintro ⟨r'', hr'' | rfl, hcloses⟩
          · exact hnone ⟨r'', hr'', hcloses⟩
          · exact hnot hcloses
      · rintro ⟨⟨r', hr' | rfl, hallows, hr'seq⟩, hnone⟩
        · refine Or.inr ⟨⟨⟨r', hr', hallows, hr'seq⟩, ?_⟩, ?_⟩
          · rintro ⟨r'', hr'', hcloses⟩
            exact hnone ⟨r'', Or.inl hr'', hcloses⟩
          · intro hcloses
            exact hnone ⟨r, Or.inr rfl, hcloses⟩
        · exact Or.inl ⟨hallows, hr'seq⟩

end AgentRuntime.Records
