import AgentRuntime.Anchor.Tree
import AgentRuntime.Records.Record

/-!
# `Anchor.Batch` — one UTC day's records as a batch (`agent-anchor/src/batch.rs`)

The anchored value is a commitment over the batch header, the header binds the day, the `seq` range,
the count and the tree root, and a proof binds a record's `seq` to its leaf position. `proof_sound`
composes the four bindings: the commitment's bytes determine the header (`header_eq_of_input`), a
well-formed header fixes the number of leaves, `seq = first_seq + leaf_index` fixes the index, and the
path pins the leaf (`Records.Merkle.eq_of_verifyPath`).

Header integers are naturals; `InRange` says they are values of the Rust types (`u32`, `u64`).
-/

namespace AgentRuntime.Anchor

open Words Records.Merkle

/-! ## Errors -/

inductive Error where
  | records (e : Records.Error)
  | io (path : String)
  | json
  | locked
  | dayNotClosed (day today : ℕ)
  | seqGap (day expected found : ℕ)
  | conflict (day : ℕ)
  | overlap (day other : ℕ)
  | notBatched (day : ℕ)
  | prunedDay (day : ℕ)
  | badCalldata (why : String)
  | registry (why : String)
  | corrupt (why : String)
deriving DecidableEq, Repr

/-! ## The header and its commitment -/

/-- Domain prefix of the day commitment. -/
def commitmentDomain : List UInt8 := Json.utf8 "citrate.agent-anchor.nightly.v1\n"

/-- Batch header version, part of the commitment. -/
def batchVersion : ℕ := 1

/-- What one day's batch commits to. -/
structure BatchHeader where
  v : ℕ
  /-- UTC day number (days since 1970-01-01). -/
  day : ℕ
  firstSeq : ℕ
  lastSeq : ℕ
  count : ℕ
  /-- RFC 6962 root over the day's record hashes, in `seq` order. -/
  treeRoot : Digest
deriving DecidableEq

/-- The integers are values of their Rust types. -/
structure BatchHeader.InRange (h : BatchHeader) : Prop where
  v : h.v < u32Bound
  day : h.day < u64Bound
  firstSeq : h.firstSeq < u64Bound
  lastSeq : h.lastSeq < u64Bound
  count : h.count < u64Bound

/-- The bytes the commitment is taken over. -/
def BatchHeader.commitmentInput (h : BatchHeader) : List UInt8 :=
  commitmentDomain ++ (beBytes 4 h.v ++ (beBytes 8 h.day ++ (beBytes 8 h.firstSeq
    ++ (beBytes 8 h.lastSeq ++ (beBytes 8 h.count ++ h.treeRoot.toList)))))

/-- The anchored value. -/
def BatchHeader.commitment (sha256 : List UInt8 → Digest) (h : BatchHeader) : Digest :=
  sha256 h.commitmentInput

/-- Whether the header is internally consistent: a non-empty, contiguous `seq` range. -/
def BatchHeader.wellFormed (h : BatchHeader) : Bool :=
  h.v == batchVersion && decide (h.count > 0) && decide (h.lastSeq ≥ h.firstSeq)
    && h.lastSeq - h.firstSeq == h.count - 1

/-- Proof that one record is in a day's batch. -/
structure AnchorProof where
  header : BatchHeader
  seq : ℕ
  leafIndex : ℕ
  /-- The record hash, the leaf data. -/
  recordHash : Digest
  /-- Sibling hashes, leaf to root. -/
  path : List Digest
deriving DecidableEq

/-- One closed day's batch. -/
structure DayBatch where
  header : BatchHeader
  leafData : List Digest
  tree : Tree
deriving DecidableEq

/-! ## Building a batch -/

/-- The loop over the rest of the day's leaves: each `seq` must follow the one before it. -/
def collectDay (day : ℕ) : ℕ → List Digest → List RetainedLeaf → Except Error (ℕ × List Digest)
  | expected, leafData, [] => .ok (expected, leafData)
  | expected, leafData, l :: rest =>
      match checkedAdd u64Bound expected 1 with
      | none => .error (.seqGap day expected l.seq)
      | some expected =>
          if l.seq ≠ expected then .error (.seqGap day expected l.seq)
          else collectDay day expected (leafData ++ [l.hash]) rest

section

variable (sha256 : List UInt8 → Digest)

/-- Build the batch of UTC day `day` from retained leaves (any days, in `seq` order). `none` when the
    day has no records. -/
def buildDayBatch (day : ℕ) (leaves : List RetainedLeaf) : Except Error (Option DayBatch) :=
  match leaves.filter (fun l => utcDay l.tsMs == day) with
  | [] => .ok none
  | first :: rest => do
      let (expected, leafData) ← collectDay day first.seq [first.hash] rest
      match Tree.build sha256 leafData with
      | none => .ok none
      | some tree =>
          let header : BatchHeader :=
            { v := batchVersion
              day := day
              firstSeq := first.seq
              lastSeq := expected
              count := leafData.length
              treeRoot := tree.root }
          .ok (some { header, leafData, tree })

/-- The anchored value of a batch. -/
def DayBatch.commitment (b : DayBatch) : Digest := b.header.commitment sha256

/-- The inclusion proof for record `seq`. `none` when `seq` is not in this batch. -/
def DayBatch.proof (b : DayBatch) (seq : ℕ) : Option AnchorProof :=
  if seq < b.header.firstSeq then none
  else do
    let index := seq - b.header.firstSeq
    let recordHash ← b.leafData[index]?
    let path ← b.tree.path index
    pure { header := b.header, seq := seq, leafIndex := index, recordHash := recordHash, path := path }

/-- Proofs for every record of the batch, in `seq` order. -/
def DayBatch.proofs (b : DayBatch) : List AnchorProof :=
  (List.range' b.header.firstSeq (b.header.lastSeq + 1 - b.header.firstSeq)).filterMap b.proof

/-- Check a proof against an anchored value. -/
def verifyProof (p : AnchorProof) (anchored : Digest) : Bool :=
  p.header.wellFormed
    && p.header.commitment sha256 == anchored
    && decide (p.leafIndex < p.header.count)
    && checkedAdd u64Bound p.header.firstSeq p.leafIndex == some p.seq
    && verifyPath sha256 p.recordHash p.leafIndex p.header.count p.path p.header.treeRoot

/-- `verify_proof`, plus: `record` is the leaf. -/
def verifyRecordProof (record : Records.StoredRecord) (p : AnchorProof) (anchored : Digest) : Bool :=
  record.hashMatches sha256
    && record.record.hashBytes sha256 == p.recordHash
    && record.record.seq == p.seq
    && utcDay record.record.tsMs == p.header.day
    && verifyProof sha256 p anchored

/-- The byte strings hashed for a batch: its commitment, leaves and nodes. -/
def batchInputs (b : DayBatch) : List (List UInt8) :=
  b.header.commitmentInput :: mthInputs sha256 b.leafData

/-- The byte strings hashed to check a proof: its commitment and its path. -/
def verifyProofInputs (p : AnchorProof) : List (List UInt8) :=
  p.header.commitmentInput ::
    verifyPathInputs sha256 p.recordHash p.leafIndex p.header.count p.path

end

/-! ## What `build_day_batch` builds -/

variable {sha256 : List UInt8 → Digest}

theorem collectDay_ok {day expected e : ℕ} {leafData data : List Digest} {rest : List RetainedLeaf}
    (h : collectDay day expected leafData rest = .ok (e, data)) :
    rest.map RetainedLeaf.seq = List.range' (expected + 1) rest.length ∧
      e = expected + rest.length ∧ data = leafData ++ rest.map RetainedLeaf.hash := by
  induction rest generalizing expected leafData with
  | nil =>
      obtain ⟨rfl, rfl⟩ := Prod.mk.inj (Except.ok.inj h)
      simp
  | cons l rest ih =>
      rw [collectDay] at h
      cases hadd : checkedAdd u64Bound expected 1 with
      | none => rw [hadd] at h; cases h
      | some next =>
          obtain ⟨rfl, -⟩ := checkedAdd_eq_some.mp hadd
          rw [hadd] at h
          by_cases hseq : l.seq = expected + 1
          · simp only [hseq, ne_eq, not_true_eq_false, if_false] at h
            obtain ⟨hseqs, he, hdata⟩ := ih h
            refine ⟨?_, ?_, ?_⟩
            · rw [List.map_cons, List.length_cons, List.range'_succ, hseqs, hseq]
            · rw [he, List.length_cons]; omega
            · rw [hdata, List.map_cons, List.append_assoc]; rfl
          · simp only [ne_eq, hseq, not_false_eq_true, if_true] at h
            cases h

/-- A contiguous rest within `u64` is collected whole. -/
theorem collectDay_contiguous (day : ℕ) {expected : ℕ} {leafData : List Digest}
    {rest : List RetainedLeaf}
    (hseqs : rest.map RetainedLeaf.seq = List.range' (expected + 1) rest.length)
    (hbound : expected + rest.length < u64Bound) :
    collectDay day expected leafData rest =
      .ok (expected + rest.length, leafData ++ rest.map RetainedLeaf.hash) := by
  induction rest generalizing expected leafData with
  | nil => simp [collectDay]
  | cons l rest ih =>
      rw [List.map_cons, List.length_cons, List.range'_succ, List.cons.injEq] at hseqs
      rw [List.length_cons] at hbound
      have hadd : checkedAdd u64Bound expected 1 = some (expected + 1) :=
        checkedAdd_eq_some.mpr ⟨rfl, by omega⟩
      rw [collectDay, hadd]
      simp only [hseqs.1, ne_eq, not_true_eq_false, if_false]
      rw [ih hseqs.2 (by omega), List.length_cons, List.map_cons, List.append_assoc]
      congr 2
      omega

/-- The day's leaves, as `build_day_batch` selects them. -/
def dayLeaves (day : ℕ) (leaves : List RetainedLeaf) : List RetainedLeaf :=
  leaves.filter (fun l => utcDay l.tsMs == day)

/-- **What a batch is**: the day's leaves are a non-empty contiguous run of `seq`, the header names
    its ends and length, and the tree is the reference tree over their hashes. -/
structure DayBatch.BuiltFrom (sha256 : List UInt8 → Digest) (b : DayBatch) (day : ℕ)
    (ls : List RetainedLeaf) : Prop where
  ne_nil : ls ≠ []
  seqs : ls.map RetainedLeaf.seq = List.range' b.header.firstSeq ls.length
  leafData : b.leafData = ls.map RetainedLeaf.hash
  tree : Tree.build sha256 b.leafData = some b.tree
  header : b.header =
    { v := batchVersion, day := day, firstSeq := b.header.firstSeq,
      lastSeq := b.header.firstSeq + (ls.length - 1), count := ls.length,
      treeRoot := mth sha256 b.leafData }

theorem root_of_build {leafData : List Digest} {t : Tree}
    (h : Tree.build sha256 leafData = some t) : t.root = mth sha256 leafData := by
  have hne : leafData ≠ [] := by
    rintro rfl
    cases h
  rw [build_eq hne] at h
  rw [← Option.some.inj h, root_levelsFrom hne]

theorem path_of_build {leafData : List Digest} {t : Tree}
    (h : Tree.build sha256 leafData = some t) (i : ℕ) :
    t.path i = if i < leafData.length then some (auditPath sha256 leafData i) else none := by
  have hne : leafData ≠ [] := by
    rintro rfl
    cases h
  rw [build_eq hne] at h
  rw [← Option.some.inj h, path_levelsFrom]

theorem builtFrom_of_buildDayBatch {day : ℕ} {leaves : List RetainedLeaf} {b : DayBatch}
    (h : buildDayBatch sha256 day leaves = .ok (some b)) :
    b.BuiltFrom sha256 day (dayLeaves day leaves) := by
  unfold buildDayBatch at h
  unfold dayLeaves
  cases hl : leaves.filter (fun l => utcDay l.tsMs == day) with
  | nil => rw [hl] at h; cases h
  | cons first rest =>
      rw [hl] at h
      simp only at h
      cases hc : collectDay day first.seq [first.hash] rest with
      | error e => rw [hc] at h; cases h
      | ok out =>
          obtain ⟨e, data⟩ := out
          obtain ⟨hseqs, rfl, rfl⟩ := collectDay_ok hc
          rw [hc] at h
          have hne : [first.hash] ++ rest.map RetainedLeaf.hash ≠ [] := by simp
          simp only [bind, Except.bind, build_eq hne] at h
          have hb := Option.some.inj (Except.ok.inj h)
          subst hb
          constructor
          · exact List.cons_ne_nil _ _
          · rw [List.map_cons, List.length_cons, List.range'_succ, hseqs]
          · rfl
          · exact build_eq hne
          · have hroot : Tree.root ⟨levelsFrom sha256 (([first.hash]
                ++ rest.map RetainedLeaf.hash).map (leafHash sha256))⟩ = mth sha256 _ :=
              root_levelsFrom hne
            have hlen : ([first.hash] ++ rest.map RetainedLeaf.hash).length = rest.length + 1 := by
              simp
            simp only [hroot, hlen, List.length_cons, Nat.add_sub_cancel]

/-- A non-empty contiguous day within `u64` builds. -/
theorem buildDayBatch_contiguous (sha256 : List UInt8 → Digest) (day : ℕ)
    {leaves : List RetainedLeaf} {first : ℕ} (hne : dayLeaves day leaves ≠ [])
    (hseqs : (dayLeaves day leaves).map RetainedLeaf.seq
      = List.range' first (dayLeaves day leaves).length)
    (hbound : first + (dayLeaves day leaves).length ≤ u64Bound) :
    ∃ b, buildDayBatch sha256 day leaves = .ok (some b) ∧ b.header.firstSeq = first := by
  unfold buildDayBatch
  unfold dayLeaves at hne hseqs hbound
  cases hl : leaves.filter (fun l => utcDay l.tsMs == day) with
  | nil => exact absurd hl hne
  | cons l rest =>
      rw [hl, List.map_cons, List.length_cons, List.range'_succ, List.cons.injEq] at hseqs
      rw [hl, List.length_cons] at hbound
      obtain ⟨hfirst, hrest⟩ := hseqs
      have hc : collectDay day l.seq [l.hash] rest
          = .ok (l.seq + rest.length, [l.hash] ++ rest.map RetainedLeaf.hash) :=
        collectDay_contiguous day (hfirst ▸ hrest) (by omega)
      have hne' : [l.hash] ++ rest.map RetainedLeaf.hash ≠ [] := by simp
      simp only [hc, bind, Except.bind, build_eq hne']
      exact ⟨_, rfl, hfirst⟩

/-! ## The commitment's bytes determine the header -/

theorem header_eq_of_input {g h : BatchHeader} (hg : g.InRange) (hh : h.InRange)
    (heq : g.commitmentInput = h.commitmentInput) : g = h := by
  unfold BatchHeader.commitmentInput at heq
  obtain ⟨hv, heq⟩ := List.append_inj (List.append_cancel_left heq) (by simp)
  obtain ⟨hday, heq⟩ := List.append_inj heq (by simp)
  obtain ⟨hfirst, heq⟩ := List.append_inj heq (by simp)
  obtain ⟨hlast, heq⟩ := List.append_inj heq (by simp)
  obtain ⟨hcount, hroot⟩ := List.append_inj heq (by simp)
  have h32 : u32Bound = 256 ^ 4 := by norm_num
  have h64 : u64Bound = 256 ^ 8 := by norm_num
  cases g; cases h
  simp only [BatchHeader.mk.injEq]
  exact ⟨beBytes_inj (h32 ▸ hg.v) (h32 ▸ hh.v) hv, beBytes_inj (h64 ▸ hg.day) (h64 ▸ hh.day) hday,
    beBytes_inj (h64 ▸ hg.firstSeq) (h64 ▸ hh.firstSeq) hfirst,
    beBytes_inj (h64 ▸ hg.lastSeq) (h64 ▸ hh.lastSeq) hlast,
    beBytes_inj (h64 ▸ hg.count) (h64 ▸ hh.count) hcount, Vector.toList_inj.mp hroot⟩

/-! ## Proofs of a batch verify, and no others -/

section Built

variable {b : DayBatch} {day : ℕ} {ls : List RetainedLeaf}

theorem DayBatch.BuiltFrom.length_leafData (hb : b.BuiltFrom sha256 day ls) :
    b.leafData.length = ls.length := by
  rw [hb.leafData, List.length_map]

theorem DayBatch.BuiltFrom.length_pos (hb : b.BuiltFrom sha256 day ls) : 0 < ls.length :=
  List.length_pos_of_ne_nil hb.ne_nil

theorem DayBatch.BuiltFrom.count_eq (hb : b.BuiltFrom sha256 day ls) :
    b.header.count = ls.length := by
  rw [hb.header]

theorem DayBatch.BuiltFrom.lastSeq_eq (hb : b.BuiltFrom sha256 day ls) :
    b.header.lastSeq = b.header.firstSeq + (ls.length - 1) := by
  rw [hb.header]

theorem DayBatch.BuiltFrom.treeRoot_eq (hb : b.BuiltFrom sha256 day ls) :
    b.header.treeRoot = mth sha256 b.leafData := by
  rw [hb.header]

theorem DayBatch.BuiltFrom.day_eq (hb : b.BuiltFrom sha256 day ls) : b.header.day = day := by
  rw [hb.header]

theorem DayBatch.BuiltFrom.wellFormed (hb : b.BuiltFrom sha256 day ls) :
    b.header.wellFormed = true := by
  have hpos := hb.length_pos
  rw [hb.header]
  simp [BatchHeader.wellFormed, hpos]

/-- The proof of the leaf at `index`. -/
theorem DayBatch.BuiltFrom.proof_eq (hb : b.BuiltFrom sha256 day ls) {index : ℕ}
    (hi : index < b.leafData.length) :
    b.proof (b.header.firstSeq + index) =
      some { header := b.header, seq := b.header.firstSeq + index, leafIndex := index,
             recordHash := b.leafData[index], path := auditPath sha256 b.leafData index } := by
  have hsub : b.header.firstSeq + index - b.header.firstSeq = index := by omega
  unfold DayBatch.proof
  rw [if_neg (by omega)]
  simp only [hsub, List.getElem?_eq_getElem hi, path_of_build hb.tree, if_pos hi,
    Option.bind_eq_bind, Option.bind_some, Option.pure_def]

/-- Every proof the batch makes verifies against its commitment. -/
theorem DayBatch.BuiltFrom.verify_proof (hb : b.BuiltFrom sha256 day ls)
    (hlast : b.header.lastSeq < u64Bound) {seq : ℕ} {p : AnchorProof}
    (hp : b.proof seq = some p) : verifyProof sha256 p (b.commitment sha256) = true := by
  obtain ⟨index, rfl⟩ : ∃ index, seq = b.header.firstSeq + index := by
    refine ⟨seq - b.header.firstSeq, ?_⟩
    by_contra hcon
    rw [DayBatch.proof, if_pos (by omega)] at hp
    cases hp
  have hi : index < b.leafData.length := by
    by_contra hcon
    have hnone : b.leafData[index]? = none := List.getElem?_eq_none (by omega)
    rw [DayBatch.proof, if_neg (by omega)] at hp
    simp only [Nat.add_sub_cancel_left, hnone] at hp
    cases hp
  rw [hb.proof_eq hi, Option.some_inj] at hp
  subst hp
  have hlen := hb.length_leafData
  have hlast' := hb.lastSeq_eq
  have hadd : checkedAdd u64Bound b.header.firstSeq index = some (b.header.firstSeq + index) :=
    checkedAdd_eq_some.mpr ⟨rfl, by omega⟩
  have hpath : verifyPath sha256 b.leafData[index] index b.leafData.length
      (auditPath sha256 b.leafData index) (mth sha256 b.leafData) = true := verifyPath_auditPath hi
  simp only [verifyProof, hb.wellFormed, DayBatch.commitment, hadd, hb.count_eq, hb.treeRoot_eq,
    ← hlen, hi, hpath, beq_self_eq_true, decide_true, Bool.and_self]

/-- The batch makes one proof for each `seq` of its range, in order. -/
theorem DayBatch.BuiltFrom.map_seq_proofs (hb : b.BuiltFrom sha256 day ls) :
    b.proofs.map AnchorProof.seq =
      List.range' b.header.firstSeq (b.header.lastSeq + 1 - b.header.firstSeq) := by
  have hlen := hb.length_leafData
  have hpos := hb.length_pos
  have hlast := hb.lastSeq_eq
  have hsome : ∀ s ∈ List.range' b.header.firstSeq (b.header.lastSeq + 1 - b.header.firstSeq),
      (b.proof s).map AnchorProof.seq = some s := by
    intro s hs
    obtain ⟨i, hi, rfl⟩ := List.mem_range'.mp hs
    rw [Nat.one_mul, hb.proof_eq (by omega)]
    rfl
  rw [DayBatch.proofs, List.map_filterMap, List.filterMap_congr hsome]
  exact List.filterMap_some

/-- **A proof accepted against the batch's commitment is the batch's own proof.** -/
theorem DayBatch.BuiltFrom.eq_of_verifyProof (hb : b.BuiltFrom sha256 day ls)
    (hrange : b.header.InRange) {p : AnchorProof} (hp : p.header.InRange)
    (hcf : CollisionFreeOn sha256 (batchInputs sha256 b ++ verifyProofInputs sha256 p))
    (hv : verifyProof sha256 p (b.commitment sha256) = true) :
    p.header = b.header ∧ b.proof p.seq = some p := by
  simp only [verifyProof, Bool.and_eq_true, decide_eq_true_eq, beq_iff_eq] at hv
  obtain ⟨⟨⟨⟨-, hcommit⟩, hindex⟩, hseq⟩, hpath⟩ := hv
  have hinput : p.header.commitmentInput = b.header.commitmentInput :=
    hcf _ (List.mem_append_right _ List.mem_cons_self) _
      (List.mem_append_left _ List.mem_cons_self) hcommit
  have hheader := header_eq_of_input hp hrange hinput
  rw [hheader] at hindex hseq hpath
  rw [hb.count_eq, ← hb.length_leafData, hb.treeRoot_eq] at hpath
  have hcfPath : CollisionFreeOn sha256 (mthInputs sha256 b.leafData
      ++ verifyPathInputs sha256 p.recordHash p.leafIndex b.leafData.length p.path) := by
    refine hcf.mono ?_
    intro x hx
    rcases List.mem_append.mp hx with hx | hx
    · exact List.mem_append_left _ (List.mem_cons_of_mem _ hx)
    · refine List.mem_append_right _ (List.mem_cons_of_mem _ ?_)
      rwa [hheader, hb.count_eq, ← hb.length_leafData]
  obtain ⟨hleaf, hpathEq⟩ := eq_of_verifyPath hcfPath hpath
  obtain ⟨hi, hget⟩ := List.getElem?_eq_some_iff.mp hleaf
  obtain ⟨hseq, -⟩ := checkedAdd_eq_some.mp hseq
  refine ⟨hheader, ?_⟩
  rw [hseq, hb.proof_eq hi]
  cases p
  simp only at hheader hseq hget hpathEq
  rw [← hpathEq, hget, ← hheader, hheader, ← hseq]

end Built

/-- A leaf's integers are `u64` values. -/
structure InRangeLeaf (l : RetainedLeaf) : Prop where
  seq : l.seq < u64Bound
  tsMs : l.tsMs < u64Bound

theorem inRange_of_buildDayBatch {day : ℕ} {leaves : List RetainedLeaf} {b : DayBatch}
    (hleaves : ∀ l ∈ leaves, InRangeLeaf l) (hlen : leaves.length < u64Bound)
    (hb : b.BuiltFrom sha256 day (dayLeaves day leaves)) : b.header.InRange := by
  have hpos := hb.length_pos
  have hle : (dayLeaves day leaves).length ≤ leaves.length := List.length_filter_le _ _
  have hlast := hb.lastSeq_eq
  -- the last leaf of the day carries `last_seq`
  have hmem : b.header.lastSeq ∈ (dayLeaves day leaves).map RetainedLeaf.seq := by
    rw [hb.seqs, List.mem_range']
    exact ⟨(dayLeaves day leaves).length - 1, by omega, by omega⟩
  obtain ⟨l, hl, hseq⟩ := List.mem_map.mp hmem
  obtain ⟨hl, hday⟩ := List.mem_filter.mp hl
  have hr := hleaves l hl
  have hrseq := hr.seq
  constructor
  · have hv : b.header.v = batchVersion := by rw [hb.header]
    rw [hv]
    decide
  · have hd : b.header.day = utcDay l.tsMs := hb.day_eq.trans (beq_iff_eq.mp hday).symm
    have hle : utcDay l.tsMs ≤ l.tsMs := Nat.div_le_self _ _
    have := hr.tsMs
    omega
  · omega
  · omega
  · rw [hb.count_eq]; omega

/-- **Anchor proofs are sound and complete.** For a batch built from any leaves: a proof accepted
    against its commitment carries its header and is the batch's own proof for that `seq`, so its
    record hash is the one of the day's leaf with that `seq`; and the batch makes one accepted proof
    for each `seq` of its range. -/
theorem proof_sound (sha256 : List UInt8 → Digest) (day : ℕ) (leaves : List RetainedLeaf)
    (b : DayBatch) (hleaves : ∀ l ∈ leaves, InRangeLeaf l) (hlen : leaves.length < u64Bound)
    (hb : buildDayBatch sha256 day leaves = .ok (some b)) :
    (∀ p : AnchorProof, p.header.InRange →
      CollisionFreeOn sha256 (batchInputs sha256 b ++ verifyProofInputs sha256 p) →
      verifyProof sha256 p (b.commitment sha256) = true →
      p.header = b.header ∧ b.proof p.seq = some p ∧
        ∃ l ∈ leaves, l.seq = p.seq ∧ utcDay l.tsMs = p.header.day ∧ l.hash = p.recordHash) ∧
    b.proofs.map AnchorProof.seq =
      List.range' b.header.firstSeq (b.header.lastSeq + 1 - b.header.firstSeq) ∧
    ∀ p ∈ b.proofs, verifyProof sha256 p (b.commitment sha256) = true := by
  have hbuilt := builtFrom_of_buildDayBatch hb
  have hrange := inRange_of_buildDayBatch hleaves hlen hbuilt
  refine ⟨?_, hbuilt.map_seq_proofs, ?_⟩
  · intro p hp hcf hv
    obtain ⟨hheader, hproof⟩ := hbuilt.eq_of_verifyProof hrange hp hcf hv
    refine ⟨hheader, hproof, ?_⟩
    -- the proof's index points at a leaf of the day
    simp only [verifyProof, Bool.and_eq_true, decide_eq_true_eq, beq_iff_eq] at hv
    obtain ⟨⟨⟨-, hindex⟩, hseq⟩, -⟩ := hv
    obtain ⟨hseq, -⟩ := checkedAdd_eq_some.mp hseq
    rw [hheader, hbuilt.count_eq] at hindex
    have hi : p.leafIndex < b.leafData.length := by rw [hbuilt.length_leafData]; exact hindex
    have hfirst : p.header.firstSeq = b.header.firstSeq := by rw [hheader]
    rw [hseq, hfirst, hbuilt.proof_eq hi, Option.some_inj] at hproof
    have hhash : b.leafData[p.leafIndex] = p.recordHash := congrArg AnchorProof.recordHash hproof
    have hmem : (dayLeaves day leaves)[p.leafIndex] ∈ dayLeaves day leaves := List.getElem_mem hindex
    obtain ⟨hl, hday⟩ := List.mem_filter.mp hmem
    refine ⟨_, hl, ?_, ?_, ?_⟩
    · have hget : ((dayLeaves day leaves).map RetainedLeaf.seq)[p.leafIndex]?
          = some (b.header.firstSeq + p.leafIndex) := by
        rw [hbuilt.seqs, List.getElem?_range' hindex, Nat.one_mul]
      rw [List.getElem?_map, List.getElem?_eq_getElem hindex] at hget
      rw [hseq, hfirst]
      exact Option.some.inj hget
    · rw [hheader, hbuilt.day_eq]
      exact beq_iff_eq.mp hday
    · rw [← hhash]
      simp only [hbuilt.leafData, List.getElem_map]
  · intro p hp
    obtain ⟨seq, -, hp⟩ := List.mem_filterMap.mp hp
    exact hbuilt.verify_proof hrange.lastSeq hp

/-! ### A day of one record under the real hash -/

/-- A record of day 0 between records of other days. -/
def threeDays : List RetainedLeaf :=
  [{ seq := 5, tsMs := 86399999, hash := Vector.replicate 32 1 },
   { seq := 6, tsMs := 86400000, hash := Vector.replicate 32 2 },
   { seq := 7, tsMs := 172800000, hash := Vector.replicate 32 3 }]

/-- The batch of day 1. -/
def dayOneBatch : DayBatch :=
  let root := leafHash Sha256.hash (Vector.replicate 32 2)
  { header := { v := 1, day := 1, firstSeq := 6, lastSeq := 6, count := 1, treeRoot := root }
    leafData := [Vector.replicate 32 2]
    tree := ⟨[[root]]⟩ }

/-- The proof of record 6. -/
def recordSixProof : AnchorProof :=
  { header := dayOneBatch.header, seq := 6, leafIndex := 0, recordHash := Vector.replicate 32 2,
    path := [] }

theorem buildDayBatch_threeDays :
    buildDayBatch Sha256.hash 1 threeDays = .ok (some dayOneBatch) := by
  simp [buildDayBatch, threeDays, utcDay, dayMs, collectDay, bind, Except.bind, Tree.build,
    levelsFrom, Tree.root, batchVersion, dayOneBatch]

set_option maxRecDepth 20000 in
theorem collisionFree_dayOne : CollisionFreeOn Sha256.hash
    (batchInputs Sha256.hash dayOneBatch ++ verifyProofInputs Sha256.hash recordSixProof) := by
  have hbatch : batchInputs Sha256.hash dayOneBatch =
      [dayOneBatch.header.commitmentInput, leafInput (Vector.replicate 32 2)] := by
    simp [batchInputs, mthInputs, dayOneBatch]
  have hproof : verifyProofInputs Sha256.hash recordSixProof =
      [dayOneBatch.header.commitmentInput, leafInput (Vector.replicate 32 2)] := by
    simp [verifyProofInputs, verifyPathInputs, verifyLoopInputs, recordSixProof, dayOneBatch]
  rw [hbatch, hproof]
  decide +kernel

/-- The proof of record 6 is accepted, and is the proof the batch makes for it. -/
theorem proof_sound_day_one :
    buildDayBatch Sha256.hash 1 threeDays = .ok (some dayOneBatch) ∧
      verifyProof Sha256.hash recordSixProof (dayOneBatch.commitment Sha256.hash) = true ∧
      dayOneBatch.proof 6 = some recordSixProof ∧
      dayOneBatch.proofs.map AnchorProof.seq = [6] := by
  have hleaves : ∀ l ∈ threeDays, InRangeLeaf l := by
    intro l hl
    simp only [threeDays, List.mem_cons, List.not_mem_nil, or_false] at hl
    rcases hl with rfl | rfl | rfl <;> constructor <;> decide
  obtain ⟨hsound, hseqs, -⟩ := proof_sound Sha256.hash 1 threeDays dayOneBatch hleaves
    (by decide) buildDayBatch_threeDays
  have hrange : recordSixProof.header.InRange := by constructor <;> decide
  have hv : verifyProof Sha256.hash recordSixProof (dayOneBatch.commitment Sha256.hash) = true := by
    simp [verifyProof, recordSixProof, dayOneBatch, DayBatch.commitment, BatchHeader.wellFormed,
      batchVersion, verifyPath, verifyLoop, checkedAdd, u64Bound]
  obtain ⟨-, hproof, -⟩ := hsound recordSixProof hrange collisionFree_dayOne hv
  exact ⟨buildDayBatch_threeDays, hv, hproof, hseqs⟩

end AgentRuntime.Anchor
