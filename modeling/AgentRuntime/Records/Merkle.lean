import AgentRuntime.Lib.MerkleTree
import AgentRuntime.Lib.Sha256

/-!
# `Records.Merkle` — the RFC 6962 tree of `agent-records/src/merkle.rs`

Leaf `SHA-256(0x00 || record_hash)`, node `SHA-256(0x01 || left || right)`, split at the largest power
of two below the size. The definitions follow the source (`split`, `mth`, `audit_path` top-down,
`verify_path` bottom-up with its `(fnode, snode)` loop); each is then shown to be the corresponding
operation of the generic tree in `Lib.MerkleTree`, which carries the induction:

* `mth_eq_treeRoot`, `auditPath_eq` — the prover is the top-down description;
* `verifyLoop_eq_climb` — the bit loop of the verifier is the level-by-level climb.

`sha256` is a parameter throughout; `mthInputs` and `verifyPathInputs` are the byte strings the two
sides hash, on which soundness assumes collision freedom.
-/

namespace AgentRuntime.Records.Merkle

/-! ## Days and leaves -/

def dayMs : ℕ := 86400000

/-- The UTC day number (days since 1970-01-01) of a Unix-millisecond timestamp. -/
def utcDay (tsMs : ℕ) : ℕ := tsMs / dayMs

/-- One retained record as a Merkle leaf. -/
structure RetainedLeaf where
  seq : ℕ
  tsMs : ℕ
  /-- The record hash (the leaf data). -/
  hash : Digest
deriving DecidableEq

theorem utcDay_mono {a b : ℕ} (h : a ≤ b) : utcDay a ≤ utcDay b := Nat.div_le_div_right h

variable (sha256 : List UInt8 → Digest)

/-! ## Hashing -/

/-- `[0u8; 32]`. -/
def zeroDigest : Digest := Vector.replicate 32 0

/-- The bytes a leaf hash is taken over: `0x00 || data`. -/
def leafInput (data : Digest) : List UInt8 := 0 :: data.toList

/-- The bytes a node hash is taken over: `0x01 || left || right`. -/
def nodeInput (l r : Digest) : List UInt8 := 1 :: (l.toList ++ r.toList)

def leafHash (data : Digest) : Digest := sha256 (leafInput data)

def nodeHash (l r : Digest) : Digest := sha256 (nodeInput l r)

theorem leafInput_injective : Function.Injective leafInput := by
  intro a b h
  exact Vector.toList_inj.mp (List.cons.inj h).2

theorem nodeInput_inj {a b c d : Digest} (h : nodeInput a b = nodeInput c d) : a = c ∧ b = d := by
  have hlen : a.toList.length = c.toList.length := by simp
  obtain ⟨hl, hr⟩ := List.append_inj (List.cons.inj h).2 hlen
  exact ⟨Vector.toList_inj.mp hl, Vector.toList_inj.mp hr⟩

/-! ## The prover: `split`, `mth`, `merkle_root`, `audit_path` -/

/-- `while k * 2 < n { k *= 2 }`. -/
def splitLoop (n k : ℕ) : ℕ :=
  if 0 < k ∧ k * 2 < n then splitLoop n (k * 2) else k
termination_by n - k

/-- Largest power of two strictly below `n` (`n >= 2`). -/
def split (n : ℕ) : ℕ := splitLoop n 1

theorem splitLoop_eq {n e : ℕ} (h : 2 ^ e < n) : splitLoop n (2 ^ e) = MerkleTree.splitPoint n := by
  induction hd : n - 2 ^ e using Nat.strong_induction_on generalizing e with
  | _ m ih =>
    have hpos : 0 < 2 ^ e := Nat.two_pow_pos e
    rw [splitLoop]
    by_cases hlt : 2 ^ e * 2 < n
    · rw [if_pos ⟨hpos, hlt⟩, ← Nat.pow_succ]
      exact ih (n - 2 ^ (e + 1)) (by rw [Nat.pow_succ]; omega) (by rw [Nat.pow_succ]; exact hlt) rfl
    · rw [if_neg (by omega)]
      exact (MerkleTree.eq_splitPoint h (by rw [Nat.pow_succ]; omega)).symm

theorem split_eq {n : ℕ} (h : 2 ≤ n) : split n = MerkleTree.splitPoint n :=
  splitLoop_eq (e := 0) (by rw [Nat.pow_zero]; omega)

theorem split_pos {n : ℕ} (h : 2 ≤ n) : 0 < split n := split_eq h ▸ MerkleTree.splitPoint_pos n

theorem split_lt {n : ℕ} (h : 2 ≤ n) : split n < n := split_eq h ▸ MerkleTree.splitPoint_lt h

/-- The Merkle tree hash; the empty list is unreachable through the public API. -/
def mth : List Digest → Digest
  | [] => zeroDigest
  | [one] => leafHash sha256 one
  | a :: b :: t =>
      nodeHash sha256 (mth ((a :: b :: t).take (split (t.length + 2))))
        (mth ((a :: b :: t).drop (split (t.length + 2))))
termination_by l => l.length
decreasing_by
  · have := split_lt (n := t.length + 2) (by omega)
    simp only [List.length_take, List.length_cons]; omega
  · have := split_pos (n := t.length + 2) (by omega)
    simp only [List.length_drop, List.length_cons]; omega

/-- The RFC 6962 root of `leaves` (record hashes). `none` for no leaves. -/
def merkleRoot (leaves : List Digest) : Option Digest :=
  if leaves.isEmpty then none else some (mth sha256 leaves)

/-- The audit path for leaf `index`, leaf to root. Empty when `index` is out of range or the tree
    has one leaf. -/
def auditPath (leaves : List Digest) (index : ℕ) : List Digest :=
  if _h : index ≥ leaves.length ∨ leaves.length < 2 then []
  else
    let k := split leaves.length
    if index < k then auditPath (leaves.take k) index ++ [mth sha256 (leaves.drop k)]
    else auditPath (leaves.drop k) (index - k) ++ [mth sha256 (leaves.take k)]
termination_by leaves.length
decreasing_by
  · have := split_lt (n := leaves.length) (by omega)
    simp only [List.length_take]; omega
  · have := split_pos (n := leaves.length) (by omega)
    simp only [List.length_drop]; omega

/-- The byte strings `mth` hashes. -/
def mthInputs : List Digest → List (List UInt8)
  | [] => []
  | [one] => [leafInput one]
  | a :: b :: t =>
      nodeInput (mth sha256 ((a :: b :: t).take (split (t.length + 2))))
        (mth sha256 ((a :: b :: t).drop (split (t.length + 2)))) ::
      (mthInputs ((a :: b :: t).take (split (t.length + 2)))
        ++ mthInputs ((a :: b :: t).drop (split (t.length + 2))))
termination_by l => l.length
decreasing_by
  · have := split_lt (n := t.length + 2) (by omega)
    simp only [List.length_take, List.length_cons]; omega
  · have := split_pos (n := t.length + 2) (by omega)
    simp only [List.length_drop, List.length_cons]; omega

/-! ## The verifier: `verify_path` -/

/-- `while fnode & 1 == 0 && fnode != 0 { fnode >>= 1; snode >>= 1; }`. -/
def skipPromoted (fnode snode : ℕ) : ℕ × ℕ :=
  if fnode &&& 1 = 0 ∧ fnode ≠ 0 then skipPromoted (fnode >>> 1) (snode >>> 1) else (fnode, snode)
termination_by fnode
decreasing_by simp only [Nat.shiftRight_one]; omega

/-- The loop over `path`: `none` is an early `return false`, otherwise the final `snode` and `r`. -/
def verifyLoop : List Digest → ℕ → ℕ → Digest → Option (ℕ × Digest)
  | [], _, snode, r => some (snode, r)
  | p :: path, fnode, snode, r =>
      if snode = 0 then none
      else if fnode &&& 1 = 1 ∨ fnode = snode then
        let (fnode, snode) := skipPromoted fnode snode
        verifyLoop path (fnode >>> 1) (snode >>> 1) (nodeHash sha256 p r)
      else verifyLoop path (fnode >>> 1) (snode >>> 1) (nodeHash sha256 r p)

/-- RFC 9162 §2.1.3.2 inclusion verification. -/
def verifyPath (leaf : Digest) (index size : ℕ) (path : List Digest) (root : Digest) : Bool :=
  if index ≥ size then false
  else
    match verifyLoop sha256 path index (size - 1) (leafHash sha256 leaf) with
    | none => false
    | some (snode, r) => snode == 0 && r == root

/-- The node inputs the loop hashes. -/
def verifyLoopInputs : List Digest → ℕ → ℕ → Digest → List (List UInt8)
  | [], _, _, _ => []
  | p :: path, fnode, snode, r =>
      if snode = 0 then []
      else if fnode &&& 1 = 1 ∨ fnode = snode then
        let (fnode, snode) := skipPromoted fnode snode
        nodeInput p r :: verifyLoopInputs path (fnode >>> 1) (snode >>> 1) (nodeHash sha256 p r)
      else nodeInput r p :: verifyLoopInputs path (fnode >>> 1) (snode >>> 1) (nodeHash sha256 r p)

/-- The byte strings `verify_path` hashes. -/
def verifyPathInputs (leaf : Digest) (index size : ℕ) (path : List Digest) : List (List UInt8) :=
  leafInput leaf :: verifyLoopInputs sha256 path index (size - 1) (leafHash sha256 leaf)

/-! ## The prover is the generic top-down tree over the leaf hashes -/

variable {sha256}

theorem mth_eq_treeRoot (leaves : List Digest) :
    mth sha256 leaves =
      MerkleTree.treeRoot (nodeHash sha256) zeroDigest (leaves.map (leafHash sha256)) := by
  induction leaves using mth.induct with
  | case1 => simp [mth, MerkleTree.treeRoot]
  | case2 one => simp [mth]
  | case3 a b t ihl ihr =>
      rw [mth, MerkleTree.treeRoot_split (by simp), ihl, ihr, List.length_map,
        List.length_cons, List.length_cons, split_eq (by omega), List.map_take, List.map_drop]

theorem auditPath_eq (leaves : List Digest) (index : ℕ) :
    auditPath sha256 leaves index =
      MerkleTree.auditPath (nodeHash sha256) zeroDigest (leaves.map (leafHash sha256)) index := by
  induction leaves, index using auditPath.induct with
  | case1 leaves index h =>
      rw [auditPath, dif_pos h, MerkleTree.auditPath_nil (by rw [List.length_map]; omega)]
  | case2 leaves index h k hlt ih =>
      have hk : k = MerkleTree.splitPoint leaves.length := split_eq (by omega)
      rw [auditPath, dif_neg h]
      simp only [show split leaves.length = k from rfl, if_pos hlt, ih, mth_eq_treeRoot]
      rw [MerkleTree.auditPath_left (l := leaves.map (leafHash sha256))
        (by rw [List.length_map]; omega) (by rw [List.length_map]; omega), List.length_map, ← hk,
        List.map_take, List.map_drop]
  | case3 leaves index h k hge ih =>
      have hk : k = MerkleTree.splitPoint leaves.length := split_eq (by omega)
      rw [auditPath, dif_neg h]
      simp only [show split leaves.length = k from rfl, if_neg hge, ih, mth_eq_treeRoot]
      rw [MerkleTree.auditPath_right (l := leaves.map (leafHash sha256))
        (by rw [List.length_map]; omega) (by rw [List.length_map]; omega)
        (by rw [List.length_map]; omega), List.length_map, ← hk, List.map_take, List.map_drop]

/-- Every leaf is hashed as a leaf. -/
theorem leafInput_mem_mthInputs {leaves : List Digest} {a : Digest} (h : a ∈ leaves) :
    leafInput a ∈ mthInputs sha256 leaves := by
  induction leaves using mth.induct with
  | case1 => simp at h
  | case2 one => simp_all [mthInputs]
  | case3 x y t ihl ihr =>
      rw [← List.take_append_drop (split (t.length + 2)) (x :: y :: t)] at h
      rw [mthInputs]
      refine List.mem_cons_of_mem _ (List.mem_append.mpr ?_)
      exact (List.mem_append.mp h).imp ihl ihr

/-- Every pair the generic tree combines is hashed as a node. -/
theorem nodeInput_mem_mthInputs {leaves : List Digest} {x : Digest × Digest}
    (h : x ∈ MerkleTree.treePairs (nodeHash sha256) zeroDigest (leaves.map (leafHash sha256))) :
    nodeInput x.1 x.2 ∈ mthInputs sha256 leaves := by
  induction leaves using mth.induct with
  | case1 => simp [MerkleTree.treePairs] at h
  | case2 one => simp [MerkleTree.treePairs] at h
  | case3 a b t ihl ihr =>
      rw [MerkleTree.treePairs_split (by simp), List.length_map, List.length_cons,
        List.length_cons, ← split_eq (by omega), ← List.map_take, ← List.map_drop,
        ← mth_eq_treeRoot, ← mth_eq_treeRoot] at h
      rw [mthInputs]
      rcases List.mem_cons.mp h with rfl | h
      · exact List.mem_cons_self
      · refine List.mem_cons_of_mem _ (List.mem_append.mpr ?_)
        exact (List.mem_append.mp h).imp ihl ihr

/-! ## The verifier's loop is the generic climb -/

/-- What the loop's end means: the path reached the top exactly. -/
def atTop : ℕ × Digest → Option Digest
  | (snode, r) => if snode = 0 then some r else none

/-- An unpaired last node is carried up until its index is odd; then it takes its left sibling. -/
theorem climb_last (p : Digest) (path : List Digest) (r : Digest) {n : ℕ} (h : n ≠ 0) :
    MerkleTree.climb (nodeHash sha256) (p :: path) n n r =
      MerkleTree.climb (nodeHash sha256) path ((skipPromoted n n).1 >>> 1)
        ((skipPromoted n n).2 >>> 1) (nodeHash sha256 p r) := by
  induction n using Nat.strong_induction_on with
  | _ n ih =>
    rw [MerkleTree.climb.eq_def, if_neg h]
    by_cases hodd : n % 2 = 1
    · have hstop : skipPromoted n n = (n, n) := by
        rw [skipPromoted, if_neg (by rw [Nat.and_one_is_mod]; omega)]
      rw [if_pos hodd, hstop, Nat.shiftRight_one]
    · have hgo : skipPromoted n n = skipPromoted (n / 2) (n / 2) := by
        rw [skipPromoted, if_pos ⟨by rw [Nat.and_one_is_mod]; omega, h⟩, Nat.shiftRight_one]
      rw [if_neg hodd, if_pos rfl, hgo]
      exact ih (n / 2) (by omega) (by omega)

theorem climb_nil {f : Digest → Digest → Digest} {i last : ℕ} {r : Digest} (hi : i ≤ last) :
    MerkleTree.climb f [] i last r = atTop (last, r) := by
  induction last using Nat.strong_induction_on generalizing i with
  | _ last ih =>
    rw [MerkleTree.climb.eq_def, atTop]
    by_cases h0 : last = 0
    · simp [h0]
    · rw [if_neg h0, if_neg h0]
      by_cases hodd : i % 2 = 1
      · simp [hodd]
      · rw [if_neg hodd]
        by_cases hlast : i = last
        · rw [if_pos hlast, ih (last / 2) (by omega) (by omega), atTop]
          by_cases h2 : last / 2 = 0
          · omega
          · rw [if_neg h2]
        · rw [if_neg hlast]

theorem skipPromoted_le {i last : ℕ} (hi : i ≤ last) :
    (skipPromoted i last).1 ≤ (skipPromoted i last).2 := by
  induction i, last using skipPromoted.induct with
  | case1 i last h ih =>
      rw [skipPromoted, if_pos h]
      exact ih (by simp only [Nat.shiftRight_one]; omega)
  | case2 i last h => rw [skipPromoted, if_neg h]; exact hi

/-- **The verifier climbs.** Its bit loop and the level-by-level climb give the same answer. -/
theorem verifyLoop_eq_climb (path : List Digest) {i last : ℕ} {r : Digest} (hi : i ≤ last) :
    (verifyLoop sha256 path i last r).bind atTop =
      MerkleTree.climb (nodeHash sha256) path i last r := by
  induction path generalizing i last r with
  | nil => rw [climb_nil hi]; rfl
  | cons p path ih =>
    rw [verifyLoop]
    by_cases h0 : last = 0
    · rw [if_pos h0, MerkleTree.climb.eq_def, if_pos h0]; rfl
    · rw [if_neg h0]
      by_cases hodd : i % 2 = 1
      · have hstop : skipPromoted i last = (i, last) := by
          rw [skipPromoted, if_neg (by rw [Nat.and_one_is_mod]; omega)]
        rw [if_pos (.inl (by rw [Nat.and_one_is_mod]; exact hodd)), hstop,
          MerkleTree.climb.eq_def, if_neg h0, if_pos hodd]
        simp only [Nat.shiftRight_one]
        exact ih (by omega)
      · by_cases hlast : i = last
        · subst hlast
          rw [if_pos (.inr rfl), climb_last p path r h0]
          have hle := skipPromoted_le (Nat.le_refl i)
          exact ih (by simp only [Nat.shiftRight_one]; omega)
        · have hcond : ¬ (i &&& 1 = 1 ∨ i = last) := by rw [Nat.and_one_is_mod]; omega
          rw [if_neg hcond, MerkleTree.climb.eq_def, if_neg h0, if_neg hodd, if_neg hlast]
          simp only [Nat.shiftRight_one]
          exact ih (by omega)

theorem climbPairs_last (p : Digest) (path : List Digest) (r : Digest) {n : ℕ} (h : n ≠ 0) :
    MerkleTree.climbPairs (nodeHash sha256) (p :: path) n n r =
      (p, r) :: MerkleTree.climbPairs (nodeHash sha256) path ((skipPromoted n n).1 >>> 1)
        ((skipPromoted n n).2 >>> 1) (nodeHash sha256 p r) := by
  induction n using Nat.strong_induction_on with
  | _ n ih =>
    rw [MerkleTree.climbPairs.eq_def, if_neg h]
    by_cases hodd : n % 2 = 1
    · have hstop : skipPromoted n n = (n, n) := by
        rw [skipPromoted, if_neg (by rw [Nat.and_one_is_mod]; omega)]
      rw [if_pos hodd, hstop, Nat.shiftRight_one]
    · have hgo : skipPromoted n n = skipPromoted (n / 2) (n / 2) := by
        rw [skipPromoted, if_pos ⟨by rw [Nat.and_one_is_mod]; omega, h⟩, Nat.shiftRight_one]
      rw [if_neg hodd, if_pos rfl, hgo]
      exact ih (n / 2) (by omega) (by omega)

theorem climbPairs_nil {f : Digest → Digest → Digest} {i last : ℕ} {r : Digest} :
    MerkleTree.climbPairs f [] i last r = [] := by
  induction last using Nat.strong_induction_on generalizing i with
  | _ last ih =>
    rw [MerkleTree.climbPairs.eq_def]
    split
    · rfl
    · split
      · rfl
      · split
        · exact ih (last / 2) (by omega)
        · rfl

/-- Every pair the climb combines is hashed by the loop. -/
theorem nodeInput_mem_verifyLoopInputs (path : List Digest) {i last : ℕ} {r : Digest}
    (hi : i ≤ last) {x : Digest × Digest}
    (hx : x ∈ MerkleTree.climbPairs (nodeHash sha256) path i last r) :
    nodeInput x.1 x.2 ∈ verifyLoopInputs sha256 path i last r := by
  induction path generalizing i last r with
  | nil => rw [climbPairs_nil] at hx; simp at hx
  | cons p path ih =>
    rw [verifyLoopInputs]
    by_cases h0 : last = 0
    · rw [MerkleTree.climbPairs.eq_def, if_pos h0] at hx; simp at hx
    · rw [if_neg h0]
      by_cases hodd : i % 2 = 1
      · have hstop : skipPromoted i last = (i, last) := by
          rw [skipPromoted, if_neg (by rw [Nat.and_one_is_mod]; omega)]
        rw [MerkleTree.climbPairs.eq_def, if_neg h0, if_pos hodd] at hx
        rw [if_pos (.inl (by rw [Nat.and_one_is_mod]; exact hodd)), hstop]
        simp only [Nat.shiftRight_one]
        rcases List.mem_cons.mp hx with rfl | hx
        · exact List.mem_cons_self
        · exact List.mem_cons_of_mem _ (ih (by omega) hx)
      · by_cases hlast : i = last
        · subst hlast
          rw [climbPairs_last p path r h0] at hx
          rw [if_pos (.inr rfl)]
          have hle := skipPromoted_le (Nat.le_refl i)
          rcases List.mem_cons.mp hx with rfl | hx
          · exact List.mem_cons_self
          · exact List.mem_cons_of_mem _ (ih (by simp only [Nat.shiftRight_one]; omega) hx)
        · have hcond : ¬ (i &&& 1 = 1 ∨ i = last) := by rw [Nat.and_one_is_mod]; omega
          rw [MerkleTree.climbPairs.eq_def, if_neg h0, if_neg hodd, if_neg hlast] at hx
          rw [if_neg hcond]
          simp only [Nat.shiftRight_one]
          rcases List.mem_cons.mp hx with rfl | hx
          · exact List.mem_cons_self
          · exact List.mem_cons_of_mem _ (ih (by omega) hx)

theorem verifyPath_eq_climb {leaf : Digest} {index size : ℕ} {path : List Digest} {root : Digest} :
    verifyPath sha256 leaf index size path root = true ↔
      index < size ∧ MerkleTree.climb (nodeHash sha256) path index (size - 1)
        (leafHash sha256 leaf) = some root := by
  unfold verifyPath
  by_cases hge : index ≥ size
  · simp [hge]
  · rw [if_neg hge, ← verifyLoop_eq_climb path (by omega)]
    cases hv : verifyLoop sha256 path index (size - 1) (leafHash sha256 leaf) with
    | none => simp
    | some out =>
        obtain ⟨snode, r⟩ := out
        by_cases h0 : snode = 0
        · simp [atTop, h0]; omega
        · simp [atTop, h0]

/-! ## Inclusion proofs are complete and sound -/

/-- The prover's path for leaf `i` verifies. -/
theorem verifyPath_auditPath {leaves : List Digest} {i : ℕ} (hi : i < leaves.length) :
    verifyPath sha256 leaves[i] i leaves.length (auditPath sha256 leaves i)
      (mth sha256 leaves) = true := by
  have hlen : (leaves.map (leafHash sha256)).length = leaves.length := List.length_map _
  have hleaf : (leaves.map (leafHash sha256))[i]? = some (leafHash sha256 leaves[i]) := by
    rw [List.getElem?_map, List.getElem?_eq_getElem hi]; rfl
  have hclimb := MerkleTree.climb_levelPath (nodeHash sha256) zeroDigest hleaf
  rw [hlen, ← MerkleTree.auditPath_eq_levelPath (nodeHash sha256) zeroDigest _ (hlen.symm ▸ hi),
    ← auditPath_eq, ← mth_eq_treeRoot] at hclimb
  exact verifyPath_eq_climb.mpr ⟨hi, hclimb⟩

/-- A path accepted against the root of `leaves`, for their number, is the prover's path of the leaf
    at that index. -/
theorem eq_of_verifyPath {leaves : List Digest} {leaf : Digest} {i : ℕ} {path : List Digest}
    (hcf : CollisionFreeOn sha256 (mthInputs sha256 leaves
      ++ verifyPathInputs sha256 leaf i leaves.length path))
    (h : verifyPath sha256 leaf i leaves.length path (mth sha256 leaves) = true) :
    leaves[i]? = some leaf ∧ path = auditPath sha256 leaves i := by
  obtain ⟨hi, hclimb⟩ := verifyPath_eq_climb.mp h
  have hlen : (leaves.map (leafHash sha256)).length = leaves.length := List.length_map _
  have hi' : i < (leaves.map (leafHash sha256)).length := hlen.symm ▸ hi
  have hinj : ∀ x ∈ MerkleTree.treePairs (nodeHash sha256) zeroDigest (leaves.map (leafHash sha256)),
      ∀ y ∈ MerkleTree.climbPairs (nodeHash sha256) path i
        ((leaves.map (leafHash sha256)).length - 1) (leafHash sha256 leaf),
      nodeHash sha256 x.1 x.2 = nodeHash sha256 y.1 y.2 → x = y := by
    intro x hx y hy hxy
    rw [hlen] at hy
    have hin := hcf _ (List.mem_append_left _ (nodeInput_mem_mthInputs hx)) _
      (List.mem_append_right _ (List.mem_cons_of_mem _
        (nodeInput_mem_verifyLoopInputs path (by omega) hy))) hxy
    obtain ⟨h1, h2⟩ := nodeInput_inj hin
    exact Prod.ext h1 h2
  rw [mth_eq_treeRoot, ← hlen] at hclimb
  obtain ⟨hleaf, hpath⟩ := MerkleTree.climb_sound hi' hinj hclimb
  rw [List.getElem?_map, List.getElem?_eq_getElem hi] at hleaf
  have hhash : leafHash sha256 leaves[i] = leafHash sha256 leaf := Option.some.inj hleaf
  have hin := hcf _ (List.mem_append_left _ (leafInput_mem_mthInputs (List.getElem_mem hi))) _
    (List.mem_append_right _ List.mem_cons_self) hhash
  refine ⟨by rw [List.getElem?_eq_getElem hi, leafInput_injective hin], ?_⟩
  rw [hpath, auditPath_eq, MerkleTree.auditPath_eq_levelPath _ _ _ hi']

theorem merkleRoot_eq {leaves : List Digest} (h : leaves ≠ []) :
    merkleRoot sha256 leaves = some (mth sha256 leaves) := by
  rw [merkleRoot, if_neg (by simpa using h)]

/-- **Inclusion proofs are complete and sound for every tree size.** Every leaf's audit path verifies
    against the root; and, `sha256` being collision free on what the tree and the verifier hash, only
    the audit path of the leaf at the claimed index does. -/
theorem inclusion_complete_and_sound (sha256 : List UInt8 → Digest) (leaves : List Digest)
    (hne : leaves ≠ []) :
    ∃ root, merkleRoot sha256 leaves = some root ∧
      (∀ i (hi : i < leaves.length),
        verifyPath sha256 leaves[i] i leaves.length (auditPath sha256 leaves i) root = true) ∧
      ∀ leaf i path,
        CollisionFreeOn sha256 (mthInputs sha256 leaves
          ++ verifyPathInputs sha256 leaf i leaves.length path) →
        verifyPath sha256 leaf i leaves.length path root = true →
        ∃ hi : i < leaves.length, leaf = leaves[i] ∧ path = auditPath sha256 leaves i := by
  refine ⟨mth sha256 leaves, merkleRoot_eq hne, fun i hi => verifyPath_auditPath hi, ?_⟩
  intro leaf i path hcf hv
  obtain ⟨hleaf, hpath⟩ := eq_of_verifyPath hcf hv
  obtain ⟨hi, hget⟩ := List.getElem?_eq_some_iff.mp hleaf
  exact ⟨hi, hget.symm, hpath⟩

/-! ### A tree of three leaves under the real hash -/

/-- Three record hashes, the smallest unbalanced tree. -/
def threeLeaves : List Digest :=
  [Vector.replicate 32 1, Vector.replicate 32 2, Vector.replicate 32 3]

/-- The path of the third leaf: the node over the first two. -/
def thirdPath : List Digest :=
  [nodeHash Sha256.hash (leafHash Sha256.hash (Vector.replicate 32 1))
    (leafHash Sha256.hash (Vector.replicate 32 2))]

theorem mthInputs_threeLeaves : mthInputs Sha256.hash threeLeaves =
    [nodeInput (thirdPath.headD zeroDigest) (leafHash Sha256.hash (Vector.replicate 32 3)),
      nodeInput (leafHash Sha256.hash (Vector.replicate 32 1))
        (leafHash Sha256.hash (Vector.replicate 32 2)),
      leafInput (Vector.replicate 32 1), leafInput (Vector.replicate 32 2),
      leafInput (Vector.replicate 32 3)] := by
  simp [threeLeaves, thirdPath, mthInputs, mth, split, splitLoop]

theorem verifyPathInputs_thirdPath :
    verifyPathInputs Sha256.hash (Vector.replicate 32 3) 2 3 thirdPath =
      [leafInput (Vector.replicate 32 3),
        nodeInput (thirdPath.headD zeroDigest)
          (leafHash Sha256.hash (Vector.replicate 32 3))] := by
  simp [thirdPath, verifyPathInputs, verifyLoopInputs]

set_option maxRecDepth 20000 in
/-- The inputs of this tree do not collide under SHA-256. -/
theorem collisionFree_threeLeaves : CollisionFreeOn Sha256.hash
    (mthInputs Sha256.hash threeLeaves
      ++ verifyPathInputs Sha256.hash (Vector.replicate 32 3) 2 3 thirdPath) := by
  rw [mthInputs_threeLeaves, verifyPathInputs_thirdPath]
  decide +kernel

/-- On three leaves, the third leaf's path is accepted, and is the one path accepted for it. -/
theorem inclusion_three_leaves :
    ∃ root, merkleRoot Sha256.hash threeLeaves = some root ∧
      verifyPath Sha256.hash (Vector.replicate 32 3) 2 3 thirdPath root = true ∧
      thirdPath = auditPath Sha256.hash threeLeaves 2 := by
  obtain ⟨root, hroot, -, hsound⟩ :=
    inclusion_complete_and_sound Sha256.hash threeLeaves (by simp [threeLeaves])
  have hv : verifyPath Sha256.hash (Vector.replicate 32 3) 2 3 thirdPath root = true := by
    rw [merkleRoot_eq (by simp [threeLeaves]), Option.some_inj] at hroot
    subst hroot
    simp [threeLeaves, thirdPath, verifyPath, verifyLoop, skipPromoted, mth, split, splitLoop]
  obtain ⟨-, -, hpath⟩ := hsound (Vector.replicate 32 3) 2 thirdPath collisionFree_threeLeaves hv
  exact ⟨root, hroot, hv, hpath⟩

end AgentRuntime.Records.Merkle
