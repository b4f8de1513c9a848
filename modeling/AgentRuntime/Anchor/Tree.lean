import Mathlib.Data.Nat.Bitwise
import AgentRuntime.Records.Merkle

/-!
# `Anchor.Tree` — the batch tree of `agent-anchor/src/tree.rs`

`Tree::build` keeps every level of the tree, pairing adjacent nodes and promoting an unpaired last
node; `Tree::path` reads one sibling per level. Both are the bottom-up description of the generic tree
(`MerkleTree.pairUp`, `MerkleTree.levelPath`), so they agree with the top-down reference of
`Records.Merkle` for every size (`build_is_reference_tree`).
-/

namespace AgentRuntime.Anchor

open Records.Merkle

variable (sha256 : List UInt8 → Digest)

/-- `top.chunks(2)` mapped: a pair is hashed, an unpaired last node is promoted. -/
def nextLevel : List Digest → List Digest
  | l :: r :: rest => nodeHash sha256 l r :: nextLevel rest
  | [last] => [last]
  | [] => []

@[simp] theorem nextLevel_eq (level : List Digest) :
    nextLevel sha256 level = MerkleTree.pairUp (nodeHash sha256) level := by
  induction level using nextLevel.induct with
  | case1 l r rest ih => simp [nextLevel, ih]
  | case2 last => rfl
  | case3 => rfl

/-- Every level, from `top` to the level with one node. -/
def levelsFrom (top : List Digest) : List (List Digest) :=
  if top.length ≤ 1 then [top] else top :: levelsFrom (nextLevel sha256 top)
termination_by top.length
decreasing_by
  rw [nextLevel_eq, MerkleTree.length_pairUp]; omega

structure Tree where
  /-- `levels[0]` are the leaf hashes; the last level has one node, the root. -/
  levels : List (List Digest)
deriving DecidableEq

/-- Build the tree over `leafData` (record hashes, in order). `none` for no leaves. -/
def Tree.build (leafData : List Digest) : Option Tree :=
  if leafData.isEmpty then none
  else some ⟨levelsFrom sha256 (leafData.map (leafHash sha256))⟩

/-- Number of leaves. -/
def Tree.size (t : Tree) : ℕ := (t.levels.head?.map List.length).getD 0

/-- The root (the RFC 6962 Merkle tree hash). -/
def Tree.root (t : Tree) : Digest := (t.levels.getLast?.bind List.head?).getD zeroDigest

/-- The loop of `path`: one sibling per level, when the level has it. -/
def pathLoop : List (List Digest) → ℕ → List Digest
  | [], _ => []
  | level :: rest, i =>
      (if _h : i ^^^ 1 < level.length then [level[i ^^^ 1]] else []) ++ pathLoop rest (i / 2)

/-- The audit path for leaf `index`, leaf to root. `none` when `index` is out of range. -/
def Tree.path (t : Tree) (index : ℕ) : Option (List Digest) := do
  let first ← t.levels.head?
  if index ≥ first.length then none
  else some (pathLoop t.levels.dropLast index)

/-! ## The levels describe the generic bottom-up tree -/

variable {sha256}

theorem levelsFrom_ne_nil (top : List Digest) : levelsFrom sha256 top ≠ [] := by
  rw [levelsFrom]; split <;> simp

theorem head?_levelsFrom (top : List Digest) : (levelsFrom sha256 top).head? = some top := by
  rw [levelsFrom]; split <;> rfl

/-- The last level holds the root. -/
theorem getLast?_levelsFrom {top : List Digest} (h : top ≠ []) :
    (levelsFrom sha256 top).getLast? =
      some [MerkleTree.treeRoot (nodeHash sha256) zeroDigest top] := by
  induction top using levelsFrom.induct sha256 with
  | case1 top hle =>
      rw [levelsFrom, if_pos hle]
      match top, h, hle with
      | [a], _, _ => simp
  | case2 top hgt ih =>
      have hne : nextLevel sha256 top ≠ [] := by
        intro hnil
        have hlen := congrArg List.length hnil
        rw [nextLevel_eq, MerkleTree.length_pairUp, List.length_nil] at hlen
        omega
      rw [levelsFrom, if_neg hgt, List.getLast?_cons, ih hne, nextLevel_eq,
        MerkleTree.treeRoot_pairUp]
      rfl

theorem xor_one (i : ℕ) : i ^^^ 1 = if i % 2 = 1 then i - 1 else i + 1 := by
  split
  · rename_i h; exact Nat.xor_one_of_odd (Nat.odd_iff.mpr h)
  · rename_i h; exact Nat.xor_one_of_even (Nat.even_iff.mpr (by omega))

/-- The path loop over the levels below the root meets the siblings of the generic level path. -/
theorem pathLoop_levelsFrom (top : List Digest) (i : ℕ) :
    pathLoop (levelsFrom sha256 top).dropLast i =
      MerkleTree.levelPath (nodeHash sha256) top i := by
  induction top using levelsFrom.induct sha256 generalizing i with
  | case1 top hle =>
      rw [levelsFrom, if_pos hle, MerkleTree.levelPath_short hle]; rfl
  | case2 top hgt ih =>
      have hsib : (if _h : i ^^^ 1 < top.length then [top[i ^^^ 1]] else [])
          = (MerkleTree.sibling? top i).toList := by
        rw [MerkleTree.sibling?, ← xor_one]
        split
        · rename_i h; rw [List.getElem?_eq_getElem h]; rfl
        · rename_i h; rw [List.getElem?_eq_none (by omega)]; rfl
      rw [levelsFrom, if_neg hgt, List.dropLast_cons_of_ne_nil (levelsFrom_ne_nil _), pathLoop,
        hsib, ih, nextLevel_eq, ← MerkleTree.levelPath_step (by omega)]

theorem build_eq {leaves : List Digest} (h : leaves ≠ []) :
    Tree.build sha256 leaves = some ⟨levelsFrom sha256 (leaves.map (leafHash sha256))⟩ := by
  rw [Tree.build, if_neg (by simpa using h)]

theorem root_levelsFrom {leaves : List Digest} (h : leaves ≠ []) :
    Tree.root ⟨levelsFrom sha256 (leaves.map (leafHash sha256))⟩ = mth sha256 leaves := by
  rw [Tree.root, getLast?_levelsFrom (by simpa using h), mth_eq_treeRoot]; rfl

theorem path_levelsFrom (leaves : List Digest) (i : ℕ) :
    Tree.path ⟨levelsFrom sha256 (leaves.map (leafHash sha256))⟩ i =
      if i < leaves.length then some (auditPath sha256 leaves i) else none := by
  simp only [Tree.path, head?_levelsFrom, Option.bind_eq_bind, Option.bind_some, List.length_map]
  by_cases hi : i < leaves.length
  · rw [if_neg (by omega), if_pos hi, pathLoop_levelsFrom, auditPath_eq,
      MerkleTree.auditPath_eq_levelPath _ _ _ (by simpa using hi)]
  · rw [if_pos (by omega), if_neg hi]

/-- **The batch tree is the reference tree**: same root, and the same audit path for every index in
    range (`none` otherwise). -/
theorem build_is_reference_tree (sha256 : List UInt8 → Digest) (leaves : List Digest)
    (hne : leaves ≠ []) :
    ∃ t, Tree.build sha256 leaves = some t ∧ merkleRoot sha256 leaves = some t.root ∧
      ∀ i, t.path i = if i < leaves.length then some (auditPath sha256 leaves i) else none := by
  refine ⟨_, build_eq hne, ?_, path_levelsFrom leaves⟩
  rw [merkleRoot_eq hne, root_levelsFrom hne]

/-- The three-leaf tree of `Records.Merkle`, level by level. -/
theorem build_three_leaves :
    ∃ t, Tree.build Sha256.hash threeLeaves = some t ∧
      merkleRoot Sha256.hash threeLeaves = some t.root ∧
      ∀ i, t.path i = if i < threeLeaves.length then some (auditPath Sha256.hash threeLeaves i)
        else none :=
  build_is_reference_tree Sha256.hash threeLeaves (by simp [threeLeaves])

end AgentRuntime.Anchor
