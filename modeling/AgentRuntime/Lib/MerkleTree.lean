import Mathlib

/-!
# `Lib.MerkleTree` — unbalanced Merkle trees over an arbitrary node combiner

A tree over a list of nodes `l` and a combiner `f : α → α → α` can be described in two ways:

* **top-down** (`treeRoot`, `auditPath`): split at the largest power of two strictly below the
  length (`splitPoint`), combine the roots of the two parts;
* **bottom-up** (`pairUp`, `levelPath`): combine adjacent nodes level by level and carry an unpaired
  last node up unchanged.

`treeRoot_pairUp` and `auditPath_eq_levelPath` say that the two are the same tree. A verifier climbs
bottom-up (`climb`); `climb_levelPath` is its completeness, and `climb_sound` its soundness under
injectivity of `f` on the pairs that are actually combined (`climbPairs`, `treePairs`).

Nothing here mentions hashes or a program: `α` and `f` are arbitrary.
-/

namespace MerkleTree

variable {α : Type*}

/-! ## The split point -/

/-- The largest power of two strictly below `n` (for `2 ≤ n`). -/
def splitPoint (n : ℕ) : ℕ := 2 ^ Nat.log 2 (n - 1)

theorem splitPoint_pos (n : ℕ) : 0 < splitPoint n := Nat.two_pow_pos _

theorem splitPoint_lt {n : ℕ} (h : 2 ≤ n) : splitPoint n < n := by
  have hle : splitPoint n ≤ n - 1 := Nat.pow_log_le_self 2 (by omega)
  omega

theorem le_two_mul_splitPoint (n : ℕ) : n ≤ 2 * splitPoint n := by
  have hlt : n - 1 < 2 ^ (Nat.log 2 (n - 1) + 1) := Nat.lt_pow_succ_log_self (by omega) _
  rw [Nat.pow_succ] at hlt
  unfold splitPoint
  omega

/-- A power of two `2 ^ e < n ≤ 2 ^ (e + 1)` is the split point. -/
theorem eq_splitPoint {n e : ℕ} (hlt : 2 ^ e < n) (hle : n ≤ 2 ^ (e + 1)) :
    splitPoint n = 2 ^ e := by
  unfold splitPoint
  congr 1
  have hpos : 0 < 2 ^ e := Nat.two_pow_pos e
  exact (Nat.log_eq_iff (Or.inr ⟨by omega, by omega⟩)).mpr ⟨by omega, by omega⟩

@[simp] theorem splitPoint_two : splitPoint 2 = 1 := by simp [splitPoint]

/-- From three nodes on, one pairing step halves the split point. -/
theorem splitPoint_half {n : ℕ} (h : 3 ≤ n) : splitPoint n = 2 * splitPoint ((n + 1) / 2) := by
  have hhalf : (n + 1) / 2 - 1 = (n - 1) / 2 := by omega
  have hlog : 0 < Nat.log 2 (n - 1) := Nat.log_pos (by omega) (by omega)
  unfold splitPoint
  rw [hhalf, Nat.log_div_base, ← Nat.pow_succ', Nat.succ_eq_add_one, Nat.sub_add_cancel hlog]

/-! ## Top-down: root and audit path by splitting -/

/-- The root of the tree over `l`, splitting at `splitPoint`; `d` is the value of the empty list. -/
def treeRoot (f : α → α → α) (d : α) : List α → α
  | [] => d
  | [a] => a
  | a :: b :: t =>
      f (treeRoot f d ((a :: b :: t).take (splitPoint (t.length + 2))))
        (treeRoot f d ((a :: b :: t).drop (splitPoint (t.length + 2))))
termination_by l => l.length
decreasing_by
  · have := splitPoint_lt (n := t.length + 2) (by omega)
    simp only [List.length_take, List.length_cons]; omega
  · have := splitPoint_pos (t.length + 2)
    simp only [List.length_drop, List.length_cons]; omega

/-- The sibling roots from leaf `i` up to the root of the tree over `l`. -/
def auditPath (f : α → α → α) (d : α) (l : List α) (i : ℕ) : List α :=
  if _h : i < l.length ∧ 2 ≤ l.length then
    let k := splitPoint l.length
    if i < k then auditPath f d (l.take k) i ++ [treeRoot f d (l.drop k)]
    else auditPath f d (l.drop k) (i - k) ++ [treeRoot f d (l.take k)]
  else []
termination_by l.length
decreasing_by
  · have := splitPoint_lt _h.2
    simp only [List.length_take]; omega
  · have := splitPoint_pos l.length
    simp only [List.length_drop]; omega

variable {f : α → α → α} {d : α}

@[simp] theorem treeRoot_singleton (a : α) : treeRoot f d [a] = a := by simp [treeRoot]

theorem treeRoot_split {l : List α} (h : 2 ≤ l.length) :
    treeRoot f d l = f (treeRoot f d (l.take (splitPoint l.length)))
      (treeRoot f d (l.drop (splitPoint l.length))) := by
  match l, h with
  | a :: b :: t, _ => rw [treeRoot]; rfl

theorem auditPath_left {l : List α} {i : ℕ} (h : 2 ≤ l.length) (hi : i < splitPoint l.length) :
    auditPath f d l i = auditPath f d (l.take (splitPoint l.length)) i
      ++ [treeRoot f d (l.drop (splitPoint l.length))] := by
  have hk := splitPoint_lt h
  rw [auditPath, dif_pos ⟨by omega, h⟩, if_pos hi]

theorem auditPath_right {l : List α} {i : ℕ} (h : 2 ≤ l.length) (hi : splitPoint l.length ≤ i)
    (hlt : i < l.length) :
    auditPath f d l i = auditPath f d (l.drop (splitPoint l.length)) (i - splitPoint l.length)
      ++ [treeRoot f d (l.take (splitPoint l.length))] := by
  rw [auditPath, dif_pos ⟨hlt, h⟩, if_neg (by omega)]

theorem auditPath_nil {l : List α} {i : ℕ} (h : l.length ≤ 1 ∨ l.length ≤ i) :
    auditPath f d l i = [] := by
  rw [auditPath, dif_neg (by omega)]

/-! ## Bottom-up: one pairing step -/

/-- Combine adjacent nodes; an unpaired last node is carried up. -/
def pairUp (f : α → α → α) : List α → List α
  | a :: b :: t => f a b :: pairUp f t
  | l => l

@[simp] theorem pairUp_nil : pairUp f [] = [] := rfl

@[simp] theorem pairUp_singleton (a : α) : pairUp f [a] = [a] := rfl

@[simp] theorem pairUp_cons_cons (a b : α) (t : List α) :
    pairUp f (a :: b :: t) = f a b :: pairUp f t := rfl

@[simp] theorem length_pairUp (f : α → α → α) (l : List α) :
    (pairUp f l).length = (l.length + 1) / 2 := by
  induction l using pairUp.induct with
  | case1 a b t ih => simp [ih]; omega
  | case2 l h => match l, h with
    | [], _ => simp
    | [a], _ => simp
    | a :: b :: t, h => exact absurd rfl (h a b t)

theorem pairUp_take (f : α → α → α) (l : List α) (k : ℕ) :
    pairUp f (l.take (2 * k)) = (pairUp f l).take k := by
  induction l using pairUp.induct generalizing k with
  | case1 a b t ih =>
      cases k with
      | zero => simp
      | succ k => simp [Nat.mul_succ, ih]
  | case2 l h => match l, h with
    | [], _ => simp
    | [a], _ => cases k <;> simp [Nat.mul_succ]
    | a :: b :: t, h => exact absurd rfl (h a b t)

theorem pairUp_drop (f : α → α → α) (l : List α) (k : ℕ) :
    pairUp f (l.drop (2 * k)) = (pairUp f l).drop k := by
  induction l using pairUp.induct generalizing k with
  | case1 a b t ih =>
      cases k with
      | zero => simp
      | succ k => simp [Nat.mul_succ, ih]
  | case2 l h => match l, h with
    | [], _ => simp
    | [a], _ => cases k <;> simp [Nat.mul_succ]
    | a :: b :: t, h => exact absurd rfl (h a b t)

/-- Both children present: the parent combines them. -/
theorem getElem?_pairUp_pair {l : List α} {i : ℕ} {a b : α} (ha : l[2 * i]? = some a)
    (hb : l[2 * i + 1]? = some b) : (pairUp f l)[i]? = some (f a b) := by
  induction l using pairUp.induct generalizing i with
  | case1 x y t ih =>
      cases i with
      | zero => simp_all
      | succ i => exact ih (by simpa [Nat.mul_succ] using ha) (by simpa [Nat.mul_succ] using hb)
  | case2 l h => match l, h with
    | [], _ => simp at ha
    | [x], _ => simp at hb
    | x :: y :: t, h => exact absurd rfl (h x y t)

/-- An unpaired last node is its own parent. -/
theorem getElem?_pairUp_last {l : List α} {i : ℕ} {a : α} (ha : l[2 * i]? = some a)
    (hlast : l.length = 2 * i + 1) : (pairUp f l)[i]? = some a := by
  induction l using pairUp.induct generalizing i with
  | case1 x y t ih =>
      cases i with
      | zero => simp at hlast
      | succ i =>
          exact ih (by simpa [Nat.mul_succ] using ha) (by simp at hlast; omega)
  | case2 l h => match l, h with
    | [], _ => simp at ha
    | [x], _ =>
        have hi : i = 0 := by simp at hlast; omega
        subst hi; simpa using ha
    | x :: y :: t, h => exact absurd rfl (h x y t)

/-- **Pairing a level does not change the root.** The split point of three or more nodes is even, so
    a pairing step distributes over the split. -/
theorem treeRoot_pairUp (f : α → α → α) (d : α) (l : List α) :
    treeRoot f d (pairUp f l) = treeRoot f d l := by
  induction hn : l.length using Nat.strong_induction_on generalizing l with
  | _ n ih =>
    rcases Nat.lt_or_ge l.length 3 with hlt | hge
    · match l, hlt with
      | [], _ => rfl
      | [a], _ => rfl
      | [a, b], _ => rw [treeRoot_split (l := [a, b]) (by simp)]; simp
    · have hk := splitPoint_half hge
      have hlen : (pairUp f l).length = (l.length + 1) / 2 := length_pairUp f l
      have hlt := splitPoint_lt (n := l.length) (by omega)
      have hpos := splitPoint_pos ((l.length + 1) / 2)
      rw [treeRoot_split (l := pairUp f l) (by omega), treeRoot_split (l := l) (by omega), hlen,
        ← pairUp_take, ← pairUp_drop, ← hk,
        ih _ (by simp; omega) _ rfl, ih _ (by simp; omega) _ rfl]

/-! ## Bottom-up: the path of a leaf -/

/-- The sibling of node `i` in its level, if it has one. -/
def sibling? (l : List α) (i : ℕ) : Option α := l[if i % 2 = 1 then i - 1 else i + 1]?

/-- The siblings met when climbing from node `i` of level `l`; promoted nodes contribute none. -/
def levelPath (f : α → α → α) (l : List α) (i : ℕ) : List α :=
  if 2 ≤ l.length then
    (sibling? l i).toList ++ levelPath f (pairUp f l) (i / 2)
  else []
termination_by l.length
decreasing_by
  rw [length_pairUp]; omega

theorem levelPath_step {l : List α} {i : ℕ} (h : 2 ≤ l.length) :
    levelPath f l i = (sibling? l i).toList ++ levelPath f (pairUp f l) (i / 2) := by
  rw [levelPath, if_pos h]

theorem levelPath_short {l : List α} {i : ℕ} (h : l.length ≤ 1) : levelPath f l i = [] := by
  rw [levelPath, if_neg (by omega)]

theorem sibling?_take {l : List α} {i k : ℕ} (hi : i < 2 * k) :
    sibling? (l.take (2 * k)) i = sibling? l i := by
  unfold sibling?
  split
  · rw [List.getElem?_take_of_lt (by omega)]
  · rw [List.getElem?_take_of_lt (by omega)]

theorem sibling?_drop {l : List α} {i k : ℕ} (hi : 2 * k ≤ i) :
    sibling? (l.drop (2 * k)) (i - 2 * k) = sibling? l i := by
  unfold sibling?
  rw [List.getElem?_drop]
  congr 1
  split <;> split <;> omega

/-- One level of the top-down audit path is the sibling, then the path in the paired level. -/
theorem auditPath_pairUp (f : α → α → α) (d : α) (l : List α) {i : ℕ} (hi : i < l.length)
    (h2 : 2 ≤ l.length) :
    auditPath f d l i = (sibling? l i).toList ++ auditPath f d (pairUp f l) (i / 2) := by
  induction hn : l.length using Nat.strong_induction_on generalizing l i with
  | _ n ih =>
    rcases Nat.lt_or_ge l.length 3 with hlt | hge
    · match l, h2, hlt with
      | [a, b], _, _ =>
        have hnil : auditPath f d (pairUp f [a, b]) (i / 2) = [] := auditPath_nil (by simp)
        rw [hnil]
        have : i = 0 ∨ i = 1 := by simp at hi; omega
        rcases this with rfl | rfl
        · rw [auditPath_left (by simp) (by simp)]
          simp [sibling?, auditPath_nil]
        · rw [auditPath_right (by simp) (by simp) (by simp)]
          simp [sibling?, auditPath_nil]
    · obtain ⟨m, hm⟩ : ∃ m, m = splitPoint ((l.length + 1) / 2) := ⟨_, rfl⟩
      have hk : splitPoint l.length = 2 * m := hm ▸ splitPoint_half hge
      have hm0 : 0 < m := hm ▸ splitPoint_pos _
      have hlt : 2 * m < l.length := hk ▸ splitPoint_lt h2
      have hlen : (pairUp f l).length = (l.length + 1) / 2 := length_pairUp f l
      have hkup : splitPoint (pairUp f l).length = m := by rw [hlen, hm]
      rcases Nat.lt_or_ge i (2 * m) with hleft | hright
      · -- left part: it has an even number of nodes, so the sibling lies in it too
        have hsub : auditPath f d (l.take (2 * m)) i
            = (sibling? (l.take (2 * m)) i).toList
              ++ auditPath f d (pairUp f (l.take (2 * m))) (i / 2) :=
          ih (l.take (2 * m)).length (by simp; omega) _ (by simp; omega) (by simp; omega) rfl
        rw [auditPath_left h2 (by omega), auditPath_left (l := pairUp f l) (by omega) (by omega),
          hk, hkup, hsub, sibling?_take hleft, pairUp_take, ← pairUp_drop, treeRoot_pairUp,
          List.append_assoc]
      · have hup : auditPath f d (pairUp f l) (i / 2)
            = auditPath f d ((pairUp f l).drop m) (i / 2 - m)
              ++ [treeRoot f d ((pairUp f l).take m)] := by
          rw [auditPath_right (l := pairUp f l) (by omega) (by omega) (by omega), hkup]
        have hroot : treeRoot f d ((pairUp f l).take m) = treeRoot f d (l.take (2 * m)) := by
          rw [← pairUp_take, treeRoot_pairUp]
        rw [auditPath_right h2 (by omega) hi, hup, hroot, hk, ← List.append_assoc,
          ← sibling?_drop hright, ← pairUp_drop, show i / 2 - m = (i - 2 * m) / 2 by omega]
        congr 1
        rcases Nat.lt_or_ge (l.drop (2 * m)).length 2 with hone | htwo
        · -- a single node on the right: promoted, no sibling on either side
          have hlen1 : l.length - 2 * m = 1 := by simp at hone; omega
          rw [auditPath_nil (by simp; omega), auditPath_nil (by simp; omega)]
          have hnone : sibling? (l.drop (2 * m)) (i - 2 * m) = none := by
            have : i - 2 * m = 0 := by omega
            simp only [sibling?, this]
            exact List.getElem?_eq_none (by simp; omega)
          rw [hnone]; rfl
        · exact ih (l.drop (2 * m)).length (by simp; omega) _ (by simp; omega) htwo rfl

/-- **The two paths are the same**: splitting top-down and pairing bottom-up meet the same
    siblings. -/
theorem auditPath_eq_levelPath (f : α → α → α) (d : α) (l : List α) {i : ℕ} (hi : i < l.length) :
    auditPath f d l i = levelPath f l i := by
  induction hn : l.length using Nat.strong_induction_on generalizing l i with
  | _ n ih =>
    rcases Nat.lt_or_ge l.length 2 with hlt | hge
    · rw [auditPath_nil (by omega), levelPath_short (by omega)]
    · have hlen : (pairUp f l).length = (l.length + 1) / 2 := length_pairUp f l
      rw [auditPath_pairUp f d l hi hge, levelPath_step hge,
        ih (pairUp f l).length (by omega) _ (by omega) rfl]

/-! ## Climbing: the verifier -/

/-- Climb from node `i` of a level whose last index is `last`, consuming one sibling per level
    except where the node is unpaired; the result is the root reached when the path ends exactly at
    the top. -/
def climb (f : α → α → α) (p : List α) (i last : ℕ) (r : α) : Option α :=
  if last = 0 then
    match p with
    | [] => some r
    | _ :: _ => none
  else if i % 2 = 1 then
    match p with
    | [] => none
    | s :: p => climb f p (i / 2) (last / 2) (f s r)
  else if i = last then climb f p (i / 2) (last / 2) r
  else
    match p with
    | [] => none
    | s :: p => climb f p (i / 2) (last / 2) (f r s)
termination_by last

/-- The pairs `climb` combines. -/
def climbPairs (f : α → α → α) (p : List α) (i last : ℕ) (r : α) : List (α × α) :=
  if last = 0 then []
  else if i % 2 = 1 then
    match p with
    | [] => []
    | s :: p => (s, r) :: climbPairs f p (i / 2) (last / 2) (f s r)
  else if i = last then climbPairs f p (i / 2) (last / 2) r
  else
    match p with
    | [] => []
    | s :: p => (r, s) :: climbPairs f p (i / 2) (last / 2) (f r s)
termination_by last

/-- The pairs `treeRoot` combines. -/
def treePairs (f : α → α → α) (d : α) : List α → List (α × α)
  | [] => []
  | [_] => []
  | a :: b :: t =>
      (treeRoot f d ((a :: b :: t).take (splitPoint (t.length + 2))),
        treeRoot f d ((a :: b :: t).drop (splitPoint (t.length + 2)))) ::
      (treePairs f d ((a :: b :: t).take (splitPoint (t.length + 2)))
        ++ treePairs f d ((a :: b :: t).drop (splitPoint (t.length + 2))))
termination_by l => l.length
decreasing_by
  · have := splitPoint_lt (n := t.length + 2) (by omega)
    simp only [List.length_take, List.length_cons]; omega
  · have := splitPoint_pos (t.length + 2)
    simp only [List.length_drop, List.length_cons]; omega

theorem treePairs_split {l : List α} (h : 2 ≤ l.length) :
    treePairs f d l =
      (treeRoot f d (l.take (splitPoint l.length)), treeRoot f d (l.drop (splitPoint l.length))) ::
      (treePairs f d (l.take (splitPoint l.length))
        ++ treePairs f d (l.drop (splitPoint l.length))) := by
  match l, h with
  | a :: b :: t, _ => rw [treePairs]; rfl

/-- Every adjacent pair of a level is combined somewhere in the tree. -/
theorem pair_mem_treePairs {l : List α} {j : ℕ} {a b : α} (ha : l[2 * j]? = some a)
    (hb : l[2 * j + 1]? = some b) : (a, b) ∈ treePairs f d l := by
  induction hn : l.length using Nat.strong_induction_on generalizing l j with
  | _ n ih =>
    obtain ⟨hj, -⟩ := List.getElem?_eq_some_iff.mp hb
    rw [treePairs_split (by omega)]
    rcases Nat.lt_or_ge l.length 3 with hlt | hge
    · match l, hlt with
      | [], _ => simp at hj
      | [x], _ => simp at hj
      | [x, y], _ =>
        have hj0 : j = 0 := by simp at hj; omega
        subst hj0
        simp at ha hb
        simp [ha, hb]
    · have hk := splitPoint_half hge
      have hlt := splitPoint_lt (n := l.length) (by omega)
      have hpos := splitPoint_pos ((l.length + 1) / 2)
      rw [hk] at hlt ⊢
      generalize splitPoint ((l.length + 1) / 2) = m at hlt hpos ⊢
      refine List.mem_cons_of_mem _ (List.mem_append.mpr ?_)
      rcases Nat.lt_or_ge j m with hl | hr
      · left
        exact ih (l.take (2 * m)).length (by simp; omega) (j := j)
          (by rw [List.getElem?_take_of_lt (by omega)]; exact ha)
          (by rw [List.getElem?_take_of_lt (by omega)]; exact hb) rfl
      · right
        refine ih (l.drop (2 * m)).length (by simp; omega) (j := j - m) ?_ ?_ rfl
        · rw [List.getElem?_drop, show 2 * m + 2 * (j - m) = 2 * j by omega]; exact ha
        · rw [List.getElem?_drop, show 2 * m + (2 * (j - m) + 1) = 2 * j + 1 by omega]; exact hb

/-- The pairs of the paired level are combined in the tree of the level itself. -/
theorem treePairs_pairUp_subset (l : List α) :
    ∀ x ∈ treePairs f d (pairUp f l), x ∈ treePairs f d l := by
  induction hn : l.length using Nat.strong_induction_on generalizing l with
  | _ n ih =>
    intro x hx
    rcases Nat.lt_or_ge l.length 3 with hlt | hge
    · match l, hlt with
      | [], _ => exact hx
      | [a], _ => exact hx
      | [a, b], _ => simp [treePairs] at hx
    · have hk := splitPoint_half hge
      have hlen : (pairUp f l).length = (l.length + 1) / 2 := length_pairUp f l
      have hlt := splitPoint_lt (n := l.length) (by omega)
      have hpos := splitPoint_pos ((l.length + 1) / 2)
      rw [treePairs_split (by omega), hlen, ← pairUp_take, ← pairUp_drop, ← hk,
        treeRoot_pairUp, treeRoot_pairUp] at hx
      rw [treePairs_split (by omega)]
      rcases List.mem_cons.mp hx with rfl | hx
      · exact List.mem_cons_self
      · refine List.mem_cons_of_mem _ (List.mem_append.mpr ?_)
        rcases List.mem_append.mp hx with hx | hx
        · exact .inl (ih _ (by simp; omega) _ rfl x hx)
        · exact .inr (ih _ (by simp; omega) _ rfl x hx)

/-- **Completeness.** The level path of node `i` climbs to the root. -/
theorem climb_levelPath (f : α → α → α) (d : α) {l : List α} {i : ℕ} {r : α}
    (hr : l[i]? = some r) :
    climb f (levelPath f l i) i (l.length - 1) r = some (treeRoot f d l) := by
  induction hn : l.length using Nat.strong_induction_on generalizing l i r with
  | _ n ih =>
    obtain ⟨hi, -⟩ := List.getElem?_eq_some_iff.mp hr
    have hlen : (pairUp f l).length = (l.length + 1) / 2 := length_pairUp f l
    rcases Nat.lt_or_ge l.length 2 with hlt | hge
    · match l, hlt with
      | [], _ => simp at hi
      | [a], _ =>
        have hi0 : i = 0 := by simpa using hi
        subst hi0
        rw [levelPath_short (by simp), climb.eq_def, if_pos (by simp at hn; omega)]
        simpa using hr.symm
    · have hrec : ∀ r', (pairUp f l)[i / 2]? = some r' →
          climb f (levelPath f (pairUp f l) (i / 2)) (i / 2) ((n - 1) / 2) r'
            = some (treeRoot f d l) := by
        intro r' hr'
        have := ih (pairUp f l).length (by omega) hr' rfl
        rwa [treeRoot_pairUp, hlen, show (l.length + 1) / 2 - 1 = (n - 1) / 2 by omega] at this
      rw [levelPath_step hge, climb.eq_def, if_neg (by omega)]
      by_cases hodd : i % 2 = 1
      · have hs : l[i - 1]? = some l[i - 1] := List.getElem?_eq_getElem (by omega)
        have hup : (pairUp f l)[i / 2]? = some (f l[i - 1] r) :=
          getElem?_pairUp_pair (by rw [show 2 * (i / 2) = i - 1 by omega]; exact hs)
            (by rw [show 2 * (i / 2) + 1 = i by omega]; exact hr)
        simp only [sibling?, hodd, if_true, hs, Option.toList_some, List.singleton_append]
        exact hrec _ hup
      · by_cases hlast : i = n - 1
        · have hup : (pairUp f l)[i / 2]? = some r :=
            getElem?_pairUp_last (by rw [show 2 * (i / 2) = i by omega]; exact hr) (by omega)
          have hnone : sibling? l i = none := by
            simp only [sibling?, hodd, if_false]
            exact List.getElem?_eq_none (by omega)
          rw [if_neg hodd, if_pos hlast, hnone]
          exact hrec _ hup
        · have hs : l[i + 1]? = some l[i + 1] := List.getElem?_eq_getElem (by omega)
          have hup : (pairUp f l)[i / 2]? = some (f r l[i + 1]) :=
            getElem?_pairUp_pair (by rw [show 2 * (i / 2) = i by omega]; exact hr)
              (by rw [show 2 * (i / 2) + 1 = i + 1 by omega]; exact hs)
          rw [if_neg hodd, if_neg hlast]
          simp only [sibling?, hodd, if_false, hs, Option.toList_some, List.singleton_append]
          exact hrec _ hup

/-- **Soundness.** A climb that reaches the root of `l` started at `l[i]` and consumed exactly the
    level path, provided `f` does not collide between the tree's pairs and the climb's. -/
theorem climb_sound {l p : List α} {i : ℕ} {r : α} (hi : i < l.length)
    (hinj : ∀ x ∈ treePairs f d l, ∀ y ∈ climbPairs f p i (l.length - 1) r,
      f x.1 x.2 = f y.1 y.2 → x = y)
    (h : climb f p i (l.length - 1) r = some (treeRoot f d l)) :
    l[i]? = some r ∧ p = levelPath f l i := by
  induction hn : l.length using Nat.strong_induction_on generalizing l p i r with
  | _ n ih =>
    have hlen : (pairUp f l).length = (l.length + 1) / 2 := length_pairUp f l
    rcases Nat.lt_or_ge l.length 2 with hlt | hge
    · match l, hlt with
      | [], _ => simp at hi
      | [a], _ =>
        have hi0 : i = 0 := by simpa using hi
        subst hi0
        rw [climb.eq_def, if_pos (by simp)] at h
        cases p with
        | nil => simpa [levelPath_short] using h.symm
        | cons s p => simp at h
    · -- one level up: the climb continues from the parent of node `i`
      have hrec : ∀ p' r', climb f p' (i / 2) ((l.length - 1) / 2) r' = some (treeRoot f d l) →
          (∀ y ∈ climbPairs f p' (i / 2) ((l.length - 1) / 2) r',
            y ∈ climbPairs f p i (l.length - 1) r) →
          (pairUp f l)[i / 2]? = some r' ∧ p' = levelPath f (pairUp f l) (i / 2) := by
        intro p' r' hc hsub
        have hlast : (l.length - 1) / 2 = (pairUp f l).length - 1 := by omega
        refine ih (pairUp f l).length (by omega) (by omega) ?_
          (by rw [treeRoot_pairUp, ← hlast]; exact hc) rfl
        intro x hx y hy
        exact hinj x (treePairs_pairUp_subset l x hx) y (hsub y (hlast ▸ hy))
      rw [climb.eq_def, if_neg (by omega)] at h
      by_cases hodd : i % 2 = 1
      · rw [if_pos hodd] at h
        cases p with
        | nil => simp at h
        | cons s p =>
          have hpairs : climbPairs f (s :: p) i (l.length - 1) r
              = (s, r) :: climbPairs f p (i / 2) ((l.length - 1) / 2) (f s r) := by
            rw [climbPairs, if_neg (by omega), if_pos hodd]
          obtain ⟨hup, hp⟩ := hrec p (f s r) h
            (fun y hy => by rw [hpairs]; exact List.mem_cons_of_mem _ hy)
          have ha : l[2 * (i / 2)]? = some l[i - 1] := by
            rw [show 2 * (i / 2) = i - 1 by omega]; exact List.getElem?_eq_getElem (by omega)
          have hb : l[2 * (i / 2) + 1]? = some l[i] := by
            rw [show 2 * (i / 2) + 1 = i by omega]; exact List.getElem?_eq_getElem hi
          have hpar := getElem?_pairUp_pair (f := f) ha hb
          have heq := hinj _ (pair_mem_treePairs ha hb) (s, r)
            (by rw [hpairs]; exact List.mem_cons_self) (Option.some.inj (hpar.symm.trans hup))
          obtain ⟨hs, hr⟩ := Prod.mk.inj heq
          refine ⟨hr ▸ List.getElem?_eq_getElem hi, ?_⟩
          rw [levelPath_step hge, ← hp]
          simp [sibling?, hodd, List.getElem?_eq_getElem (show i - 1 < l.length by omega), hs]
      · rw [if_neg hodd] at h
        by_cases hlast : i = l.length - 1
        · rw [if_pos hlast] at h
          have hpairs : climbPairs f p i (l.length - 1) r
              = climbPairs f p (i / 2) ((l.length - 1) / 2) r := by
            rw [climbPairs.eq_def, if_neg (by omega), if_neg hodd, if_pos hlast]
          obtain ⟨hup, hp⟩ := hrec p r h (fun y hy => by rw [hpairs]; exact hy)
          have hself := getElem?_pairUp_last (f := f) (i := i / 2) (a := l[i])
            (by rw [show 2 * (i / 2) = i by omega]; exact List.getElem?_eq_getElem hi) (by omega)
          have hr : l[i] = r := Option.some.inj (hself.symm.trans hup)
          refine ⟨hr ▸ List.getElem?_eq_getElem hi, ?_⟩
          have hnone : sibling? l i = none := by
            simp only [sibling?, hodd, if_false]
            exact List.getElem?_eq_none (by omega)
          rw [levelPath_step hge, ← hp, hnone]; rfl
        · rw [if_neg hlast] at h
          cases p with
          | nil => simp at h
          | cons s p =>
            have hpairs : climbPairs f (s :: p) i (l.length - 1) r
                = (r, s) :: climbPairs f p (i / 2) ((l.length - 1) / 2) (f r s) := by
              rw [climbPairs, if_neg (by omega), if_neg hodd, if_neg hlast]
            obtain ⟨hup, hp⟩ := hrec p (f r s) h
              (fun y hy => by rw [hpairs]; exact List.mem_cons_of_mem _ hy)
            have ha : l[2 * (i / 2)]? = some l[i] := by
              rw [show 2 * (i / 2) = i by omega]; exact List.getElem?_eq_getElem hi
            have hb : l[2 * (i / 2) + 1]? = some l[i + 1] := by
              rw [show 2 * (i / 2) + 1 = i + 1 by omega]
              exact List.getElem?_eq_getElem (by omega)
            have hpar := getElem?_pairUp_pair (f := f) ha hb
            have heq := hinj _ (pair_mem_treePairs ha hb) (r, s)
              (by rw [hpairs]; exact List.mem_cons_self) (Option.some.inj (hpar.symm.trans hup))
            obtain ⟨hr, hs⟩ := Prod.mk.inj heq
            refine ⟨hr ▸ List.getElem?_eq_getElem hi, ?_⟩
            rw [levelPath_step hge, ← hp]
            simp [sibling?, hodd, List.getElem?_eq_getElem (show i + 1 < l.length by omega), hs]

end MerkleTree
