import Mathlib.Data.List.Dedup
import Mathlib.Data.List.DropRight

/-!
# `Lib.Recency` — the last item under each key, and a table of the most recent

`recent key l` keeps of a list the last item under each key, in the order of the list. A table of bounded size that
replaces the item under a key and drops the oldest holds the end of that list (`foldl_touch`), so an item is still in it
exactly when fewer keys came after it than the table holds (`mem_table_iff`).
-/

namespace Recency

variable {α κ : Type} [DecidableEq κ] (key : α → κ)

/-- The items without those under the key of `x`, and then `x`. -/
def replace (items : List α) (x : α) : List α := items.filter (fun y => key y ≠ key x) ++ [x]

/-- The last item under each key. -/
def recent (l : List α) : List α := l.foldl (replace key) []

/-- One more item in a table of at most `cap`. -/
def touch (cap : ℕ) (table : List α) (x : α) : List α := (replace key table x).rtake cap

variable {key}

@[simp] theorem recent_nil : recent key [] = [] := rfl

@[simp] theorem recent_concat (l : List α) (x : α) : recent key (l ++ [x]) = replace key (recent key l) x := by
  unfold recent
  rw [List.foldl_append]
  rfl

theorem recent_append (l m : List α) :
    recent key (l ++ m) = (recent key l).filter (fun y => key y ∉ m.map key) ++ recent key m := by
  induction m using List.reverseRecOn with
  | nil => simp
  | append_singleton m x ih =>
      rw [← List.append_assoc, recent_concat, recent_concat, ih]
      unfold replace
      rw [List.filter_append, List.filter_filter, List.append_assoc]
      congr 1
      apply List.filter_congr
      intro y _
      simp only [List.map_append, List.map_singleton, List.mem_append, List.mem_singleton, not_or, Bool.decide_and,
        Bool.and_comm, ne_eq]

theorem recent_sublist (l : List α) : (recent key l).Sublist l := by
  induction l using List.reverseRecOn with
  | nil => exact .slnil
  | append_singleton l x ih =>
      rw [recent_concat]
      exact (List.filter_sublist.trans ih).append (.refl _)

theorem mem_keys_recent {l : List α} {k : κ} : k ∈ (recent key l).map key ↔ k ∈ l.map key := by
  induction l using List.reverseRecOn with
  | nil => simp
  | append_singleton l x ih =>
      rw [recent_concat]
      unfold replace
      rw [List.map_append, List.map_append, List.mem_append, List.mem_append, ← ih]
      by_cases hk : k = key x
      · simp [hk]
      · simp only [List.map_cons, List.map_nil, List.mem_singleton, hk, or_false, List.mem_map, List.mem_filter]
        constructor
        · rintro ⟨y, ⟨hy, -⟩, rfl⟩
          exact ⟨y, hy, rfl⟩
        · rintro ⟨y, hy, rfl⟩
          exact ⟨y, ⟨hy, by simpa using hk⟩, rfl⟩

theorem nodup_keys_recent (l : List α) : ((recent key l).map key).Nodup := by
  induction l using List.reverseRecOn with
  | nil => simp
  | append_singleton l x ih =>
      rw [recent_concat]
      unfold replace
      rw [List.map_append, List.nodup_append]
      refine ⟨ih.sublist ((List.filter_sublist).map key), by simp, ?_⟩
      rintro k hk k' hk' rfl
      obtain ⟨y, hy, rfl⟩ := List.mem_map.mp hk
      have hne := (List.mem_filter.mp hy).2
      simp only [List.map_cons, List.map_nil, List.mem_singleton] at hk'
      simp [hk'] at hne

/-- There are as many as there are keys. -/
theorem length_recent (l : List α) : (recent key l).length = ((l.map key).dedup).length := by
  rw [← List.length_map (f := key)]
  apply List.Perm.length_eq
  rw [List.perm_ext_iff_of_nodup (nodup_keys_recent l) (List.nodup_dedup _)]
  intro k
  rw [mem_keys_recent, List.mem_dedup]

/-! ## The table -/

theorem rtake_concat (n : ℕ) (l : List α) (x : α) : (l ++ [x]).rtake (n + 1) = l.rtake n ++ [x] := by
  rw [List.rtake_concat_succ]

/-- Taking out one key leaves all but one. -/
theorem length_le_filter {items : List α} (h : (items.map key).Nodup) (k : κ) :
    items.length ≤ (items.filter fun y => key y ≠ k).length + 1 := by
  induction items with
  | nil => simp
  | cons y items ih =>
      obtain ⟨hnew, hrest⟩ := List.nodup_cons.mp h
      have ih := ih hrest
      by_cases hy : key y = k
      · -- no other item is under the key
        have hall : items.filter (fun z => key z ≠ k) = items := by
          rw [List.filter_eq_self]
          intro z hz
          have hz : key z ≠ k := fun hz' => hnew (List.mem_map.mpr ⟨z, hz, hz'.trans hy.symm⟩)
          simpa using hz
        rw [List.filter_cons_of_neg (by simp [hy]), hall, List.length_cons]
      · rw [List.filter_cons_of_pos (by simp [hy]), List.length_cons, List.length_cons]
        omega

/-- Replacing in the end of a list gives the end of the list where it was replaced. -/
theorem touch_rtake {items : List α} (h : (items.map key).Nodup) (n : ℕ) (x : α) :
    touch key (n + 1) (items.rtake (n + 1)) x = (replace key items x).rtake (n + 1) := by
  unfold touch replace
  rw [rtake_concat, rtake_concat]
  congr 1
  unfold List.rtake
  by_cases hshort : items.length ≤ n + 1
  · rw [Nat.sub_eq_zero_of_le hshort, List.drop_zero]
  · have hsplit := congrArg (List.filter fun y => key y ≠ key x) (List.take_append_drop (items.length - (n + 1)) items)
    rw [List.filter_append] at hsplit
    have hnodup : ((items.drop (items.length - (n + 1))).map key).Nodup :=
      h.sublist ((List.drop_sublist _ _).map key)
    have hlong := length_le_filter hnodup (key x)
    rw [List.length_drop] at hlong
    generalize items.drop (items.length - (n + 1)) = last at *
    generalize (items.take (items.length - (n + 1))).filter (fun y => key y ≠ key x) = first at *
    have hfirst : first.drop ((first.length + (last.filter fun y => key y ≠ key x).length) - n) = [] :=
      List.drop_eq_nil_of_le (by omega)
    rw [← hsplit, List.length_append, List.drop_append, hfirst,
      List.nil_append]
    congr 1
    omega

/-- **The table** holds the end of the list of the last items. -/
theorem foldl_touch (n : ℕ) (l : List α) : l.foldl (touch key (n + 1)) [] = (recent key l).rtake (n + 1) := by
  induction l using List.reverseRecOn with
  | nil => simp
  | append_singleton l x ih =>
      rw [List.foldl_append, List.foldl_cons, List.foldl_nil, ih, touch_rtake (nodup_keys_recent l), recent_concat]

/-- The last item under its key is kept. -/
theorem mem_recent {before after : List α} {x : α} (hlast : key x ∉ after.map key) :
    x ∈ recent key (before ++ x :: after) := by
  rw [← List.singleton_append, ← List.append_assoc, recent_append, recent_concat, List.mem_append, List.mem_filter]
  refine .inl ⟨List.mem_append_right _ (List.mem_singleton_self x), ?_⟩
  simpa using hlast

/-- **What is still in the table**: of the last item under a key, fewer keys came after it than the table holds. -/
theorem mem_table_iff {n : ℕ} {before after : List α} {x : α} (hlast : key x ∉ after.map key) :
    x ∈ (before ++ x :: after).foldl (touch key (n + 1)) [] ↔ (after.map key).dedup.length < n + 1 := by
  have hsplit : recent key (before ++ x :: after) =
      (recent key before).filter (fun y => key y ∉ (x :: after).map key) ++ x :: recent key after := by
    rw [recent_append, ← List.singleton_append, recent_append]
    have hone : recent key [x] = [x] := by simp [recent, replace]
    have hkeep : [x].filter (fun y => key y ∉ after.map key) = [x] := by
      rw [List.filter_eq_self]
      intro y hy
      rw [List.mem_singleton.mp hy]
      simpa using hlast
    rw [hone, hkeep]
    rfl
  have hafter : x ∉ recent key after := fun hmem => hlast (mem_keys_recent.mp (List.mem_map_of_mem hmem))
  rw [foldl_touch, hsplit, ← length_recent]
  generalize (recent key before).filter _ = first
  generalize recent key after = last at hafter ⊢
  unfold List.rtake
  rw [List.length_append, List.length_cons]
  constructor
  · intro hmem
    by_contra hfull
    apply hafter
    have hdrop : (first ++ x :: last).drop (first.length + (last.length + 1) - (n + 1)) =
        last.drop (last.length - (n + 1)) := by
      have hindex : first.length + (last.length + 1) - (n + 1) = (first ++ [x]).length + (last.length - (n + 1)) := by
        rw [List.length_append, List.length_singleton]
        omega
      have hcons : first ++ x :: last = (first ++ [x]) ++ last := by simp
      rw [hindex, hcons, List.drop_length_add_append]
    rw [hdrop] at hmem
    exact List.mem_of_mem_drop hmem
  · intro hroom
    rw [List.drop_append, List.mem_append]
    refine .inr ?_
    rw [show first.length + (last.length + 1) - (n + 1) - first.length = 0 by omega, List.drop_zero]
    exact List.mem_cons_self ..

end Recency
