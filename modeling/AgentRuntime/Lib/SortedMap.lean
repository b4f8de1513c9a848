import Mathlib.Order.Defs.LinearOrder
import Mathlib.Data.List.Sort

/-!
# `Lib.SortedMap` — maps as lists of entries in the order of their keys

What an ordered map of a standard library holds: the entries, strictly ascending by their keys. `insert` replaces the
value of a key that is there; two maps with the same entries in any order are the same (`eq_of_perm`).
-/

namespace SortedMap

variable {κ α : Type} [LinearOrder κ]

def insert (key : κ) (v : α) : List (κ × α) → List (κ × α)
  | [] => [(key, v)]
  | (k, w) :: entries =>
      if key < k then (key, v) :: (k, w) :: entries
      else if key = k then (key, v) :: entries
      else (k, w) :: insert key v entries

def ofEntries (entries : List (κ × α)) : List (κ × α) := entries.foldl (fun done e => insert e.1 e.2 done) []

/-- The keys ascend strictly. -/
def Ascending (entries : List (κ × α)) : Prop := entries.Pairwise fun e f => e.1 < f.1

theorem mem_insert {key : κ} {v : α} {entries : List (κ × α)} {e : κ × α} (h : e ∈ insert key v entries) :
    e = (key, v) ∨ e ∈ entries := by
  induction entries with
  | nil => exact .inl (List.mem_singleton.mp h)
  | cons first entries ih =>
      unfold insert at h
      split at h
      · exact List.mem_cons.mp h
      · split at h
        · rcases List.mem_cons.mp h with h | h
          · exact .inl h
          · exact .inr (List.mem_cons_of_mem _ h)
        · rcases List.mem_cons.mp h with h | h
          · exact .inr (h ▸ List.mem_cons_self ..)
          · rcases ih h with h | h
            · exact .inl h
            · exact .inr (List.mem_cons_of_mem _ h)

theorem lookup_cons [BEq κ] [LawfulBEq κ] (e : κ × α) (k : κ) (entries : List (κ × α)) :
    (e :: entries).lookup k = if k = e.1 then some e.2 else entries.lookup k := by
  rw [List.lookup_cons]
  by_cases hk : k = e.1
  · rw [if_pos hk, beq_iff_eq.mpr hk]
  · rw [if_neg hk, beq_eq_false_iff_ne.mpr hk]

/-- A map holds what was put under a key last. -/
theorem lookup_insert [BEq κ] [LawfulBEq κ] (key k : κ) (v : α) (entries : List (κ × α)) :
    (insert key v entries).lookup k = if k = key then some v else entries.lookup k := by
  induction entries with
  | nil => exact lookup_cons (key, v) k []
  | cons e entries ih =>
      unfold insert
      split
      · exact lookup_cons (key, v) k (e :: entries)
      · split
        · rename_i hkey
          rw [lookup_cons, lookup_cons, hkey]
          split
          · rfl
          · rfl
        · rename_i hne
          rw [lookup_cons, lookup_cons, ih]
          by_cases hk : k = e.1
          · subst hk
            rw [if_pos rfl, if_pos rfl, if_neg (Ne.symm hne)]
          · rw [if_neg hk, if_neg hk]

theorem Ascending.insert {entries : List (κ × α)} (h : Ascending entries) (key : κ) (v : α) :
    Ascending (insert key v entries) := by
  induction entries with
  | nil => exact List.pairwise_singleton _ _
  | cons first entries ih =>
      obtain ⟨hfirst, hrest⟩ := List.pairwise_cons.mp h
      unfold SortedMap.insert
      split
      · rename_i hlt
        refine List.pairwise_cons.mpr ⟨?_, h⟩
        intro e he
        rcases List.mem_cons.mp he with rfl | he
        · exact hlt
        · exact hlt.trans (hfirst e he)
      · split
        · rename_i hkey
          subst hkey
          exact List.pairwise_cons.mpr ⟨hfirst, hrest⟩
        · rename_i hnot hne
          refine List.pairwise_cons.mpr ⟨?_, ih hrest⟩
          intro e he
          rcases mem_insert he with rfl | he
          · exact lt_of_le_of_ne (not_lt.mp hnot) (Ne.symm hne)
          · exact hfirst e he

theorem ascending_ofEntries (entries : List (κ × α)) : Ascending (ofEntries entries) := by
  unfold ofEntries
  have hfold : ∀ done : List (κ × α), Ascending done →
      Ascending (entries.foldl (fun done e => SortedMap.insert e.1 e.2 done) done) := by
    induction entries with
    | nil => exact fun done hdone => hdone
    | cons e entries ih => exact fun done hdone => ih _ (hdone.insert e.1 e.2)
  exact hfold [] List.Pairwise.nil

/-- No key is there twice. -/
theorem Ascending.nodup_keys {entries : List (κ × α)} (h : Ascending entries) : (entries.map Prod.fst).Nodup := by
  rw [List.Nodup, List.pairwise_map]
  exact h.imp fun hlt => ne_of_lt hlt

/-- **A map is its entries.** -/
theorem eq_of_perm {l m : List (κ × α)} (hl : Ascending l) (hm : Ascending m) (h : l.Perm m) : l = m := by
  apply h.eq_of_pairwise _ hl hm
  intro e f _ _ hlt hgt
  exact absurd hlt (lt_asymm hgt)

end SortedMap
