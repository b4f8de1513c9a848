import Mathlib

/-!
# `Lib.Distinct` — one element for each key

A list may hold several elements with one key. `firsts` keeps the first of each; a list with one element for each key is
a choice (`Choice`), and two choices whose elements agree key by key in what is asked of them hold the same, in some
order (`Choice.perm`).

Sums over the classes of a list add up to the sum over the list (`sum_classes`), and a
saturating sum is the sum or the largest number (`satAdd_min`).
-/

namespace Distinct

variable {α β κ γ : Type}

section

variable [DecidableEq κ]

/-- The elements with a new key. -/
def firsts (key : α → κ) : List κ → List α → List α
  | _, [] => []
  | seen, a :: as => if key a ∈ seen then firsts key seen as else a :: firsts key (key a :: seen) as

variable {key : α → κ}

theorem mem_of_mem_firsts {seen : List κ} {as : List α} {a : α} (h : a ∈ firsts key seen as) :
    a ∈ as ∧ key a ∉ seen := by
  induction as generalizing seen with
  | nil => cases h
  | cons b bs ih =>
      unfold firsts at h
      split at h
      · obtain ⟨hmem, hnew⟩ := ih h
        exact ⟨List.mem_cons_of_mem _ hmem, hnew⟩
      · rename_i hb
        rcases List.mem_cons.mp h with rfl | h
        · exact ⟨List.mem_cons_self, hb⟩
        · obtain ⟨hmem, hnew⟩ := ih h
          exact ⟨List.mem_cons_of_mem _ hmem, fun hseen => hnew (List.mem_cons_of_mem _ hseen)⟩

theorem nodup_firsts (key : α → κ) (seen : List κ) (as : List α) : ((firsts key seen as).map key).Nodup := by
  induction as generalizing seen with
  | nil => exact List.nodup_nil
  | cons a as ih =>
      unfold firsts
      split
      · exact ih seen
      · rw [List.map_cons, List.nodup_cons]
        refine ⟨?_, ih _⟩
        rintro hmem
        obtain ⟨b, hb, heq⟩ := List.mem_map.mp hmem
        exact (mem_of_mem_firsts hb).2 (heq ▸ List.mem_cons_self)

theorem exists_mem_firsts {seen : List κ} {as : List α} {a : α} (h : a ∈ as) (hnew : key a ∉ seen) :
    ∃ b ∈ firsts key seen as, key b = key a := by
  induction as generalizing seen with
  | nil => cases h
  | cons b bs ih =>
      unfold firsts
      split
      · rename_i hb
        rcases List.mem_cons.mp h with rfl | h
        · exact absurd hb hnew
        · exact ih h hnew
      · by_cases hkey : key a = key b
        · exact ⟨b, List.mem_cons_self, hkey.symm⟩
        · rcases List.mem_cons.mp h with rfl | h
          · exact absurd rfl hkey
          · have hnew' : key a ∉ key b :: seen := by
              simp only [List.mem_cons, not_or]
              exact ⟨hkey, hnew⟩
            obtain ⟨c, hc, heq⟩ := ih h hnew'
            exact ⟨c, List.mem_cons_of_mem _ hc, heq⟩

/-- One more element is kept when its key is new. -/
theorem firsts_concat (seen : List κ) (as : List α) (a : α) :
    firsts key seen (as ++ [a]) =
      firsts key seen as ++ if key a ∈ seen ∨ ∃ b ∈ firsts key seen as, key b = key a then [] else [a] := by
  induction as generalizing seen with
  | nil =>
      show firsts key seen [a] = [] ++ _
      unfold firsts
      by_cases hseen : key a ∈ seen
      · rw [if_pos hseen, if_pos (.inl hseen)]
        rfl
      · rw [if_neg hseen, if_neg]
        · rfl
        · rintro (h | ⟨b, hb, -⟩)
          · exact hseen h
          · cases hb
  | cons c as ih =>
      rw [List.cons_append]
      unfold firsts
      by_cases hc : key c ∈ seen
      · rw [if_pos hc, if_pos hc, ih]
      · rw [if_neg hc, if_neg hc, ih, List.cons_append]
        have hiff : (key a ∈ key c :: seen ∨ ∃ b ∈ firsts key (key c :: seen) as, key b = key a) ↔
            (key a ∈ seen ∨ ∃ b ∈ c :: firsts key (key c :: seen) as, key b = key a) := by
          simp only [List.mem_cons, exists_eq_or_imp]
          constructor
          · rintro ((h | h) | h)
            · exact .inr (.inl h.symm)
            · exact .inl h
            · exact .inr (.inr h)
          · rintro (h | h | h)
            · exact .inl (.inr h)
            · exact .inl (.inl h.symm)
            · exact .inr h
        simp only [hiff]

/-- Keys that differ are all kept. -/
theorem firsts_of_nodup {seen : List κ} {as : List α} (h : (as.map key).Nodup) (hnew : ∀ a ∈ as, key a ∉ seen) :
    firsts key seen as = as := by
  induction as generalizing seen with
  | nil => rfl
  | cons a as ih =>
      rw [List.map_cons, List.nodup_cons] at h
      rw [firsts, if_neg (hnew a List.mem_cons_self), ih h.2]
      intro b hb
      simp only [List.mem_cons, not_or]
      refine ⟨fun heq => h.1 ?_, hnew b (List.mem_cons_of_mem _ hb)⟩
      rw [← heq]
      exact List.mem_map_of_mem hb

end

/-! ## Choices -/

/-- One element of the list for each of its keys. -/
structure Choice (key : α → κ) (as ts : List α) : Prop where
  sub : ∀ t ∈ ts, t ∈ as
  nodup : (ts.map key).Nodup
  cover : ∀ a ∈ as, ∃ t ∈ ts, key t = key a

theorem choice_firsts [DecidableEq κ] (key : α → κ) (as : List α) : Choice key as (firsts key [] as) where
  sub _ h := (mem_of_mem_firsts h).1
  nodup := nodup_firsts key [] as
  cover _ h := exists_mem_firsts h List.not_mem_nil

variable {key : α → κ}

/-- Lists with the same keys, each once, that agree key by key hold the same. -/
theorem perm_of_keys {f : α → β} {ts us : List α} (ht : (ts.map key).Nodup) (hu : (us.map key).Nodup)
    (htu : ∀ t ∈ ts, ∃ u ∈ us, key u = key t) (hut : ∀ u ∈ us, ∃ t ∈ ts, key t = key u)
    (hf : ∀ t ∈ ts, ∀ u ∈ us, key t = key u → f t = f u) : (ts.map f).Perm (us.map f) := by
  have hpairs {as : List α} (has : (as.map key).Nodup) : (as.map fun a => (key a, f a)).Nodup := by
    have hfst : (as.map fun a => (key a, f a)).map Prod.fst = as.map key := by
      rw [List.map_map]
      rfl
    exact List.Nodup.of_map Prod.fst (hfst ▸ has)
  have hperm : (ts.map fun a => (key a, f a)).Perm (us.map fun a => (key a, f a)) := by
    rw [List.perm_ext_iff_of_nodup (hpairs ht) (hpairs hu)]
    intro p
    simp only [List.mem_map]
    constructor
    · rintro ⟨t, htmem, rfl⟩
      obtain ⟨u, humem, hkey⟩ := htu t htmem
      exact ⟨u, humem, by rw [hkey, hf t htmem u humem hkey.symm]⟩
    · rintro ⟨u, humem, rfl⟩
      obtain ⟨t, htmem, hkey⟩ := hut u humem
      exact ⟨t, htmem, by rw [hkey, hf t htmem u humem hkey]⟩
  have hmap := hperm.map Prod.snd
  rw [List.map_map, List.map_map] at hmap
  exact hmap

theorem Choice.length_eq [DecidableEq κ] {as ts : List α} (h : Choice key as ts) :
    ts.length = (as.map key).dedup.length := by
  have hperm : (ts.map key).Perm (as.map key).dedup := by
    rw [List.perm_ext_iff_of_nodup h.nodup (List.nodup_dedup _)]
    intro k
    rw [List.mem_dedup, List.mem_map, List.mem_map]
    constructor
    · rintro ⟨t, ht, rfl⟩
      exact ⟨t, h.sub t ht, rfl⟩
    · rintro ⟨a, ha, rfl⟩
      exact h.cover a ha
  rw [← hperm.length_eq, List.length_map]

/-! ## Sums -/

/-- The sums over classes, of which every element is in exactly one, add up. -/
theorem sum_classes (classes : Finset γ) (p : γ → α → Bool) (f : α → ℕ) (as : List α)
    (h : ∀ a ∈ as, ∃ c ∈ classes, p c a = true ∧ ∀ c' ∈ classes, p c' a = true → c' = c) :
    ∑ c ∈ classes, ((as.filter (p c)).map f).sum = (as.map f).sum := by
  induction as with
  | nil => simp
  | cons a as ih =>
      have hsplit (c : γ) : (((a :: as).filter (p c)).map f).sum =
          (if p c a = true then f a else 0) + ((as.filter (p c)).map f).sum := by
        rw [List.filter_cons]
        split
        · rw [List.map_cons, List.sum_cons]
        · rw [Nat.zero_add]
      obtain ⟨c, hc, hpc, honly⟩ := h a List.mem_cons_self
      have hone : ∑ c ∈ classes, (if p c a = true then f a else 0) = f a := by
        rw [Finset.sum_eq_single_of_mem c hc, if_pos hpc]
        intro c' hc' hne
        exact if_neg fun hp => hne (honly c' hc' hp)
      rw [Finset.sum_congr rfl fun c _ => hsplit c, Finset.sum_add_distrib, hone,
        ih fun b hb => h b (List.mem_cons_of_mem _ hb), List.map_cons, List.sum_cons]

/-- `saturating_add` in a type that ends at `max`. -/
def satAdd (max a b : ℕ) : ℕ := min (a + b) max

theorem satAdd_min (max n a : ℕ) : satAdd max (min n max) a = min (n + a) max := by
  unfold satAdd
  omega

/-- A table with one entry for each key is looked up by its entries. -/
theorem lookup_of_nodup [BEq κ] [LawfulBEq κ] {entries : List (κ × α)} (h : (entries.map Prod.fst).Nodup) {key : κ}
    {value : α} (he : (key, value) ∈ entries) : entries.lookup key = some value := by
  rw [List.lookup_eq_some_iff]
  obtain ⟨before, after, rfl⟩ := List.append_of_mem he
  refine ⟨before, after, rfl, ?_⟩
  intro e hmem
  rw [List.map_append, List.map_cons] at h
  have hne := (List.nodup_append.mp h).2.2 e.1 (List.mem_map.mpr ⟨e, hmem, rfl⟩) key List.mem_cons_self
  simpa using hne.symm

end Distinct
