import AgentRuntime.Metering.ChainReceipts

/-!
# `Metering.ChainSpend` — each transaction is counted once

The summaries of all days are to count every transaction once, whatever reports of it are there. They drop the second
report of a hash on a day, and no other: so they do exactly when the reports of a transaction are of one day and agree
(`Consistent`). One direction compares the first reports of a day with any choice of reports; the other compares two
choices that differ in one report (`swap`).
-/

namespace AgentRuntime.Metering

open Distinct

/-! ## The property -/

/-- Every day on which a receipt was read is among these days, each once. -/
structure AllDays (receipts : List ChainReceipt) (days : Finset String) : Prop where
  valid : ∀ day ∈ days, ∃ n, IsDay day n
  covers : ∀ r ∈ receipts, ∀ day n, IsDay day n → onDay n r = true → day ∈ days

/-- What the summary of a day says, as a number. -/
def onSummary (f : ChainSpendSummary → ℕ) (receipts : List ChainReceipt) (day : String) : ℕ :=
  match build day receipts with
  | .ok s => f s
  | .error _ => 0

/-- No sum over one report for each transaction saturates. -/
def Below (receipts : List ChainReceipt) : Prop :=
  ∀ ts, Choice ChainReceipt.key receipts ts → ts.length ≤ u32Max ∧ (ts.map ChainReceipt.gasUsed).sum ≤ u64Max ∧
    (ts.map ChainReceipt.feeWei).sum ≤ u128Max ∧ (ts.map ChainReceipt.valueSpentWei).sum ≤ u128Max

/-- **Each transaction is counted once.** -/
structure CountedOnce (receipts : List ChainReceipt) : Prop where
  /-- Neither the order of the reports matters, nor how many there are of a transaction. -/
  reports : ∀ receipts', (∀ r ∈ receipts', r ∈ receipts) → (∀ r ∈ receipts, ∃ s ∈ receipts', s.key = r.key) →
    ∀ day, build day receipts' = build day receipts
  transactions : Below receipts → ∀ days, AllDays receipts days →
    ∑ day ∈ days, onSummary ChainSpendSummary.transactions receipts day = (receipts.map ChainReceipt.key).dedup.length
  fees : Below receipts → ∀ days ts, AllDays receipts days → Choice ChainReceipt.key receipts ts →
    ∑ day ∈ days, onSummary (fun s => (wei s.feeWei).getD 0) receipts day = (ts.map ChainReceipt.feeWei).sum
  values : Below receipts → ∀ days ts, AllDays receipts days → Choice ChainReceipt.key receipts ts →
    ∑ day ∈ days, onSummary (fun s => (wei s.valueWei).getD 0) receipts day = (ts.map ChainReceipt.valueSpentWei).sum

/-- The reports of a transaction are of one day before the year 10000, and agree. -/
structure Consistent (receipts : List ChainReceipt) : Prop where
  early : ∀ r ∈ receipts, r.minedUnixMs < 253402300800000
  sameDay : ∀ r ∈ receipts, ∀ s ∈ receipts, r.key = s.key → r.minedUnixMs / dayMs = s.minedUnixMs / dayMs
  agree : ∀ r ∈ receipts, ∀ s ∈ receipts, r.key = s.key → r.facts = s.facts

/-! ## A choice of reports -/

section

variable {receipts ts : List ChainReceipt}

theorem onDay_eq {n : ℕ} {r : ChainReceipt} : onDay n r = true ↔ r.minedUnixMs / dayMs = n := by
  rw [onDay, decide_eq_true_eq]

/-- Each choice has the keys of the list on every day, and the facts. -/
theorem Consistent.perm (h : Consistent receipts) {receipts' : List ChainReceipt} (hsub : ∀ r ∈ receipts', r ∈ receipts)
    (hcover : ∀ r ∈ receipts, ∃ s ∈ receipts', s.key = r.key) (n : ℕ) :
    ((firsts ChainReceipt.key [] (receipts'.filter (onDay n))).map ChainReceipt.facts).Perm
      ((firsts ChainReceipt.key [] (receipts.filter (onDay n))).map ChainReceipt.facts) := by
  have hmem {as : List ChainReceipt} {r : ChainReceipt} (hr : r ∈ firsts ChainReceipt.key [] (as.filter (onDay n))) :
      r ∈ as ∧ onDay n r = true := List.mem_filter.mp (mem_of_mem_firsts hr).1
  apply perm_of_keys (nodup_firsts _ _ _) (nodup_firsts _ _ _)
  · intro r hr
    obtain ⟨hr, hon⟩ := hmem hr
    exact exists_mem_firsts (List.mem_filter.mpr ⟨hsub r hr, hon⟩) List.not_mem_nil
  · intro r hr
    obtain ⟨hr, hon⟩ := hmem hr
    obtain ⟨s, hs, hkey⟩ := hcover r hr
    have hday : onDay n s = true := by
      rw [onDay_eq] at hon ⊢
      rw [h.sameDay s (hsub s hs) r hr hkey, hon]
    obtain ⟨t, ht, hkey'⟩ : ∃ t ∈ firsts ChainReceipt.key [] (receipts'.filter (onDay n)), t.key = s.key :=
      exists_mem_firsts (List.mem_filter.mpr ⟨hs, hday⟩) List.not_mem_nil
    exact ⟨t, ht, hkey'.trans hkey⟩
  · intro r hr s hs hkey
    exact h.agree r (hsub r (hmem hr).1) s (hmem hs).1 hkey

theorem Consistent.reports (h : Consistent receipts) (hvalid : ∀ r ∈ receipts, r.validate = .ok ())
    {receipts' : List ChainReceipt} (hsub : ∀ r ∈ receipts', r ∈ receipts)
    (hcover : ∀ r ∈ receipts, ∃ s ∈ receipts', s.key = r.key) (day : String) :
    build day receipts' = build day receipts := by
  cases hbounds : utcDayBoundsMs day with
  | error e => rw [build_error hbounds, build_error hbounds]
  | ok b =>
      obtain ⟨n, hday⟩ := exists_isDay hbounds
      rw [build_ok hday hvalid, build_ok hday fun r hr => hvalid r (hsub r hr), summaryOf_perm (h.perm hsub hcover n)]

/-- The summary of a day, of one report for each transaction. -/
theorem build_choice {day : String} {n : ℕ} (hday : IsDay day n)
    (hvalid : ∀ r ∈ ts, r.validate = .ok ()) (hnodup : (ts.map ChainReceipt.key).Nodup) :
    build day ts = .ok (summaryOf day ((ts.filter (onDay n)).map ChainReceipt.facts)) := by
  have hfirsts : firsts ChainReceipt.key [] (ts.filter (onDay n)) = ts.filter (onDay n) :=
    firsts_of_nodup (hnodup.sublist (List.filter_sublist.map _)) fun _ _ => List.not_mem_nil
  rw [build_ok hday hvalid, hfirsts]

/-- What is summed over all days is summed over the choice, when every report has a day. -/
theorem sum_days {days : Finset String} (hdays : AllDays receipts days) (hsub : ∀ t ∈ ts, t ∈ receipts)
    (hall : ∀ t ∈ ts, ∃ day n, IsDay day n ∧ onDay n t = true) (number : String → ℕ)
    (hnumber : ∀ day ∈ days, IsDay day (number day)) (f : ChainReceipt → ℕ) :
    ∑ day ∈ days, ((ts.filter (onDay (number day))).map f).sum = (ts.map f).sum := by
  apply sum_classes
  intro t ht
  obtain ⟨day, n, hday, hon⟩ := hall t ht
  have hmem := hdays.covers t (hsub t ht) day n hday hon
  have hn : number day = n := by
    have hsame := (hnumber day hmem).symm.trans hday
    have hstart := congrArg Prod.fst (Except.ok.inj hsame)
    exact Nat.eq_of_mul_eq_mul_right (by decide) hstart
  refine ⟨day, hmem, by rw [hn]; exact hon, ?_⟩
  intro day' hmem' hon'
  rw [onDay_eq] at hon hon'
  have hday' := hnumber day' hmem'
  rw [← hon', hon] at hday'
  exact hday'.inj hday

/-- The sums of a choice do not saturate. -/
structure Fits (ts : List ChainReceipt) : Prop where
  length : ts.length ≤ u32Max
  gas : (ts.map ChainReceipt.gasUsed).sum ≤ u64Max
  fee : (ts.map ChainReceipt.feeWei).sum ≤ u128Max
  value : (ts.map ChainReceipt.valueSpentWei).sum ≤ u128Max

theorem Fits.sublist {us : List ChainReceipt} (h : Fits ts) (hsub : us.Sublist ts) : Fits us := by
  have hsum (f : ChainReceipt → ℕ) : (us.map f).sum ≤ (ts.map f).sum :=
    (hsub.map f).sum_le_sum fun _ _ => Nat.zero_le _
  exact ⟨hsub.length_le.trans h.length, (hsum _).trans h.gas, (hsum _).trans h.fee, (hsum _).trans h.value⟩

/-- The unsaturated summary of the facts. -/
theorem Fits.summaryOf (h : Fits ts) (day : String) :
    (summaryOf day (ts.map ChainReceipt.facts)).transactions = ts.length ∧
      (summaryOf day (ts.map ChainReceipt.facts)).reverted = ts.countP (fun t => t.facts.reverted) ∧
      (summaryOf day (ts.map ChainReceipt.facts)).gasUsed = (ts.map ChainReceipt.gasUsed).sum ∧
      wei (summaryOf day (ts.map ChainReceipt.facts)).feeWei = some (ts.map ChainReceipt.feeWei).sum ∧
      wei (summaryOf day (ts.map ChainReceipt.facts)).valueWei = some (ts.map ChainReceipt.valueSpentWei).sum := by
  have hmap (f : Facts → ℕ) : ((ts.map ChainReceipt.facts).map f).sum = (ts.map fun t => f t.facts).sum := by
    rw [List.map_map]
    rfl
  have hcount : (ts.map ChainReceipt.facts).countP Facts.reverted = ts.countP fun t => t.facts.reverted := by
    rw [List.countP_map]
    rfl
  refine ⟨?_, ?_, ?_, ?_, ?_⟩
  · show min (ts.map ChainReceipt.facts).length u32Max = ts.length
    rw [List.length_map, min_eq_left h.length]
  · show min ((ts.map ChainReceipt.facts).countP Facts.reverted) u32Max = _
    rw [hcount, min_eq_left (List.countP_le_length.trans h.length)]
  · show min ((ts.map ChainReceipt.facts).map Facts.gasUsed).sum u64Max = _
    rw [hmap]
    exact min_eq_left h.gas
  · show wei (toString (min ((ts.map ChainReceipt.facts).map Facts.fee).sum u128Max)) = _
    rw [hmap, wei_toString (min_le_right _ _)]
    exact congrArg some (min_eq_left h.fee)
  · show wei (toString (min ((ts.map ChainReceipt.facts).map Facts.value).sum u128Max)) = _
    rw [hmap, wei_toString (min_le_right _ _)]
    exact congrArg some (min_eq_left h.value)

theorem Below.fits (h : Below receipts) (hchoice : Choice ChainReceipt.key receipts ts) : Fits ts := by
  obtain ⟨hlen, hgas, hfee, hvalue⟩ := h ts hchoice
  exact ⟨hlen, hgas, hfee, hvalue⟩

/-! ## Consistent reports -/

theorem exists_numbers {days : Finset String} (h : AllDays receipts days) :
    ∃ number : String → ℕ, ∀ day ∈ days, IsDay day (number day) := by
  classical
  refine ⟨fun day => if hday : ∃ n, IsDay day n then hday.choose else 0, ?_⟩
  intro day hmem
  have hday := h.valid day hmem
  simp only [dif_pos hday]
  exact hday.choose_spec

theorem Consistent.hasDay (h : Consistent receipts) {r : ChainReceipt} (hr : r ∈ receipts) :
    ∃ day n, IsDay day n ∧ onDay n r = true := by
  have hearly := h.early r hr
  obtain ⟨day, hday⟩ : ∃ day, IsDay day (r.minedUnixMs / dayMs) := exists_day (by unfold dayMs; omega)
  exact ⟨day, _, hday, onDay_eq.mpr rfl⟩

/-- A number of the summaries, summed over all days, is the sum over a choice. -/
theorem Consistent.sum_eq (h : Consistent receipts) (hvalid : ∀ r ∈ receipts, r.validate = .ok ())
    (hchoice : Choice ChainReceipt.key receipts ts) {days : Finset String} (hdays : AllDays receipts days)
    {g : ChainSpendSummary → ℕ} {f : ChainReceipt → ℕ}
    (hg : ∀ us : List ChainReceipt, us.Sublist ts → ∀ day, g (summaryOf day (us.map ChainReceipt.facts)) = (us.map f).sum) :
    ∑ day ∈ days, onSummary g receipts day = (ts.map f).sum := by
  obtain ⟨number, hnumber⟩ := exists_numbers hdays
  have hone : ∀ day ∈ days, onSummary g receipts day = ((ts.filter (onDay (number day))).map f).sum := by
    intro day hmem
    have hbuild : build day ts = build day receipts := h.reports hvalid hchoice.sub hchoice.cover day
    rw [onSummary, ← hbuild, build_choice (hnumber day hmem) (fun t ht => hvalid t (hchoice.sub t ht)) hchoice.nodup]
    exact hg _ List.filter_sublist day
  rw [Finset.sum_congr rfl hone]
  exact sum_days hdays hchoice.sub (fun t ht => h.hasDay (hchoice.sub t ht)) number hnumber f

theorem Consistent.countedOnce (h : Consistent receipts) (hvalid : ∀ r ∈ receipts, r.validate = .ok ()) :
    CountedOnce receipts where
  reports _ hsub hcover day := h.reports hvalid hsub hcover day
  transactions hbelow days hdays := by
    have hchoice := choice_firsts ChainReceipt.key receipts
    have hfits := hbelow.fits hchoice
    have hsum : ∑ day ∈ days, onSummary ChainSpendSummary.transactions receipts day =
        ((firsts ChainReceipt.key [] receipts).map fun _ => 1).sum :=
      h.sum_eq hvalid hchoice hdays fun us hus day => by simp [((hfits.sublist hus).summaryOf day).1]
    rw [hsum, ← hchoice.length_eq]
    simp
  fees hbelow days us hdays hchoice := by
    have hfits := hbelow.fits hchoice
    exact h.sum_eq hvalid hchoice hdays fun vs hvs day => by
      simp [((hfits.sublist hvs).summaryOf day).2.2.2.1]
  values hbelow days us hdays hchoice := by
    have hfits := hbelow.fits hchoice
    exact h.sum_eq hvalid hchoice hdays fun vs hvs day => by
      simp [((hfits.sublist hvs).summaryOf day).2.2.2.2]

/-! ## Counted transactions -/

theorem exists_allDays (receipts : List ChainReceipt) : ∃ days, AllDays receipts days := by
  classical
  have hone (r : ChainReceipt) : ∃ days : Finset String, (∀ day ∈ days, ∃ n, IsDay day n) ∧
      ∀ day n, IsDay day n → onDay n r = true → day ∈ days := by
    by_cases h : ∃ day n, IsDay day n ∧ onDay n r = true
    · obtain ⟨day, n, hday, hon⟩ := h
      refine ⟨{day}, ?_, ?_⟩
      · intro d hd
        rw [Finset.mem_singleton.mp hd]
        exact ⟨n, hday⟩
      · intro d m hd hond
        rw [onDay_eq] at hon hond
        rw [← hond, hon] at hd
        rw [hd.inj hday]
        exact Finset.mem_singleton_self day
    · exact ⟨∅, by simp, fun day n hday hon => absurd ⟨day, n, hday, hon⟩ h⟩
  induction receipts with
  | nil => exact ⟨∅, by simp, by simp⟩
  | cons r rs ih =>
      obtain ⟨days, hdays⟩ := ih
      obtain ⟨more, hvalid, hcovers⟩ := hone r
      refine ⟨more ∪ days, ?_, ?_⟩
      · intro day hday
        rcases Finset.mem_union.mp hday with hday | hday
        · exact hvalid day hday
        · exact hdays.valid day hday
      · intro s hs day n hday hon
        rcases List.mem_cons.mp hs with rfl | hs
        · exact Finset.mem_union_left _ (hcovers day n hday hon)
        · exact Finset.mem_union_right _ (hdays.covers s hs day n hday hon)

/-- This report, and reports of the other transactions. -/
theorem choice_cons_firsts {r s : ChainReceipt} (hs : s ∈ receipts) (hkey : s.key = r.key) :
    Choice ChainReceipt.key receipts (s :: firsts ChainReceipt.key [r.key] receipts) where
  sub t ht := by
    rcases List.mem_cons.mp ht with rfl | ht
    · exact hs
    · exact (mem_of_mem_firsts ht).1
  nodup := by
    rw [List.map_cons, List.nodup_cons, hkey]
    refine ⟨?_, nodup_firsts _ _ _⟩
    intro hmem
    obtain ⟨t, ht, heq⟩ := List.mem_map.mp hmem
    exact (mem_of_mem_firsts ht).2 (heq ▸ List.mem_singleton_self _)
  cover t ht := by
    by_cases heq : t.key = r.key
    · exact ⟨s, List.mem_cons_self, hkey.trans heq.symm⟩
    · obtain ⟨u, hu, hkey'⟩ : ∃ u ∈ firsts ChainReceipt.key [r.key] receipts, u.key = t.key :=
        exists_mem_firsts ht (by simpa using heq)
      exact ⟨u, List.mem_cons_of_mem _ hu, hkey'⟩

/-- A counted list has the summaries of any of its choices. -/
theorem CountedOnce.build_choice (h : CountedOnce receipts) (hvalid : ∀ r ∈ receipts, r.validate = .ok ())
    (hchoice : Choice ChainReceipt.key receipts ts) {day : String} {n : ℕ} (hday : IsDay day n) :
    build day receipts = .ok (summaryOf day ((ts.filter (onDay n)).map ChainReceipt.facts)) := by
  rw [← h.reports ts hchoice.sub hchoice.cover day]
  exact Metering.build_choice hday (fun t ht => hvalid t (hchoice.sub t ht)) hchoice.nodup

/-- Every report of a counted list has a day. -/
theorem CountedOnce.hasDay (h : CountedOnce receipts) (hvalid : ∀ r ∈ receipts, r.validate = .ok ())
    (hbelow : Below receipts) {r : ChainReceipt} (hr : r ∈ receipts) : ∃ day n, IsDay day n ∧ onDay n r = true := by
  classical
  by_contra hnone
  obtain ⟨days, hdays⟩ := exists_allDays receipts
  obtain ⟨number, hnumber⟩ := exists_numbers hdays
  have hchoice := choice_cons_firsts hr rfl
  have hfits := hbelow.fits hchoice
  obtain ⟨rest, hrest⟩ : ∃ rest, rest = firsts ChainReceipt.key [r.key] receipts := ⟨_, rfl⟩
  rw [← hrest] at hchoice hfits
  -- the report is on no day, so no summary counts its transaction
  let found := rest.filter fun t => ∃ day n, IsDay day n ∧ onDay n t = true
  have hone : ∀ day ∈ days, onSummary ChainSpendSummary.transactions receipts day =
      ((found.filter (onDay (number day))).map fun _ => 1).sum := by
    intro day hmem
    have hskip : (r :: rest).filter (onDay (number day)) = found.filter (onDay (number day)) := by
      have hnot : onDay (number day) r ≠ true := fun hon => hnone ⟨day, _, hnumber day hmem, hon⟩
      rw [List.filter_cons_of_neg hnot, List.filter_filter]
      apply List.filter_congr
      intro t _
      cases hon : onDay (number day) t with
      | false => rfl
      | true => simpa using ⟨day, number day, hnumber day hmem, hon⟩
    rw [onSummary, h.build_choice hvalid hchoice (hnumber day hmem), hskip]
    have hsub : (found.filter (onDay (number day))).Sublist (r :: rest) :=
      (List.filter_sublist.trans List.filter_sublist).trans (List.sublist_cons_self _ _)
    simpa using ((hfits.sublist hsub).summaryOf day).1
  have hfound : ∑ day ∈ days, ((found.filter (onDay (number day))).map fun _ => 1).sum = (found.map fun _ => 1).sum := by
    refine sum_days hdays (fun t ht => ?_) (fun t ht => ?_) number hnumber _
    · exact hchoice.sub t (List.mem_cons_of_mem _ (List.mem_filter.mp ht).1)
    · simpa using (List.mem_filter.mp ht).2
  have htotal := h.transactions hbelow days hdays
  rw [Finset.sum_congr rfl hone, hfound, ← hchoice.length_eq, List.length_cons] at htotal
  have hle : found.length ≤ rest.length := List.length_filter_le _ _
  simp only [List.map_const', List.sum_replicate, smul_eq_mul, mul_one] at htotal
  omega

theorem purposeKey_injective : Function.Injective purposeKey := by
  intro p q h
  cases p
  all_goals
    cases q
    all_goals first | rfl | exact absurd h (by decide)

/-- Facts that leave the unsaturated summary as it is are the same facts. -/
theorem facts_eq_of_summaryOf {r s : ChainReceipt} {rest : List ChainReceipt} {day : String} (hr : Fits (r :: rest))
    (hs : Fits (s :: rest))
    (h : summaryOf day ((r :: rest).map ChainReceipt.facts) = summaryOf day ((s :: rest).map ChainReceipt.facts)) :
    r.facts = s.facts := by
  obtain ⟨-, hreverted, hgas, hfee, hvalue⟩ := hr.summaryOf day
  obtain ⟨-, hreverted', hgas', hfee', hvalue'⟩ := hs.summaryOf day
  rw [h] at hreverted hgas hfee hvalue
  have hrev : r.facts.reverted = s.facts.reverted := by
    have heq := hreverted.symm.trans hreverted'
    rw [List.countP_cons, List.countP_cons] at heq
    cases hb : r.facts.reverted with
    | false =>
        cases hb' : s.facts.reverted with
        | false => rfl
        | true => simp [hb, hb'] at heq
    | true =>
        cases hb' : s.facts.reverted with
        | false => simp [hb, hb'] at heq
        | true => rfl
  have hg : r.gasUsed = s.gasUsed := by
    have heq := hgas.symm.trans hgas'
    simpa using heq
  have hf : r.feeWei = s.feeWei := by
    have heq := Option.some.inj (hfee.symm.trans hfee')
    simpa using heq
  have hv : r.valueSpentWei = s.valueSpentWei := by
    have heq := Option.some.inj (hvalue.symm.trans hvalue')
    simpa using heq
  have hp : r.purpose = s.purpose := by
    by_contra hne
    have hkey : purposeKey s.purpose ≠ purposeKey r.purpose := fun heq => hne (purposeKey_injective heq.symm)
    have hmap := congrFun (congrArg ChainSpendSummary.byPurpose h) (purposeKey r.purpose)
    have hcount : ofPurpose ((r :: rest).map ChainReceipt.facts) (purposeKey r.purpose) =
        ofPurpose (rest.map ChainReceipt.facts) (purposeKey r.purpose) + 1 := by
      simp [ofPurpose, ChainReceipt.facts]
    have hcount' : ofPurpose ((s :: rest).map ChainReceipt.facts) (purposeKey r.purpose) =
        ofPurpose (rest.map ChainReceipt.facts) (purposeKey r.purpose) := by
      simp [ofPurpose, ChainReceipt.facts, hkey]
    have hle : ofPurpose (rest.map ChainReceipt.facts) (purposeKey r.purpose) + 1 ≤ u32Max := by
      rw [← hcount]
      refine List.countP_le_length.trans ?_
      rw [List.length_map]
      exact hr.length
    simp only [summaryOf, Tally.summary, tallyOf, hcount, hcount', if_neg (Nat.succ_ne_zero _), min_eq_left hle] at hmap
    split at hmap
    · cases hmap
    · have hmin := Option.some.inj hmap
      omega
  unfold ChainReceipt.facts at hrev ⊢
  simp only at hrev
  rw [hrev, hg, hf, hv, hp]

/-- **Two choices that differ in one report have the same summaries**, so the reports agree. -/
theorem CountedOnce.swap (h : CountedOnce receipts) (hvalid : ∀ r ∈ receipts, r.validate = .ok ())
    (hbelow : Below receipts) {r s : ChainReceipt} (hr : r ∈ receipts) (hs : s ∈ receipts) (hkey : r.key = s.key) :
    r.minedUnixMs / dayMs = s.minedUnixMs / dayMs ∧ r.facts = s.facts := by
  obtain ⟨day, n, hday, hon⟩ := h.hasDay hvalid hbelow hr
  have hchoice := choice_cons_firsts hr rfl
  have hchoice' := choice_cons_firsts hs hkey.symm
  obtain ⟨rest, hrest⟩ : ∃ rest, rest = firsts ChainReceipt.key [r.key] receipts := ⟨_, rfl⟩
  rw [← hrest] at hchoice hchoice'
  have hsame := Except.ok.inj
    ((h.build_choice hvalid hchoice hday).symm.trans (h.build_choice hvalid hchoice' hday))
  rw [List.filter_cons_of_pos hon] at hsame
  have hfits : Fits (r :: rest.filter (onDay n)) :=
    (hbelow.fits hchoice).sublist (List.filter_sublist.cons_cons r)
  by_cases hon' : onDay n s = true
  · rw [List.filter_cons_of_pos hon'] at hsame
    have hfits' : Fits (s :: rest.filter (onDay n)) :=
      (hbelow.fits hchoice').sublist (List.filter_sublist.cons_cons s)
    rw [onDay_eq] at hon hon'
    exact ⟨hon.trans hon'.symm, facts_eq_of_summaryOf hfits hfits' hsame⟩
  · rw [List.filter_cons_of_neg hon'] at hsame
    have hrestFits : Fits (rest.filter (onDay n)) := hfits.sublist (List.sublist_cons_self _ _)
    have hlen := (hfits.summaryOf day).1
    rw [hsame, (hrestFits.summaryOf day).1, List.length_cons] at hlen
    omega

theorem CountedOnce.consistent (h : CountedOnce receipts) (hvalid : ∀ r ∈ receipts, r.validate = .ok ())
    (hbelow : Below receipts) : Consistent receipts where
  early r hr := by
    obtain ⟨day, n, hday, hon⟩ := h.hasDay hvalid hbelow hr
    have hlt := hday.lt
    rw [onDay_eq] at hon
    unfold dayMs at hon
    omega
  sameDay _ hr _ hs hkey := (h.swap hvalid hbelow hr hs hkey).1
  agree _ hr _ hs hkey := (h.swap hvalid hbelow hr hs hkey).2

/-- **Chain spend.** Valid receipts whose reports are consistent are counted once; and when no sum saturates, only
    these are. -/
theorem counted_once_iff (receipts : List ChainReceipt) (hvalid : ∀ r ∈ receipts, r.validate = .ok ()) :
    (Consistent receipts → CountedOnce receipts) ∧ (Below receipts → (CountedOnce receipts ↔ Consistent receipts)) :=
  ⟨fun h => h.countedOnce hvalid, fun hbelow => ⟨fun h => h.consistent hvalid hbelow, fun h => h.countedOnce hvalid⟩⟩

/-- The time of reading is not checked. -/
theorem validate_minedUnixMs (r : ChainReceipt) (ms : ℕ) :
    ChainReceipt.validate { r with minedUnixMs := ms } = r.validate := by
  have hhash : ChainReceipt.hashOk { r with minedUnixMs := ms } = r.hashOk := rfl
  simp only [ChainReceipt.validate, hhash]

/-- A receipt of one transaction. -/
def anchored : ChainReceipt where
  txHash := "0x1111111111111111111111111111111111111111111111111111111111111111"
  purpose := .anchor
  minedUnixMs := 0
  status := 1
  gasUsed := 21000
  effectiveGasPriceWei := "7"
  valueWei := "5"

/-- The same transaction, read at this time. -/
def readAt (minedUnixMs : ℕ) : ChainReceipt := { anchored with minedUnixMs := minedUnixMs }

theorem readAt_valid (ms : ℕ) : (readAt ms).validate = .ok () := by
  rw [readAt, validate_minedUnixMs]
  decide +kernel

theorem counted_once_one_transaction : CountedOnce [readAt 1000, readAt 2000] := by
  have hread : ∀ r ∈ [readAt 1000, readAt 2000], ∃ ms < 3000, r = readAt ms := by
    intro r hr
    rcases List.mem_pair.mp hr with rfl | rfl
    · exact ⟨1000, by decide, rfl⟩
    · exact ⟨2000, by decide, rfl⟩
  have hvalid : ∀ r ∈ [readAt 1000, readAt 2000], r.validate = .ok () := by
    intro r hr
    obtain ⟨ms, -, rfl⟩ := hread r hr
    exact readAt_valid ms
  apply (counted_once_iff [readAt 1000, readAt 2000] hvalid).1
  refine ⟨?_, ?_, ?_⟩
  · intro r hr
    obtain ⟨ms, hms, rfl⟩ := hread r hr
    exact hms.trans (by decide)
  · intro r hr s hs _
    obtain ⟨ms, hms, rfl⟩ := hread r hr
    obtain ⟨ms', hms', rfl⟩ := hread s hs
    simp only [readAt, dayMs]
    omega
  · intro r hr s hs _
    obtain ⟨ms, -, rfl⟩ := hread r hr
    obtain ⟨ms', -, rfl⟩ := hread s hs
    rfl

/-- A transaction reported again a day later is counted on that day too. -/
theorem reported_on_two_days :
    ¬ ∀ receipts : List ChainReceipt, (∀ r ∈ receipts, r.validate = .ok ()) → CountedOnce receipts := by
  intro h
  have hvalid : ∀ r ∈ [readAt 0, readAt dayMs], r.validate = .ok () := by
    intro r hr
    rcases List.mem_pair.mp hr with rfl | rfl
    · exact readAt_valid 0
    · exact readAt_valid dayMs
  have hone := (h _ hvalid).reports [readAt 0] (by simp) (by simp [readAt, ChainReceipt.key]) "1970-01-02"
  have hcount := congrArg (fun s => s.toOption.map ChainSpendSummary.transactions) hone
  exact absurd hcount (by decide +kernel)

end

end AgentRuntime.Metering
