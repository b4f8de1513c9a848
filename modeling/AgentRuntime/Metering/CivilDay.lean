import AgentRuntime.Metering.ChainReceipts

/-!
# `Metering.CivilDay` — the day of a timestamp (`agent-metering/src/day.rs`)

A record is filed under the day of its timestamp, and a report asks for the milliseconds of a day. `civilFromDays` and
`daysFromCivil` are inverse to each other (`daysFromCivil_civilFromDays`, `civilFromDays_daysFromCivil`), so a record is
filed under the day that reports it. Both are also given with every step checked for its range; the checks never fail on
the days that are reached.
-/

namespace AgentRuntime.Metering

open Text Calendar

/-! ## From days to dates -/

/-- `as u32`: the lower 32 bits. -/
def asU32 (x : ℤ) : ℕ := (x % 2 ^ 32).toNat

/-- The civil date of a day, counted from 1970-01-01. -/
def civilFromDays (z : ℤ) : ℤ × ℕ × ℕ :=
  let z := z + 719468
  let era := (if 0 ≤ z then z else z - 146096).tdiv 146097
  let doe := z - era * 146097
  let yoe := (doe - doe.tdiv 1460 + doe.tdiv 36524 - doe.tdiv 146096).tdiv 365
  let y := yoe + era * 400
  let doy := doe - (365 * yoe + yoe.tdiv 4 - yoe.tdiv 100)
  let mp := (5 * doy + 2).tdiv 153
  let d := asU32 (doy - (153 * mp + 2).tdiv 5 + 1)
  let m := asU32 (if mp < 10 then mp + 3 else mp - 9)
  (if m ≤ 2 then y + 1 else y, m, d)

/-- `{n:0width}`: zeros up to the width, behind the sign. -/
def zeroPadded (width : ℕ) (n : ℤ) : List Char :=
  if n < 0 then '-' :: (Nat.toDigits 10 n.natAbs).leftpad (width - 1) '0'
  else (Nat.toDigits 10 n.natAbs).leftpad width '0'

/-- The day a Unix millisecond timestamp lies in. -/
def utcDayOfMs (ms : ℕ) : String :=
  let days : ℤ := if ms / dayMs < 2 ^ 63 then (ms / dayMs : ℕ) else (2 ^ 63 - 1) / 2
  let (y, m, d) := civilFromDays days
  String.ofList (zeroPadded 4 y ++ '-' :: zeroPadded 2 m ++ '-' :: zeroPadded 2 d)

/-! ## With every step checked -/

/-- A value that an `i64` holds. -/
def i64 (x : ℤ) : Option ℤ := if -2 ^ 63 ≤ x ∧ x < 2 ^ 63 then some x else none

/-- A value that a `u32` holds. -/
def u32 (x : ℤ) : Option ℕ := if 0 ≤ x ∧ x < 2 ^ 32 then some x.toNat else none

/-- A quotient that an `i64` holds. -/
def quot (x k : ℤ) : Option ℤ := if k = 0 then none else i64 (x.tdiv k)

def marchYearChecked (y : ℤ) (m : ℕ) : Option ℤ := if m ≤ 2 then i64 (y - 1) else some y

/-- What is divided for the era. -/
def eraNumerator (x k : ℤ) : Option ℤ := if 0 ≤ x then some x else i64 (x - k)

def monthChecked (mp : ℤ) : Option ℤ := if mp < 10 then i64 (mp + 3) else i64 (mp - 9)

def yearChecked (y : ℤ) (m : ℕ) : Option ℤ := if m ≤ 2 then i64 (y + 1) else some y

/-- `daysFromCivil`, with none where a step overflows. -/
def daysFromCivilChecked (y : ℤ) (m d : ℕ) : Option ℤ := do
  let y ← marchYearChecked y m
  let shifted ← eraNumerator y 399
  let era ← quot shifted 400
  let eraYears ← i64 (era * 400)
  let yoe ← i64 (y - eraYears)
  let march ← u32 (m + 9)
  let scaled ← i64 (153 * (march % 12 : ℕ))
  let rounded ← i64 (scaled + 2)
  let beforeMonth ← quot rounded 5
  let dayEnd ← i64 (beforeMonth + d)
  let doy ← i64 (dayEnd - 1)
  let years ← i64 (yoe * 365)
  let fours ← quot yoe 4
  let withLeaps ← i64 (years + fours)
  let hundreds ← quot yoe 100
  let yearStart ← i64 (withLeaps - hundreds)
  let doe ← i64 (yearStart + doy)
  let eraDays ← i64 (era * 146097)
  let days ← i64 (eraDays + doe)
  i64 (days - 719468)

/-- `civilFromDays`, with none where a step overflows or a cast cuts off. -/
def civilFromDaysChecked (z : ℤ) : Option (ℤ × ℕ × ℕ) := do
  let z ← i64 (z + 719468)
  let shifted ← eraNumerator z 146096
  let era ← quot shifted 146097
  let eraDays ← i64 (era * 146097)
  let doe ← i64 (z - eraDays)
  let cycles ← quot doe 1460
  let withoutCycles ← i64 (doe - cycles)
  let centuries ← quot doe 36524
  let withCenturies ← i64 (withoutCycles + centuries)
  let eras ← quot doe 146096
  let yearDays ← i64 (withCenturies - eras)
  let yoe ← quot yearDays 365
  let eraYears ← i64 (era * 400)
  let y ← i64 (yoe + eraYears)
  let years ← i64 (365 * yoe)
  let fours ← quot yoe 4
  let withLeaps ← i64 (years + fours)
  let hundreds ← quot yoe 100
  let yearStart ← i64 (withLeaps - hundreds)
  let doy ← i64 (doe - yearStart)
  let scaledDay ← i64 (5 * doy)
  let roundedDay ← i64 (scaledDay + 2)
  let mp ← quot roundedDay 153
  let scaled ← i64 (153 * mp)
  let rounded ← i64 (scaled + 2)
  let beforeMonth ← quot rounded 5
  let before ← i64 (doy - beforeMonth)
  let day ← i64 (before + 1)
  let d ← u32 day
  let month ← monthChecked mp
  let m ← u32 month
  let year ← yearChecked y m
  some (year, m, d)

/-! ## The year of a day -/

/-- The year of an era, from the day of the era. -/
theorem yearOfEra (doe : ℤ) {a : ℤ} (ha : 0 ≤ a ∧ a ≤ 399) (hle : 365 * a + a / 4 - a / 100 ≤ doe)
    (hlt : doe < 365 * (a + 1) + (a + 1) / 4 - (a + 1) / 100 + (a + 1) / 400) :
    (doe - doe / 1460 + doe / 36524 - doe / 146096) / 365 = a := by
  -- the century, the leap cycle in it, and the year in that
  obtain ⟨c, q, j, hsum, hc, hq, hj⟩ : ∃ c q j : ℤ, a = 100 * c + 4 * q + j ∧ (0 ≤ c ∧ c ≤ 3) ∧ (0 ≤ q ∧ q ≤ 24) ∧
      (0 ≤ j ∧ j ≤ 3) := ⟨a / 100, a % 100 / 4, a % 100 % 4, by omega, by omega, by omega, by omega⟩
  obtain ⟨r, hr⟩ : ∃ r : ℤ, doe = 36524 * c + (1461 * q + 365 * j + r) :=
    ⟨doe - 36524 * c - 1461 * q - 365 * j, by omega⟩
  have hr0 : 0 ≤ r := by omega
  have hrlt : r < 365 ∨ (r = 365 ∧ j = 3 ∧ (q < 24 ∨ c = 3)) := by omega
  clear hle hlt
  have hcentury : doe / 36524 - doe / 146096 = c := by
    obtain ⟨x, hx⟩ : ∃ x, x = 1461 * q + 365 * j + r := ⟨_, rfl⟩
    rw [← hx] at hr
    -- only the last day of the era is a century and an era off
    have hxlt : (0 ≤ x ∧ x < 36524) ∨ (x = 36524 ∧ c = 3) := by omega
    clear hx hrlt
    rcases hxlt with hin | ⟨rfl, rfl⟩
    · have hquot : doe / 36524 = c := by omega
      omega
    · omega
  have hcycle : doe / 1460 = 25 * c + q + if 1460 ≤ 24 * c + q + 365 * j + r then 1 else 0 := by
    split
    · omega
    · omega
  rw [hcycle]
  split
  · omega
  · omega

/-- The era, the year in it and the day in that. -/
structure InEra (n era yoe doe : ℤ) : Prop where
  era_eq : era = n / 146097
  doe_eq : doe = n - era * 146097
  yoe_eq : yoe = (doe - doe / 1460 + doe / 36524 - doe / 146096) / 365
  year : 0 ≤ yoe ∧ yoe ≤ 399
  start : yearStart (yoe + era * 400) ≤ n
  stop : n < yearStart (yoe + era * 400 + 1)

theorem InEra.yearStart_eq {n era yoe doe : ℤ} (h : InEra n era yoe doe) :
    yearStart yoe = 365 * yoe + yoe / 4 - yoe / 100 := by
  have hyear := h.year
  unfold yearStart
  omega

theorem exists_inEra (n : ℤ) : ∃ era yoe doe, InEra n era yoe doe := by
  obtain ⟨era, hera⟩ : ∃ era, era = n / 146097 := ⟨_, rfl⟩
  obtain ⟨doe, hdoe⟩ : ∃ doe, doe = n - era * 146097 := ⟨_, rfl⟩
  have hrange : 0 ≤ doe ∧ doe < 146097 := by omega
  obtain ⟨y, -, hle, hlt⟩ := exists_year doe.toNat
  rw [Int.toNat_of_nonneg hrange.1] at hle hlt
  have hy : 0 ≤ y ∧ y ≤ 399 := by
    constructor
    · by_contra hneg
      have hmono : yearStart (y + 1) ≤ yearStart 0 := yearStart_mono (by omega)
      have hzero : yearStart 0 = 0 := by decide
      omega
    · by_contra hlate
      have hmono : yearStart 400 ≤ yearStart y := yearStart_mono (by omega)
      have hera : yearStart 400 = 146097 := by decide
      omega
  have hlen := yearOfEra doe hy (by unfold yearStart at hle; omega) (by unfold yearStart at hlt; omega)
  refine ⟨era, y, doe, hera, hdoe, hlen.symm, hy, ?_, ?_⟩
  · rw [yearStart_add_era]
    omega
  · have hnext : y + era * 400 + 1 = y + 1 + era * 400 := by omega
    rw [hnext, yearStart_add_era]
    omega

/-! ## The two directions -/

/-- `y-m-d` is the `z`-th day from 1970-01-01. -/
structure Civil (z y : ℤ) (m d : ℕ) : Prop where
  month : 1 ≤ m ∧ m ≤ 12
  date : Date (marchYear y m) (marchMonth m) d
  count : dayOf (marchYear y m) (marchMonth m) d = z + 719468

theorem Civil.daysFromCivil {z y : ℤ} {m d : ℕ} (h : Civil z y m d) : daysFromCivil y m d = z := by
  have hcount := h.count
  rw [daysFromCivil_eq]
  omega

theorem Civil.unique {z y y' : ℤ} {m d m' d' : ℕ} (h : Civil z y m d) (h' : Civil z y' m' d') :
    y = y' ∧ m = m' ∧ d = d' := by
  obtain ⟨hyear, hmonth, hday⟩ := h.date.unique h'.date (h.count.trans h'.count.symm)
  have hm := h.month
  have hm' := h'.month
  have hmm : m = m' := by
    unfold marchMonth at hmonth
    omega
  subst hmm
  refine ⟨?_, rfl, by omega⟩
  unfold marchYear at hyear
  split at hyear
  · omega
  · omega

/-- The values of `civilFromDays` before the casts. -/
structure CivilSteps (z era doe yoe doy mp : ℤ) : Prop where
  inEra : InEra (z + 719468) era yoe doe
  doy_eq : doy = doe - (365 * yoe + yoe / 4 - yoe / 100)
  range : 0 ≤ doy ∧ doy ≤ 365
  mp_eq : mp = (5 * doy + 2) / 153
  date : Date (yoe + era * 400) mp (doy - (153 * mp + 2) / 5 + 1)

theorem exists_civilSteps (z : ℤ) : ∃ era doe yoe doy mp, CivilSteps z era doe yoe doy mp := by
  obtain ⟨era, yoe, doe, hin⟩ := exists_inEra (z + 719468)
  obtain ⟨doy, hdoy⟩ : ∃ doy, doy = doe - (365 * yoe + yoe / 4 - yoe / 100) := ⟨_, rfl⟩
  have hdoe := hin.doe_eq
  have hstart := hin.start
  have hstop := hin.stop
  -- the day of the year is counted from the start of the year
  have hday : doy = z + 719468 - yearStart (yoe + era * 400) := by
    rw [yearStart_add_era, hin.yearStart_eq]
    omega
  have hlen := yearLength_bounds (yoe + era * 400)
  have hnext := yearStart_succ (yoe + era * 400)
  have hrange : 0 ≤ doy ∧ doy ≤ 365 := by omega
  refine ⟨era, doe, yoe, doy, _, hin, hdoy, hrange, rfl, ⟨?_, ?_, ?_, ?_⟩⟩
  · omega
  · omega
  · unfold monthStart
    omega
  · unfold monthStart
    omega

theorem CivilSteps.dayOf_eq {z era doe yoe doy mp : ℤ} (h : CivilSteps z era doe yoe doy mp) :
    dayOf (yoe + era * 400) mp (doy - (153 * mp + 2) / 5 + 1) = z + 719468 := by
  have hdoe := h.inEra.doe_eq
  have hdoy := h.doy_eq
  unfold dayOf monthStart
  rw [yearStart_add_era, h.inEra.yearStart_eq]
  omega

/-- The month from January on, of the month from March on. -/
def monthOf (mp : ℤ) : ℕ := if mp < 10 then (mp + 3).toNat else (mp - 9).toNat

theorem CivilSteps.civil {z era doe yoe doy mp : ℤ} (h : CivilSteps z era doe yoe doy mp) :
    Civil z (if monthOf mp ≤ 2 then yoe + era * 400 + 1 else yoe + era * 400) (monthOf mp)
      (doy - (153 * mp + 2) / 5 + 1).toNat := by
  have hmp := h.date.month
  have hday := h.date.day
  have hcast : (((doy - (153 * mp + 2) / 5 + 1).toNat : ℕ) : ℤ) = doy - (153 * mp + 2) / 5 + 1 :=
    Int.toNat_of_nonneg (by omega)
  have hmarch : marchMonth (monthOf mp) = mp := by
    unfold marchMonth monthOf
    split
    · omega
    · omega
  have hyear : marchYear (if monthOf mp ≤ 2 then yoe + era * 400 + 1 else yoe + era * 400) (monthOf mp) =
      yoe + era * 400 := by
    unfold marchYear
    split
    · omega
    · rfl
  refine ⟨?_, ?_, ?_⟩
  · unfold monthOf
    split
    · omega
    · omega
  · rw [hmarch, hyear, hcast]
    exact h.date
  · rw [hmarch, hyear, hcast]
    exact h.dayOf_eq

/-- Truncating division is division where nothing is negative. -/
theorem tdiv_eq {x : ℤ} (h : 0 ≤ x) (k : ℤ) : x.tdiv k = x / k := Int.tdiv_eq_ediv_of_nonneg h

theorem eraOf (n : ℤ) : (if 0 ≤ n then n else n - 146096).tdiv 146097 = n / 146097 := by
  split
  · rename_i hn
    exact tdiv_eq hn _
  · rename_i hn
    have hneg : n - 146096 = -(146096 - n) := by omega
    rw [hneg, Int.neg_tdiv, tdiv_eq (by omega)]
    omega

theorem asU32_eq {x : ℤ} (h : 0 ≤ x ∧ x < 2 ^ 32) : asU32 x = x.toNat := by
  unfold asU32
  rw [Int.emod_eq_of_lt h.1 h.2]

theorem CivilSteps.civilFromDays {z era doe yoe doy mp : ℤ} (h : CivilSteps z era doe yoe doy mp) :
    civilFromDays z =
      (if monthOf mp ≤ 2 then yoe + era * 400 + 1 else yoe + era * 400, monthOf mp,
        (doy - (153 * mp + 2) / 5 + 1).toNat) := by
  obtain ⟨⟨hera, hdoe, hyoe, hyear, -, -⟩, hdoy, hrange, hmp, hdate⟩ := h
  have hpositive : 0 ≤ doe := by omega
  have hin := hdate.inMonth
  unfold monthStart at hin
  have hday : asU32 (doy - (153 * mp + 2) / 5 + 1) = (doy - (153 * mp + 2) / 5 + 1).toNat :=
    asU32_eq ⟨by omega, by omega⟩
  have hmonth : asU32 (if mp < 10 then mp + 3 else mp - 9) = monthOf mp := by
    unfold monthOf
    split
    · exact asU32_eq ⟨by omega, by omega⟩
    · exact asU32_eq ⟨by omega, by omega⟩
  have hyears : (doe - doe / 1460 + doe / 36524 - doe / 146096).tdiv 365 = yoe := by
    rw [tdiv_eq (by omega), hyoe]
  have hmarch : (5 * doy + 2).tdiv 153 = mp := by
    rw [tdiv_eq (by omega), hmp]
  have hstart : (153 * mp + 2).tdiv 5 = (153 * mp + 2) / 5 := tdiv_eq (by omega) 5
  unfold Metering.civilFromDays
  simp only
  rw [eraOf, ← hera, ← hdoe, tdiv_eq hpositive, tdiv_eq hpositive, tdiv_eq hpositive, hyears, tdiv_eq hyear.1,
    tdiv_eq hyear.1, ← hdoy, hmarch, hstart, hday, hmonth]

theorem civilFromDays_civil (z : ℤ) :
    Civil z (civilFromDays z).1 (civilFromDays z).2.1 (civilFromDays z).2.2 := by
  obtain ⟨era, doe, yoe, doy, mp, h⟩ := exists_civilSteps z
  rw [h.civilFromDays]
  exact h.civil

theorem daysFromCivil_civilFromDays (z : ℤ) :
    daysFromCivil (civilFromDays z).1 (civilFromDays z).2.1 (civilFromDays z).2.2 = z :=
  (civilFromDays_civil z).daysFromCivil

theorem civilFromDays_daysFromCivil (y : ℤ) {m d : ℕ} (hm : 1 ≤ m ∧ m ≤ 12) (hd : d ≠ 0 ∧ d ≤ daysInMonth y m) :
    civilFromDays (daysFromCivil y m d) = (y, m, d) := by
  have hcivil : Civil (daysFromCivil y m d) y m d := ⟨hm, (date_iff y hm).mpr hd, by rw [daysFromCivil_eq]; omega⟩
  obtain ⟨hyear, hmonth, hday⟩ := (civilFromDays_civil (daysFromCivil y m d)).unique hcivil
  rw [← Prod.mk.eta (p := civilFromDays _), ← Prod.mk.eta (p := (civilFromDays _).2), hyear, hmonth, hday]

/-! ## The texts -/

theorem decimalValue_zeros (k : ℕ) (cs : List Char) : decimalValue (List.replicate k '0' ++ cs) = decimalValue cs := by
  induction k with
  | zero => rfl
  | succ k ih =>
      rw [List.replicate_succ, List.cons_append]
      exact ih

/-- A number that is short enough is written with exactly so many digits. -/
theorem zeroPadded_spec (width : ℕ) {n : ℤ} (hpos : 0 < width) (hn : 0 ≤ n ∧ n < 10 ^ width) :
    (zeroPadded width n).length = width ∧ (∀ c ∈ zeroPadded width n, c.isDigit = true) ∧
      decimalValue (zeroPadded width n) = n.toNat := by
  have habs : n.natAbs < 10 ^ width := by
    zify
    rw [abs_of_nonneg hn.1]
    exact hn.2
  have hlen : (Nat.toDigits 10 n.natAbs).length ≤ width := (Nat.length_toDigits_le_iff (by decide) hpos).mpr habs
  unfold zeroPadded
  rw [if_neg (not_lt.mpr hn.1)]
  refine ⟨?_, ?_, ?_⟩
  · rw [List.length_leftpad]
    exact max_eq_left hlen
  · intro c hc
    unfold List.leftpad at hc
    rcases List.mem_append.mp hc with hc | hc
    · rw [List.eq_of_mem_replicate hc]
      rfl
    · exact Nat.isDigit_of_mem_toDigits (by decide) (by decide) hc
  · unfold List.leftpad
    rw [decimalValue_zeros, decimalValue_toDigits]
    omega

/-- Days up to the year 9999. -/
theorem civil_lt {z y : ℤ} {m d : ℕ} (h : Civil z y m d) (hy : y ≤ 9999) : z < 2932897 := by
  have hmonth := h.month
  have hbounds := h.date.bounds.2
  rw [h.count] at hbounds
  have hin := h.date.inMonth
  have hcount := h.count
  rcases lt_or_ge 2 m with hm | hm
  · have hmarch : marchYear y m = y := if_neg (by omega)
    have hmono : yearStart y ≤ yearStart 9999 := yearStart_mono hy
    have hlast : yearStart 9999 = 3652059 := by decide
    rw [hmarch] at hcount
    unfold dayOf marchMonth monthStart at hcount
    unfold marchMonth monthStart at hin
    omega
  · have hmarch : marchYear y m = y - 1 := if_pos hm
    have hmono : yearStart (y - 1 + 1) ≤ yearStart 9999 := yearStart_mono (by omega)
    have hlast : yearStart 9999 = 3652059 := by decide
    rw [hmarch] at hbounds
    omega

/-- Days from 1970 on. -/
theorem civil_le {z y : ℤ} {m d : ℕ} (h : Civil z y m d) (hz : 0 ≤ z) : 1970 ≤ y := by
  have hmonth := h.month
  have hbounds := h.date.bounds.2
  rw [h.count] at hbounds
  have hcount := h.count
  by_contra hearly
  rcases lt_or_ge 2 m with hm | hm
  · have hmarch : marchYear y m = y := if_neg (by omega)
    have hmono : yearStart y ≤ yearStart 1969 := yearStart_mono (by omega)
    have hfirst : yearStart 1969 = 719162 := by decide
    have hin := h.date.inMonth
    rw [hmarch] at hcount
    unfold dayOf marchMonth monthStart at hcount
    unfold marchMonth monthStart at hin
    omega
  · have hmarch : marchYear y m = y - 1 := if_pos hm
    have hmono : yearStart (y - 1 + 1) ≤ yearStart 1969 := yearStart_mono (by omega)
    have hfirst : yearStart 1969 = 719162 := by decide
    rw [hmarch] at hbounds
    omega

theorem daysInMonth_le (y : ℤ) (m : ℕ) : daysInMonth y m ≤ 31 := by
  unfold daysInMonth
  split_ifs
  all_goals omega

/-- The day of a timestamp is the day that contains it. -/
theorem utcDayOfMs_isDay {ms : ℕ} (hms : ms < 2 ^ 64) (hyear : (civilFromDays (ms / dayMs : ℕ)).1 ≤ 9999) :
    IsDay (utcDayOfMs ms) (ms / dayMs) := by
  have hdays : ms / dayMs < 2 ^ 63 := by
    unfold dayMs
    omega
  have hcivil := civilFromDays_civil (ms / dayMs : ℕ)
  have hlt := civil_lt hcivil hyear
  have hle := civil_le hcivil (Int.natCast_nonneg _)
  unfold utcDayOfMs
  rw [if_pos hdays]
  obtain ⟨⟨y, m, d⟩, hdate⟩ : ∃ date, civilFromDays (ms / dayMs : ℕ) = date := ⟨_, rfl⟩
  rw [hdate] at hyear hcivil hle
  simp only [hdate] at hyear hcivil hle ⊢
  obtain ⟨hpos, hin⟩ := (date_iff y hcivil.month).mp hcivil.date
  have hd : d ≤ 31 := hin.trans (daysInMonth_le y m)
  have hm := hcivil.month
  obtain ⟨hylen, hydigits, hyvalue⟩ := @zeroPadded_spec 4 y (by decide) ⟨by omega, by omega⟩
  obtain ⟨hmlen, hmdigits, hmvalue⟩ := @zeroPadded_spec 2 m (by decide) ⟨by omega, by omega⟩
  obtain ⟨hdlen, hddigits, hdvalue⟩ := @zeroPadded_spec 2 d (by decide) ⟨by omega, by omega⟩
  have hspelled : Spelled (String.ofList (zeroPadded 4 y ++ '-' :: zeroPadded 2 m ++ '-' :: zeroPadded 2 d))
      (zeroPadded 4 y) (zeroPadded 2 m) (zeroPadded 2 d) := by
    refine ⟨String.toList_ofList, ⟨hylen, hmlen, hdlen⟩, ?_⟩
    intro c hc
    simp only [List.mem_append] at hc
    rcases hc with (hc | hc) | hc
    · exact hydigits c hc
    · exact hmdigits c hc
    · exact hddigits c hc
  refine Written.isDay (y := y.toNat) (m := m) (d := d) ⟨splitDay_some.mpr ⟨_, _, _, hspelled, ?_⟩, hm, ?_, ?_⟩
    (by omega)
  · rw [hyvalue, hmvalue, hdvalue, Int.toNat_natCast, Int.toNat_natCast]
  · rw [Int.toNat_of_nonneg (by omega)]
    exact hcivil.date
  · rw [Int.toNat_of_nonneg (by omega), hcivil.count]

/-! ## No step overflows -/

theorem step {α β : Type} {x : Option α} {a : α} {f : α → Option β} {b : β} (hx : x = some a) (hf : f a = some b) :
    (x >>= f) = some b := by
  rw [hx]
  exact hf

theorem i64_eq {x : ℤ} (h : -2 ^ 62 ≤ x ∧ x < 2 ^ 62) : i64 x = some x := if_pos ⟨by omega, by omega⟩

theorem u32_eq {x : ℤ} {n : ℕ} (h : x = n) (hn : n < 2 ^ 32) : u32 x = some n := by
  subst h
  exact if_pos ⟨by omega, by omega⟩

theorem quot_eq {x k : ℤ} (hx : 0 ≤ x ∧ x < 2 ^ 62) (hk : 0 < k) : quot x k = some (x / k) := by
  have hle : x / k ≤ x := Int.ediv_le_self k hx.1
  have hnonneg : 0 ≤ x / k := Int.ediv_nonneg hx.1 hk.le
  unfold quot
  rw [if_neg hk.ne', tdiv_eq hx.1]
  exact i64_eq ⟨by omega, by omega⟩

theorem eraOfYear (y : ℤ) : (if 0 ≤ y then y else y - 399).tdiv 400 = y / 400 := by
  split
  · rename_i hy
    exact tdiv_eq hy _
  · rename_i hy
    have hneg : y - 399 = -(399 - y) := by omega
    rw [hneg, Int.neg_tdiv, tdiv_eq (by omega)]
    omega

/-- On the dates that are accepted. -/
theorem daysFromCivilChecked_eq {y : ℤ} {m d : ℕ} (hy : 0 ≤ y ∧ y ≤ 9999) (hm : 1 ≤ m ∧ m ≤ 12) (hd : d ≤ 31) :
    daysFromCivilChecked y m d = some (daysFromCivil y m d) := by
  obtain ⟨y', hy'⟩ : ∃ y' : ℤ, y' = if m ≤ 2 then y - 1 else y := ⟨_, rfl⟩
  have hrange : -1 ≤ y' ∧ y' ≤ 9999 := by
    split at hy'
    · omega
    · omega
  have hmarch : marchYearChecked y m = some y' := by
    rw [hy']
    unfold marchYearChecked
    split
    · exact i64_eq ⟨by omega, by omega⟩
    · rfl
  have hshifted : eraNumerator y' 399 = some (if 0 ≤ y' then y' else y' - 399) := by
    unfold eraNumerator
    split
    · rfl
    · exact i64_eq ⟨by omega, by omega⟩
  -- the era, the year of the era and the month
  obtain ⟨era, hera⟩ : ∃ era, era = y' / 400 := ⟨_, rfl⟩
  obtain ⟨yoe, hyoe⟩ : ∃ yoe, yoe = y' - era * 400 := ⟨_, rfl⟩
  obtain ⟨mp, hmp⟩ : ∃ mp : ℤ, mp = ((m + 9) % 12 : ℕ) := ⟨_, rfl⟩
  have hquot : quot (if 0 ≤ y' then y' else y' - 399) 400 = some era := by
    unfold quot
    rw [if_neg (by decide), eraOfYear, ← hera]
    exact i64_eq ⟨by omega, by omega⟩
  have hcivil : daysFromCivil y m d =
      era * 146097 + (yoe * 365 + yoe / 4 - yoe / 100 + ((153 * mp + 2) / 5 + d - 1)) - 719468 := by
    unfold daysFromCivil
    simp only
    rw [← hy', eraOfYear, ← hera, ← hyoe, ← hmp]
  rw [hcivil]
  unfold daysFromCivilChecked
  refine step hmarch (step hshifted (step hquot ?_))
  refine step (i64_eq ⟨by omega, by omega⟩) (step (i64_eq ⟨by omega, by omega⟩) ?_)
  refine step (u32_eq (n := m + 9) (by push_cast; rfl) (by omega)) ?_
  rw [← hyoe, ← hmp]
  refine step (i64_eq ⟨by omega, by omega⟩) (step (i64_eq ⟨by omega, by omega⟩) ?_)
  refine step (quot_eq ⟨by omega, by omega⟩ (by decide)) (step (i64_eq ⟨by omega, by omega⟩) ?_)
  refine step (i64_eq ⟨by omega, by omega⟩) (step (i64_eq ⟨by omega, by omega⟩) ?_)
  refine step (quot_eq ⟨by omega, by omega⟩ (by decide)) (step (i64_eq ⟨by omega, by omega⟩) ?_)
  refine step (quot_eq ⟨by omega, by omega⟩ (by decide)) (step (i64_eq ⟨by omega, by omega⟩) ?_)
  refine step (i64_eq ⟨by omega, by omega⟩) (step (i64_eq ⟨by omega, by omega⟩) ?_)
  exact step (i64_eq ⟨by omega, by omega⟩) (i64_eq ⟨by omega, by omega⟩)

/-- On the days of timestamps, and far beyond. -/
theorem civilFromDaysChecked_eq {z : ℤ} (hz : 0 ≤ z ∧ z < 2 ^ 40) :
    civilFromDaysChecked z = some (civilFromDays z) := by
  obtain ⟨era, doe, yoe, doy, mp, h⟩ := exists_civilSteps z
  rw [h.civilFromDays]
  obtain ⟨⟨hera, hdoe, hyoe, hyear, -, -⟩, hdoy, hrange, hmp, hdate⟩ := h
  obtain ⟨hmp0, hmp11⟩ := hdate.month
  have hday := hdate.day
  have hdoelt : 0 ≤ doe ∧ doe < 146097 := by omega
  have heralt : 0 ≤ era ∧ era < 2 ^ 40 := by omega
  clear hdate
  have hshifted : eraNumerator (z + 719468) 146096 = some (z + 719468) := if_pos (by omega)
  have hmonth : monthChecked mp = some (if mp < 10 then mp + 3 else mp - 9) := by
    unfold monthChecked
    split
    · exact i64_eq ⟨by omega, by omega⟩
    · exact i64_eq ⟨by omega, by omega⟩
  have hcast : (if mp < 10 then mp + 3 else mp - 9) = (monthOf mp : ℕ) := by
    unfold monthOf
    split
    · omega
    · omega
  have hmonthlt : monthOf mp < 2 ^ 32 := by
    unfold monthOf
    split
    · omega
    · omega
  have hlast : yearChecked (yoe + era * 400) (monthOf mp) =
      some (if monthOf mp ≤ 2 then yoe + era * 400 + 1 else yoe + era * 400) := by
    unfold yearChecked
    split
    · exact i64_eq ⟨by omega, by omega⟩
    · rfl
  unfold civilFromDaysChecked
  refine step (i64_eq ⟨by omega, by omega⟩) (step hshifted (step (quot_eq ⟨by omega, by omega⟩ (by decide)) ?_))
  rw [← hera]
  refine step (i64_eq ⟨by omega, by omega⟩) (step (i64_eq ⟨by omega, by omega⟩) ?_)
  rw [← hdoe]
  refine step (quot_eq ⟨by omega, by omega⟩ (by decide)) (step (i64_eq ⟨by omega, by omega⟩) ?_)
  refine step (quot_eq ⟨by omega, by omega⟩ (by decide)) (step (i64_eq ⟨by omega, by omega⟩) ?_)
  refine step (quot_eq ⟨by omega, by omega⟩ (by decide)) (step (i64_eq ⟨by omega, by omega⟩) ?_)
  refine step (quot_eq ⟨by omega, by omega⟩ (by decide)) ?_
  rw [← hyoe]
  refine step (i64_eq ⟨by omega, by omega⟩) (step (i64_eq ⟨by omega, by omega⟩) ?_)
  refine step (i64_eq ⟨by omega, by omega⟩) (step (quot_eq ⟨by omega, by omega⟩ (by decide)) ?_)
  refine step (i64_eq ⟨by omega, by omega⟩) (step (quot_eq ⟨by omega, by omega⟩ (by decide)) ?_)
  refine step (i64_eq ⟨by omega, by omega⟩) (step (i64_eq ⟨by omega, by omega⟩) ?_)
  rw [← hdoy]
  refine step (i64_eq ⟨by omega, by omega⟩) (step (i64_eq ⟨by omega, by omega⟩) ?_)
  refine step (quot_eq ⟨by omega, by omega⟩ (by decide)) ?_
  rw [← hmp]
  refine step (i64_eq ⟨by omega, by omega⟩) (step (i64_eq ⟨by omega, by omega⟩) ?_)
  refine step (quot_eq ⟨by omega, by omega⟩ (by decide)) (step (i64_eq ⟨by omega, by omega⟩) ?_)
  refine step (i64_eq ⟨by omega, by omega⟩) ?_
  refine step (u32_eq (n := (doy - (153 * mp + 2) / 5 + 1).toNat) (by omega) (by omega)) ?_
  exact step hmonth (step (u32_eq hcast hmonthlt) (step hlast rfl))

/-! ## One day for every record -/

/-- The UTC year of a timestamp. -/
def utcYearOfMs (ms : ℕ) : ℤ := (civilFromDays (ms / dayMs : ℕ)).1

/-- **Every record counts on exactly one day.** A timestamp up to the year 9999 lies within the bounds of its own day and
    of no other; the two conversions are inverse to each other on every day that either reaches, and none of their steps
    overflows there. -/
theorem day_exact :
    (∀ day s e t, utcDayBoundsMs day = .ok (s, e) → t < 2 ^ 64 → utcYearOfMs t ≤ 9999 →
      (utcDayOfMs t = day ↔ s ≤ t ∧ t < e)) ∧
    (∀ t, t < 2 ^ 64 → utcYearOfMs t ≤ 9999 →
      ∃ s e, utcDayBoundsMs (utcDayOfMs t) = .ok (s, e) ∧ s ≤ t ∧ t < e) ∧
    (∀ day s e, utcDayBoundsMs day = .ok (s, e) → e < 2 ^ 64 ∧
      ∃ y m d, splitDay day = some (y, m, d) ∧ daysFromCivilChecked y m d = some (daysFromCivil y m d) ∧
        civilFromDays (daysFromCivil y m d) = ((y : ℤ), m, d) ∧ daysFromCivil y m d = (s / dayMs : ℕ)) ∧
    ∀ t, t < 2 ^ 64 → civilFromDaysChecked (t / dayMs : ℕ) = some (civilFromDays (t / dayMs : ℕ)) ∧
      daysFromCivil (civilFromDays (t / dayMs : ℕ)).1 (civilFromDays (t / dayMs : ℕ)).2.1
        (civilFromDays (t / dayMs : ℕ)).2.2 = (t / dayMs : ℕ) := by
  have hms : 0 < dayMs := by decide
  refine ⟨?_, ?_, ?_, ?_⟩
  · intro day s e t hday ht hyear
    obtain ⟨n, hn⟩ := exists_isDay hday
    obtain ⟨rfl, rfl⟩ : s = n * dayMs ∧ e = n * dayMs + dayMs := by simpa using hday.symm.trans hn
    have hown := utcDayOfMs_isDay ht hyear
    constructor
    · intro hsame
      rw [hsame, IsDay, hday] at hown
      have hstart : n * dayMs = t / dayMs * dayMs := congrArg Prod.fst (Except.ok.inj hown)
      have hle := Nat.div_mul_le_self t dayMs
      have hlt := Nat.lt_div_mul_add hms (a := t)
      omega
    · rintro ⟨hle, hlt⟩
      have hquot : t / dayMs = n := by
        rw [Nat.div_eq_iff hms]
        omega
      rw [hquot] at hown
      exact hown.inj hn
  · intro t ht hyear
    exact ⟨_, _, utcDayOfMs_isDay ht hyear, Nat.div_mul_le_self t dayMs, Nat.lt_div_mul_add hms⟩
  · intro day s e hday
    obtain ⟨n, hn⟩ := exists_isDay hday
    have hlt := hn.lt
    obtain ⟨y, m, d, hwritten⟩ := hn.written
    obtain ⟨rfl, rfl⟩ : s = n * dayMs ∧ e = n * dayMs + dayMs := by simpa using hday.symm.trans hn
    obtain ⟨hpos, hlen⟩ := (date_iff y hwritten.month).mp hwritten.date
    have hd : d ≤ 31 := hlen.trans (daysInMonth_le y m)
    obtain ⟨ys, ms, ds, hspelled, hparts⟩ := splitDay_some.mp hwritten.text
    have hyear : y < 10 ^ 4 := by
      rw [(Prod.mk.inj hparts).1, ← hspelled.lengths.1]
      exact decimalValue_lt fun c hc => hspelled.digits c (by simp [hc])
    have hcivil : Civil n y m d := ⟨hwritten.month, hwritten.date, hwritten.count⟩
    refine ⟨by unfold dayMs; omega, y, m, d, hwritten.text, ?_, ?_, ?_⟩
    · exact daysFromCivilChecked_eq ⟨by omega, by omega⟩ hwritten.month hd
    · exact civilFromDays_daysFromCivil y hwritten.month ⟨hpos, hlen⟩
    · rw [hcivil.daysFromCivil, Nat.mul_div_cancel n hms]
  · intro t ht
    refine ⟨civilFromDaysChecked_eq ⟨Int.natCast_nonneg _, ?_⟩, daysFromCivil_civilFromDays _⟩
    have hlt : t / dayMs < 2 ^ 40 := by
      unfold dayMs
      omega
    exact_mod_cast hlt

/-- The last millisecond of the first day. -/
theorem day_exact_first_day : utcDayOfMs 86399999 = "1970-01-01" ↔ 0 ≤ 86399999 ∧ 86399999 < 86400000 :=
  day_exact.1 "1970-01-01" 0 86400000 86399999 (by decide) (by decide) (by decide)

end AgentRuntime.Metering
