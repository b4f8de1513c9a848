import AgentRuntime.Lib.Calendar
import AgentRuntime.Lib.Text

/-!
# `Metering.Day` — UTC days (`agent-metering/src/day.rs`)

A day is a text `YYYY-MM-DD`, and stands for the milliseconds of a UTC day from 1970 on. Two days are no more the same
milliseconds than the same text (`utcDayBoundsMs_inj`), and every millisecond before the year 10000 lies in one
(`exists_day`).
-/

namespace AgentRuntime.Metering

open Text Calendar

def dayMs : ℕ := 86400000

inductive MeteringError where
  | invalidDay (day : String)
  | invalidReceipt (why : String)
deriving DecidableEq

/-- The day of a civil date, counted from 1970-01-01. -/
def daysFromCivil (y : ℤ) (m d : ℕ) : ℤ :=
  let y := if m ≤ 2 then y - 1 else y
  let era := (if 0 ≤ y then y else y - 399).tdiv 400
  let yoe := y - era * 400
  let mp : ℤ := ((m + 9) % 12 : ℕ)
  let doy := (153 * mp + 2) / 5 + d - 1
  let doe := yoe * 365 + yoe / 4 - yoe / 100 + doy
  era * 146097 + doe - 719468

def isLeap (y : ℤ) : Bool := (y % 4 == 0 && y % 100 != 0) || y % 400 == 0

def daysInMonth (y : ℤ) (m : ℕ) : ℕ :=
  if m ∈ [1, 3, 5, 7, 8, 10, 12] then 31
  else if m ∈ [4, 6, 9, 11] then 30
  else if m = 2 then if isLeap y then 29 else 28
  else 0

/-- The parts of a text `YYYY-MM-DD`. -/
def splitDay (day : String) : Option (ℕ × ℕ × ℕ) :=
  match day.toList with
  | [y0, y1, y2, y3, '-', m0, m1, '-', d0, d1] =>
      if [y0, y1, y2, y3, m0, m1, d0, d1].all Char.isDigit then
        some (decimalValue [y0, y1, y2, y3], decimalValue [m0, m1], decimalValue [d0, d1])
      else none
  | _ => none

/-- `[start, end)` in Unix milliseconds for a day on or after 1970-01-01. -/
def utcDayBoundsMs (day : String) : Except MeteringError (ℕ × ℕ) :=
  match splitDay day with
  | none => .error (.invalidDay day)
  | some (y, m, d) =>
      if ¬ (1 ≤ m ∧ m ≤ 12) ∨ d = 0 ∨ daysInMonth y m < d then .error (.invalidDay day)
      else
        let days := daysFromCivil y m d
        if days < 0 ∨ 2 ^ 64 ≤ days.toNat * dayMs then .error (.invalidDay day)
        else .ok (days.toNat * dayMs, days.toNat * dayMs + dayMs)

/-! ## The calendar -/

/-- The year that starts in March, and its month. -/
def marchYear (y : ℤ) (m : ℕ) : ℤ := if m ≤ 2 then y - 1 else y

def marchMonth (m : ℕ) : ℤ := ((m + 9) % 12 : ℕ)

theorem daysFromCivil_eq (y : ℤ) (m d : ℕ) :
    daysFromCivil y m d = dayOf (marchYear y m) (marchMonth m) d - 719468 := by
  have hera (z : ℤ) : (if 0 ≤ z then z else z - 399).tdiv 400 = z / 400 := by
    split
    · rename_i hz
      exact Int.tdiv_eq_ediv_of_nonneg hz
    · rename_i hz
      have hneg : z - 399 = -(399 - z) := by omega
      rw [hneg, Int.neg_tdiv, Int.tdiv_eq_ediv_of_nonneg (by omega)]
      omega
  unfold daysFromCivil dayOf marchYear marchMonth yearStart monthStart
  simp only [hera]
  omega

theorem yearLength_march (y : ℤ) : yearLength (y - 1) = if isLeap y then 366 else 365 := by
  rw [yearLength_eq, Int.sub_add_cancel]
  simp [isLeap]

/-- The dates the calendar has are the ones with a day that the month has. -/
theorem date_iff (y : ℤ) {m d : ℕ} (hm : 1 ≤ m ∧ m ≤ 12) :
    Date (marchYear y m) (marchMonth m) d ↔ d ≠ 0 ∧ d ≤ daysInMonth y m := by
  have hlen := yearLength_bounds (marchYear y m)
  have hfeb := yearLength_march y
  have hcases : Date (marchYear y m) (marchMonth m) d ↔ (1 : ℤ) ≤ d ∧
      monthStart (marchMonth m) + d ≤ monthStart (marchMonth m + 1) ∧
      monthStart (marchMonth m) + d ≤ yearLength (marchYear y m) := by
    constructor
    · intro h
      exact ⟨h.day, h.inMonth, h.inYear⟩
    · rintro ⟨hday, hmonth, hyear⟩
      refine ⟨?_, hday, hmonth, hyear⟩
      unfold marchMonth
      omega
  rw [hcases]
  obtain ⟨h1, h12⟩ := hm
  unfold marchYear at hlen ⊢
  -- February is the only month whose length depends on the year
  interval_cases m
  all_goals
    simp only [marchMonth, monthStart, daysInMonth]
    norm_num at hlen ⊢
  case «2» =>
    rw [hfeb]
    cases isLeap y with
    | true => simp only [if_true]; omega
    | false => simp only [Bool.false_eq_true, if_false]; omega
  all_goals omega

/-! ## The texts -/

theorem digit_bounds {c : Char} (h : c.isDigit = true) : 48 ≤ c.toNat ∧ c.toNat ≤ 57 := by
  simpa [Char.isDigit_iff_toNat] using h

/-- Two lists of digits, as many, with one value are the same digits. -/
theorem decimalValue_inj {cs ds : List Char} (hc : ∀ c ∈ cs, c.isDigit = true) (hd : ∀ d ∈ ds, d.isDigit = true)
    (hlen : cs.length = ds.length) (h : decimalValue cs = decimalValue ds) : cs = ds := by
  induction cs using List.reverseRecOn generalizing ds with
  | nil => exact (List.length_eq_zero_iff.mp hlen.symm).symm
  | append_singleton cs c ih =>
      obtain ⟨ds, d, rfl⟩ : ∃ ds' d, ds = ds' ++ [d] := by
        rcases List.eq_nil_or_concat ds with rfl | ⟨ds', d, rfl⟩
        · simp at hlen
        · exact ⟨ds', d, List.concat_eq_append⟩
      simp only [decimalValue, List.foldl_append, List.foldl_cons, List.foldl_nil] at h
      have hcb := digit_bounds (hc c (by simp))
      have hdb := digit_bounds (hd d (by simp))
      have hrest : decimalValue cs = decimalValue ds := by
        unfold decimalValue
        omega
      have hlast : c = d := by
        unfold decimalValue at hrest
        exact Char.toNat_inj.mp (by omega)
      rw [List.length_append, List.length_append] at hlen
      rw [ih (fun c hmem => hc c (List.mem_append_left _ hmem)) (fun d hmem => hd d (List.mem_append_left _ hmem))
        (by simpa using hlen) hrest, hlast]

theorem decimalValue_lt {cs : List Char} (h : ∀ c ∈ cs, c.isDigit = true) : decimalValue cs < 10 ^ cs.length := by
  induction cs using List.reverseRecOn with
  | nil => exact Nat.one_pos
  | append_singleton cs c ih =>
      have hc := digit_bounds (h c (by simp))
      have hcs := ih fun c hmem => h c (List.mem_append_left _ hmem)
      unfold decimalValue at hcs ⊢
      rw [List.foldl_append, List.foldl_cons, List.foldl_nil, List.length_append, List.length_singleton, pow_succ]
      omega

/-- The text of three numbers. -/
structure Spelled (day : String) (ys ms ds : List Char) : Prop where
  text : day.toList = ys ++ '-' :: ms ++ '-' :: ds
  lengths : ys.length = 4 ∧ ms.length = 2 ∧ ds.length = 2
  digits : ∀ c ∈ ys ++ ms ++ ds, c.isDigit = true

theorem splitDay_some {day : String} {date : ℕ × ℕ × ℕ} :
    splitDay day = some date ↔
      ∃ ys ms ds, Spelled day ys ms ds ∧ date = (decimalValue ys, decimalValue ms, decimalValue ds) := by
  unfold splitDay
  constructor
  · intro h
    split at h
    · rename_i y0 y1 y2 y3 m0 m1 d0 d1 htext
      split at h
      · rename_i hdigits
        refine ⟨[y0, y1, y2, y3], [m0, m1], [d0, d1], ⟨by simpa using htext, by simp, ?_⟩, (Option.some.inj h).symm⟩
        exact List.all_eq_true.mp hdigits
      · cases h
    · cases h
  · rintro ⟨ys, ms, ds, ⟨htext, ⟨hys, hms, hds⟩, hdigits⟩, rfl⟩
    obtain ⟨y0, y1, y2, y3, rfl⟩ := List.length_eq_four.mp hys
    obtain ⟨m0, m1, rfl⟩ := List.length_eq_two.mp hms
    obtain ⟨d0, d1, rfl⟩ := List.length_eq_two.mp hds
    have hlist : day.toList = [y0, y1, y2, y3, '-', m0, m1, '-', d0, d1] := by simpa using htext
    have hall : [y0, y1, y2, y3, m0, m1, d0, d1].all Char.isDigit = true := List.all_eq_true.mpr hdigits
    rw [hlist]
    simp only
    rw [if_pos hall]

theorem splitDay_inj {day day' : String} {date : ℕ × ℕ × ℕ} (h : splitDay day = some date) (h' : splitDay day' = some date) :
    day = day' := by
  obtain ⟨ys, ms, ds, hday, rfl⟩ := splitDay_some.mp h
  obtain ⟨ys', ms', ds', hday', heq⟩ := splitDay_some.mp h'
  obtain ⟨hy, hm, hd⟩ : decimalValue ys = decimalValue ys' ∧ decimalValue ms = decimalValue ms' ∧
      decimalValue ds = decimalValue ds' := by simpa using heq
  have hdigits := hday.digits
  have hdigits' := hday'.digits
  simp only [List.mem_append] at hdigits hdigits'
  have hys : ys = ys' := decimalValue_inj (fun c hc => hdigits c (.inl (.inl hc))) (fun c hc => hdigits' c (.inl (.inl hc)))
    (hday.lengths.1.trans hday'.lengths.1.symm) hy
  have hms : ms = ms' := decimalValue_inj (fun c hc => hdigits c (.inl (.inr hc))) (fun c hc => hdigits' c (.inl (.inr hc)))
    (hday.lengths.2.1.trans hday'.lengths.2.1.symm) hm
  have hds : ds = ds' := decimalValue_inj (fun c hc => hdigits c (.inr hc)) (fun c hc => hdigits' c (.inr hc))
    (hday.lengths.2.2.trans hday'.lengths.2.2.symm) hd
  rw [← String.toList_inj, hday.text, hday'.text, hys, hms, hds]

/-- A number of at most so many digits is written with exactly so many. -/
theorem exists_digits (k n : ℕ) (h : n < 10 ^ k) :
    ∃ cs : List Char, cs.length = k ∧ (∀ c ∈ cs, c.isDigit = true) ∧ decimalValue cs = n := by
  induction k generalizing n with
  | zero => exact ⟨[], rfl, by simp, by rw [pow_zero] at h; exact (Nat.lt_one_iff.mp h).symm⟩
  | succ k ih =>
      rw [pow_succ] at h
      obtain ⟨cs, hlen, hdigits, hvalue⟩ := ih (n / 10) (by omega)
      have hmod : n % 10 < 10 := Nat.mod_lt n (by decide)
      have hdigit : (n % 10).digitChar.isDigit = true := by simp [hmod]
      refine ⟨cs ++ [(n % 10).digitChar], by simp [hlen], ?_, ?_⟩
      · intro c hc
        rcases List.mem_append.mp hc with hc | hc
        · exact hdigits c hc
        · rw [List.mem_singleton.mp hc]
          exact hdigit
      · have hlast : (n % 10).digitChar.toNat = 48 + n % 10 := Nat.toNat_digitChar_of_lt_ten hmod
        unfold decimalValue at hvalue ⊢
        rw [List.foldl_append, hvalue, List.foldl_cons, List.foldl_nil, hlast]
        omega

/-! ## Days and milliseconds -/

/-- The text is the `n`-th day from 1970-01-01. -/
def IsDay (day : String) (n : ℕ) : Prop := utcDayBoundsMs day = .ok (n * dayMs, n * dayMs + dayMs)

/-- A date as it is written, and its day. -/
structure Written (day : String) (y m d : ℕ) (n : ℕ) : Prop where
  text : splitDay day = some (y, m, d)
  month : 1 ≤ m ∧ m ≤ 12
  date : Date (marchYear y m) (marchMonth m) d
  count : dayOf (marchYear y m) (marchMonth m) d = n + 719468

theorem utcDayBoundsMs_ok {day : String} {b : ℕ × ℕ} (h : utcDayBoundsMs day = .ok b) :
    ∃ y m d n, Written day y m d n ∧ b = (n * dayMs, n * dayMs + dayMs) := by
  unfold utcDayBoundsMs at h
  split at h
  · cases h
  · rename_i y m d htext
    split at h
    · cases h
    · rename_i hvalid
      simp only [not_or, not_not, not_lt] at hvalid
      obtain ⟨hmonth, hday, hlen⟩ := hvalid
      have hcivil := daysFromCivil_eq y m d
      simp only at h
      split at h
      · cases h
      · rename_i hrange
        cases h
        simp only [not_or, not_lt, not_le] at hrange
        have hcount := Int.toNat_of_nonneg hrange.1
        exact ⟨y, m, d, _, ⟨htext, hmonth, (date_iff y hmonth).mpr ⟨hday, hlen⟩, by omega⟩, rfl⟩

theorem Written.isDay {day : String} {y m d n : ℕ} (h : Written day y m d n) (hn : n < 2932897) : IsDay day n := by
  obtain ⟨hday, hlen⟩ := (date_iff y h.month).mp h.date
  have hcivil := daysFromCivil_eq y m d
  have hcount := h.count
  have hdays : daysFromCivil y m d = n := by omega
  have hvalid : ¬ (¬ (1 ≤ m ∧ m ≤ 12) ∨ d = 0 ∨ daysInMonth y m < d) := by
    simp only [not_or, not_not, not_lt]
    exact ⟨h.month, hday, hlen⟩
  have hrange : ¬ ((n : ℤ) < 0 ∨ 2 ^ 64 ≤ (n : ℤ).toNat * dayMs) := by
    simp only [Int.toNat_natCast, dayMs]
    omega
  unfold IsDay utcDayBoundsMs
  simp only [h.text, if_neg hvalid, hdays]
  rw [if_neg hrange, Int.toNat_natCast]

/-- A day that is accepted is a day from 1970-01-01. -/
theorem exists_isDay {day : String} {b : ℕ × ℕ} (h : utcDayBoundsMs day = .ok b) : ∃ n, IsDay day n := by
  obtain ⟨y, m, d, n, -, hb⟩ := utcDayBoundsMs_ok h
  exact ⟨n, by rw [IsDay, h, hb]⟩

theorem IsDay.written {day : String} {n : ℕ} (h : IsDay day n) : ∃ y m d, Written day y m d n := by
  obtain ⟨y, m, d, n', hwritten, hb⟩ := utcDayBoundsMs_ok h
  have hsame : n * dayMs = n' * dayMs := congrArg Prod.fst hb
  obtain rfl : n = n' := Nat.eq_of_mul_eq_mul_right (by decide) hsame
  exact ⟨y, m, d, hwritten⟩

/-- A day is written in one way. -/
theorem IsDay.inj {day day' : String} {n : ℕ} (h : IsDay day n) (h' : IsDay day' n) : day = day' := by
  obtain ⟨y, m, d, hw⟩ := h.written
  obtain ⟨y', m', d', hw'⟩ := h'.written
  obtain ⟨hyear, hmonth, hday⟩ := hw.date.unique hw'.date (hw.count.trans hw'.count.symm)
  have hm := hw.month
  have hm' := hw'.month
  have hmm : m = m' := by
    unfold marchMonth at hmonth
    omega
  subst hmm
  have hyy : y = y' := by
    unfold marchYear at hyear
    split at hyear
    · omega
    · omega
  have hdd : d = d' := by omega
  subst hyy hdd
  exact splitDay_inj hw.text hw'.text

/-- Every day before the year 10000 is written. -/
theorem exists_day {n : ℕ} (hn : n < 2932897) : ∃ day, IsDay day n := by
  obtain ⟨y, mp, d, hy, hdate, hcount⟩ := exists_date (n + 719468)
  have hmp := hdate.month
  have hd := hdate.day
  have hlen := hdate.inMonth
  have hbounds := hdate.bounds
  -- the month that starts the year in January, and its year
  obtain ⟨m, hm⟩ : ∃ m : ℕ, (m : ℤ) = if mp < 10 then mp + 3 else mp - 9 := ⟨(if mp < 10 then mp + 3 else mp - 9).toNat, by
    split
    · omega
    · omega⟩
  obtain ⟨year, hyear⟩ : ∃ year : ℕ, (year : ℤ) = if mp < 10 then y else y + 1 := ⟨(if mp < 10 then y else y + 1).toNat, by
    split
    · omega
    · omega⟩
  obtain ⟨dd, hdd⟩ : ∃ dd : ℕ, (dd : ℤ) = d := ⟨d.toNat, by omega⟩
  have hmonth : 1 ≤ m ∧ m ≤ 12 := by
    split at hm
    · omega
    · omega
  have hmarch : marchYear year m = y ∧ marchMonth m = mp := by
    unfold marchYear marchMonth
    split at hm
    · rename_i hlt
      rw [if_pos hlt] at hyear
      constructor
      · rw [if_neg (by omega)]
        exact hyear
      · omega
    · rename_i hge
      rw [if_neg hge] at hyear
      constructor
      · rw [if_pos (by omega)]
        omega
      · omega
  have hshort : year < 10000 := by
    push_cast at hcount
    unfold dayOf yearStart monthStart at hcount
    split at hyear
    · omega
    · omega
  have hdays : dd < 100 := by
    unfold monthStart at hlen
    omega
  obtain ⟨ys, hys, hydigits, hyvalue⟩ := exists_digits 4 year hshort
  obtain ⟨ms, hms, hmdigits, hmvalue⟩ := exists_digits 2 m (by omega)
  obtain ⟨ds, hds, hddigits, hdvalue⟩ := exists_digits 2 dd (by omega)
  have hspelled : Spelled (String.ofList (ys ++ '-' :: ms ++ '-' :: ds)) ys ms ds := by
    refine ⟨String.toList_ofList, ⟨hys, hms, hds⟩, ?_⟩
    intro c hc
    simp only [List.mem_append] at hc
    rcases hc with (hc | hc) | hc
    · exact hydigits c hc
    · exact hmdigits c hc
    · exact hddigits c hc
  refine ⟨_, Written.isDay ⟨splitDay_some.mpr ⟨ys, ms, ds, hspelled, rfl⟩, ?_, ?_, ?_⟩ hn⟩
  · rw [hmvalue]
    exact hmonth
  · rw [hyvalue, hmvalue, hdvalue, hmarch.1, hmarch.2, hdd]
    exact hdate
  · rw [hyvalue, hmvalue, hdvalue, hmarch.1, hmarch.2, hdd, hcount]
    push_cast
    rfl

/-- Days end with the year 9999. -/
theorem IsDay.lt {day : String} {n : ℕ} (h : IsDay day n) : n < 2932897 := by
  obtain ⟨y, m, d, hw⟩ := h.written
  obtain ⟨ys, ms, ds, hspelled, hdate⟩ := splitDay_some.mp hw.text
  have hyear : y < 10 ^ 4 := by
    rw [(Prod.mk.inj hdate).1, ← hspelled.lengths.1]
    exact decimalValue_lt fun c hc => hspelled.digits c (by simp [hc])
  have hmonth := hw.month
  have hin := hw.date.inMonth
  have hbounds := hw.date.bounds
  have hcount := hw.count
  unfold dayOf at hcount
  unfold marchYear marchMonth monthStart yearStart at *
  split at hcount
  · omega
  · omega

end AgentRuntime.Metering
