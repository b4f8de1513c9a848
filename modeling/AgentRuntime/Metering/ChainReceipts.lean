import AgentRuntime.Lib.Distinct
import AgentRuntime.Lib.Sha256
import AgentRuntime.Lib.TextSize
import AgentRuntime.Metering.Day

/-!
# `Metering.ChainReceipts` — the chain spend of a day (`agent-metering/src/chain_receipts.rs`)

Core reports each mined transaction as a receipt; the receipts read on a day are summed, the first report of a hash
only. The summary is a function of the facts of these first reports, in any order (`build_ok`, `summaryOf_perm`).
-/

namespace AgentRuntime.Metering

open Text Distinct

def u32Max : ℕ := 2 ^ 32 - 1

def u64Max : ℕ := 2 ^ 64 - 1

def u128Max : ℕ := 2 ^ 128 - 1

/-- What a transaction was for. -/
inductive ChainPurpose where
  | registryEscalation
  | anchor
  | benchmark
  | agent
deriving DecidableEq

/-- One mined transaction. -/
structure ChainReceipt where
  txHash : String
  purpose : ChainPurpose
  /-- When core read the receipt (the day it counts toward). -/
  minedUnixMs : ℕ
  status : ℕ
  gasUsed : ℕ
  effectiveGasPriceWei : String
  valueWei : String
deriving DecidableEq

def wei (s : String) : Option ℕ :=
  if s = "" ∨ 39 < s.utf8ByteSize ∨ s.toList.all Char.isDigit = false then none
  else if decimalValue s.toList ≤ u128Max then some (decimalValue s.toList)
  else none

namespace ChainReceipt

def hashOk (r : ChainReceipt) : Bool :=
  match r.txHash.toList with
  | '0' :: 'x' :: rest => rest.length == 64 && rest.all fun c => (Hex.digitValue? c).isSome
  | _ => false

/-- The receipt's shape. -/
def validate (r : ChainReceipt) : Except MeteringError Unit :=
  if r.hashOk = false then .error (.invalidReceipt "tx_hash must be 0x and 64 hex digits")
  else if 1 < r.status then .error (.invalidReceipt "status must be 0 or 1")
  else if wei r.effectiveGasPriceWei = none then
    .error (.invalidReceipt "effective_gas_price_wei must be a decimal amount")
  else if wei r.valueWei = none then .error (.invalidReceipt "value_wei must be a decimal amount")
  else .ok ()

/-- Gas used times the effective gas price, saturating. -/
def feeWei (r : ChainReceipt) : ℕ := min (r.gasUsed * (wei r.effectiveGasPriceWei).getD 0) u128Max

/-- The value that left the account. -/
def valueSpentWei (r : ChainReceipt) : ℕ := if r.status = 1 then (wei r.valueWei).getD 0 else 0

/-- The hash, in lower case. -/
def key (r : ChainReceipt) : List Char := asciiLower r.txHash.toList

def isValid (r : ChainReceipt) : Bool := r.validate == .ok ()

end ChainReceipt

/-! ## The summary of a day -/

structure ChainSpendSummary where
  day : String
  transactions : ℕ
  reverted : ℕ
  gasUsed : ℕ
  feeWei : String
  valueWei : String
  saltSpentWei : String
  /-- Transactions per purpose. -/
  byPurpose : String → Option ℕ

def purposeKey : ChainPurpose → String
  | .registryEscalation => "registry_escalation"
  | .anchor => "anchor"
  | .benchmark => "benchmark"
  | .agent => "agent"

/-- The state of the loop. -/
@[ext]
structure Tally where
  seen : List (List Char)
  transactions : ℕ
  reverted : ℕ
  gasUsed : ℕ
  fee : ℕ
  value : ℕ
  byPurpose : String → Option ℕ

def Tally.empty : Tally where
  seen := []
  transactions := 0
  reverted := 0
  gasUsed := 0
  fee := 0
  value := 0
  byPurpose _ := none

/-- One receipt of the day; a hash seen before is skipped. -/
def Tally.add (t : Tally) (r : ChainReceipt) : Tally :=
  if r.key ∈ t.seen then t
  else
    let k := purposeKey r.purpose
    { seen := r.key :: t.seen
      transactions := satAdd u32Max t.transactions 1
      reverted := if r.status = 0 then satAdd u32Max t.reverted 1 else t.reverted
      gasUsed := satAdd u64Max t.gasUsed r.gasUsed
      fee := satAdd u128Max t.fee r.feeWei
      value := satAdd u128Max t.value r.valueSpentWei
      byPurpose := Function.update t.byPurpose k (some (satAdd u32Max ((t.byPurpose k).getD 0) 1)) }

def Tally.summary (t : Tally) (day : String) : ChainSpendSummary where
  day := day
  transactions := t.transactions
  reverted := t.reverted
  gasUsed := t.gasUsed
  feeWei := toString t.fee
  valueWei := toString t.value
  saltSpentWei := toString (satAdd u128Max t.fee t.value)
  byPurpose := t.byPurpose

/-- Sum the distinct receipts read on `day`. -/
def build (day : String) (receipts : List ChainReceipt) : Except MeteringError ChainSpendSummary := do
  let (start, stop) ← utcDayBoundsMs day
  let read := receipts.filter fun r => start ≤ r.minedUnixMs && r.minedUnixMs < stop && r.isValid
  return (read.foldl Tally.add .empty).summary day

/-! ## The summary as a function of the facts -/

/-- What is summed of a receipt. -/
structure Facts where
  reverted : Bool
  gasUsed : ℕ
  fee : ℕ
  value : ℕ
  purpose : ChainPurpose
deriving DecidableEq

def ChainReceipt.facts (r : ChainReceipt) : Facts where
  reverted := r.status = 0
  gasUsed := r.gasUsed
  fee := r.feeWei
  value := r.valueSpentWei
  purpose := r.purpose

/-- How many of the facts are of this purpose. -/
def ofPurpose (fs : List Facts) (k : String) : ℕ := fs.countP fun f => purposeKey f.purpose = k

/-- The sums over the facts, saturated. -/
def tallyOf (seen : List (List Char)) (fs : List Facts) : Tally where
  seen := seen
  transactions := min fs.length u32Max
  reverted := min (fs.countP Facts.reverted) u32Max
  gasUsed := min (fs.map Facts.gasUsed).sum u64Max
  fee := min (fs.map Facts.fee).sum u128Max
  value := min (fs.map Facts.value).sum u128Max
  byPurpose k := if ofPurpose fs k = 0 then none else some (min (ofPurpose fs k) u32Max)

theorem tallyOf_concat (seen : List (List Char)) (fs : List Facts) {r : ChainReceipt} (h : r.key ∉ seen) :
    (tallyOf seen fs).add r = tallyOf (r.key :: seen) (fs ++ [r.facts]) := by
  have hpurpose : Function.update (tallyOf seen fs).byPurpose (purposeKey r.purpose)
      (some (satAdd u32Max (((tallyOf seen fs).byPurpose (purposeKey r.purpose)).getD 0) 1)) =
        (tallyOf (r.key :: seen) (fs ++ [r.facts])).byPurpose := by
    funext k
    have hcount : ofPurpose (fs ++ [r.facts]) k = ofPurpose fs k + if purposeKey r.purpose = k then 1 else 0 := by
      simp [ofPurpose, List.countP_append, List.countP_singleton, ChainReceipt.facts]
    simp only [tallyOf, hcount]
    by_cases hk : k = purposeKey r.purpose
    · subst hk
      rw [Function.update_self, if_pos rfl, if_neg (Nat.succ_ne_zero _), ← satAdd_min]
      congr 2
      split
      · rename_i hzero
        simp [hzero]
      · rfl
    · rw [Function.update_of_ne hk, if_neg (Ne.symm hk), Nat.add_zero]
  have hseen : r.key ∉ (tallyOf seen fs).seen := h
  have hsum (f : Facts → ℕ) : ((fs ++ [r.facts]).map f).sum = (fs.map f).sum + f r.facts := by simp
  unfold Tally.add
  rw [if_neg hseen]
  refine Tally.ext rfl ?_ ?_ ?_ ?_ ?_ hpurpose
  · show satAdd u32Max (min fs.length u32Max) 1 = min (fs ++ [r.facts]).length u32Max
    rw [satAdd_min, List.length_append, List.length_singleton]
  · show (if r.status = 0 then satAdd u32Max (min (fs.countP Facts.reverted) u32Max) 1
      else min (fs.countP Facts.reverted) u32Max) = min ((fs ++ [r.facts]).countP Facts.reverted) u32Max
    rw [satAdd_min, List.countP_append, List.countP_singleton]
    by_cases hstatus : r.status = 0
    · simp [ChainReceipt.facts, hstatus]
    · simp [ChainReceipt.facts, hstatus]
  · show satAdd u64Max (min (fs.map Facts.gasUsed).sum u64Max) r.gasUsed = _
    rw [satAdd_min]
    exact congrArg (min · u64Max) (hsum Facts.gasUsed).symm
  · show satAdd u128Max (min (fs.map Facts.fee).sum u128Max) r.feeWei = _
    rw [satAdd_min]
    exact congrArg (min · u128Max) (hsum Facts.fee).symm
  · show satAdd u128Max (min (fs.map Facts.value).sum u128Max) r.valueSpentWei = _
    rw [satAdd_min]
    exact congrArg (min · u128Max) (hsum Facts.value).symm

theorem foldl_add (rs : List ChainReceipt) (seen : List (List Char)) (fs : List Facts) :
    ∃ seen', rs.foldl Tally.add (tallyOf seen fs) =
      tallyOf seen' (fs ++ (firsts ChainReceipt.key seen rs).map ChainReceipt.facts) := by
  induction rs generalizing seen fs with
  | nil => exact ⟨seen, by simp [firsts]⟩
  | cons r rs ih =>
      rw [List.foldl_cons, firsts]
      by_cases hseen : r.key ∈ seen
      · have hskip : (tallyOf seen fs).add r = tallyOf seen fs := if_pos hseen
        rw [if_pos hseen, hskip]
        exact ih seen fs
      · rw [if_neg hseen, tallyOf_concat seen fs hseen]
        obtain ⟨seen', hfold⟩ := ih (r.key :: seen) (fs ++ [r.facts])
        refine ⟨seen', ?_⟩
        rw [hfold, List.map_cons, List.append_assoc]
        rfl

/-- The summary of a day from the facts of its transactions. -/
def summaryOf (day : String) (fs : List Facts) : ChainSpendSummary := (tallyOf [] fs).summary day

/-- The receipts of the `n`-th day. -/
def onDay (n : ℕ) (r : ChainReceipt) : Bool := r.minedUnixMs / dayMs = n

/-- The summary is the one of the first reports of the day. -/
theorem build_ok {day : String} {n : ℕ} (hday : IsDay day n) {receipts : List ChainReceipt}
    (hvalid : ∀ r ∈ receipts, r.validate = .ok ()) :
    build day receipts =
      .ok (summaryOf day ((firsts ChainReceipt.key [] (receipts.filter (onDay n))).map ChainReceipt.facts)) := by
  have hread : (receipts.filter fun r => n * dayMs ≤ r.minedUnixMs && r.minedUnixMs < n * dayMs + dayMs && r.isValid) =
      receipts.filter (onDay n) := by
    apply List.filter_congr
    intro r hr
    have hok : r.isValid = true := by
      rw [ChainReceipt.isValid, hvalid r hr]
      rfl
    rw [hok, Bool.and_true, onDay, Bool.eq_iff_iff, Bool.and_eq_true, decide_eq_true_eq, decide_eq_true_eq,
      decide_eq_true_eq, Nat.div_eq_iff (by decide)]
    unfold dayMs
    omega
  obtain ⟨seen, hfold⟩ := foldl_add (receipts.filter (onDay n)) [] []
  have hempty : Tally.empty = tallyOf [] [] := by
    refine Tally.ext rfl rfl rfl rfl rfl rfl ?_
    funext k
    rfl
  unfold build
  rw [hday]
  show Except.ok (((receipts.filter fun r => n * dayMs ≤ r.minedUnixMs && r.minedUnixMs < n * dayMs + dayMs &&
    r.isValid).foldl Tally.add .empty).summary day) = _
  rw [hread, hempty, hfold]
  rfl

theorem build_error {day : String} {e : MeteringError} (h : utcDayBoundsMs day = .error e) (receipts : List ChainReceipt) :
    build day receipts = .error e := by
  unfold build
  rw [h]
  rfl

/-- The order of the facts does not matter. -/
theorem summaryOf_perm {day : String} {fs gs : List Facts} (h : fs.Perm gs) : summaryOf day fs = summaryOf day gs := by
  have hpurpose (k : String) : ofPurpose fs k = ofPurpose gs k := h.countP_eq _
  have htally : tallyOf [] fs = tallyOf [] gs := by
    refine Tally.ext rfl ?_ ?_ ?_ ?_ ?_ ?_
    · exact congrArg (min · u32Max) h.length_eq
    · exact congrArg (min · u32Max) (h.countP_eq _)
    · exact congrArg (min · u64Max) (h.map _).sum_eq
    · exact congrArg (min · u128Max) (h.map _).sum_eq
    · exact congrArg (min · u128Max) (h.map _).sum_eq
    · funext k
      simp only [tallyOf, hpurpose]
  rw [summaryOf, htally, summaryOf]

/-! ## Amounts as texts -/

theorem wei_toString {n : ℕ} (h : n ≤ u128Max) : wei (toString n) = some n := by
  have hlist : (toString n).toList = Nat.toDigits 10 n := by rw [Nat.toString_eq_repr, Nat.toList_repr]
  have hne : toString n ≠ "" := by
    intro hempty
    rw [hempty] at hlist
    exact Nat.toDigits_ne_nil hlist.symm
  have hsize : (toString n).utf8ByteSize ≤ 39 :=
    utf8ByteSize_repr_le (by decide) (lt_of_le_of_lt h (by decide))
  have hdigits : (toString n).toList.all Char.isDigit = true := by
    rw [hlist, List.all_eq_true]
    exact fun c hc => Nat.isDigit_of_mem_toDigits (by decide) (by decide) hc
  have hshape : ¬ (toString n = "" ∨ 39 < (toString n).utf8ByteSize ∨ (toString n).toList.all Char.isDigit = false) := by
    rw [hdigits]
    simp only [Bool.true_eq_false, or_false, not_or, not_lt]
    exact ⟨hne, hsize⟩
  rw [wei, if_neg hshape, hlist, decimalValue_toDigits, if_pos h]

end AgentRuntime.Metering
