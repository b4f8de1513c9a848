import AgentRuntime.Anchor.Calldata
import AgentRuntime.Anchor.Ledger
import AgentRuntime.Records.Walk

/-!
# `Anchor.Nightly` — the nightly job's decisions (`agent-anchor/src/nightly.rs`)

`plan_day` decides what to anchor for one closed day. For a day that is batched already it rebuilds the batch from the
records and compares commitments: a log that was rewritten since is a conflict.

The days of a verified chain are contiguous runs (`dayRecords_contiguous`), so the batch of a day with records always
rebuilds. `notices_rewrite_iff` says when the recheck notices a rewritten log: whenever a record of the day is left.
-/

namespace AgentRuntime.Anchor

open Words Records Records.Merkle

/-! ## The retained records -/

/-- Every retained record as a leaf, plus where pruning stopped. -/
structure RetainedLeaves where
  leaves : List RetainedLeaf
  prunedThroughMs : Option ℕ

def retainedLeaf (r : StoredRecord) : Except Records.Error RetainedLeaf := do
  let hash ← r.hashRaw
  pure { seq := r.record.seq, tsMs := r.record.tsMs, hash := hash }

/-- What the nightly job should do about one closed day. -/
inductive NightlyPlan where
  /-- The day has no records. -/
  | empty (day : ℕ)
  /-- Every retained record of the day is gone and some were pruned before batching. -/
  | pruned (day : ℕ)
  /-- Some of the day's records were pruned before batching; reported, never anchored. -/
  | incomplete (day retained : ℕ)
  /-- The day's batch is fixed; `call` is for the core ceremony. -/
  | ready (header : BatchHeader) (commitment : Digest) (call : UnsignedAnchorCall) (newlyRecorded : Bool)
  | alreadyAnchored (entry : LedgerEntry)

def NightlyPlan.isReady : NightlyPlan → Bool
  | .ready _ _ _ _ => true
  | _ => false

section

variable (sha256 : List UInt8 → Digest) (serde : Serde)

/-- Every retained record, after verifying the chain. -/
def retainedLeaves (v : View) : Except Records.Error RetainedLeaves := do
  let (walked, visited) ← walk sha256 serde v .live
  let leaves ← visited.mapM retainedLeaf
  pure { leaves := leaves, prunedThroughMs := walked.checkpoint.map Checkpoint.tsMs }

def ready (header : BatchHeader) (registry : Option String) (newlyRecorded : Bool) : NightlyPlan :=
  let commitment := header.commitment sha256
  .ready header commitment (.nightly commitment registry) newlyRecorded

/-! ## Planning a day -/

/-- A day the ledger has settled: confirmed, or reported as incomplete. -/
def settledPlan (day : ℕ) : Option LedgerEntry → Option NightlyPlan
  | none => none
  | some e =>
      if e.confirmed.isSome then some (.alreadyAnchored e)
      else if e.status = .incomplete then some (.incomplete day e.count)
      else none

/-- A day that is batched already: rechecked when its records are all still there. -/
def planBatched (ledger : JsonFile LedgerFile) (day : ℕ) (registry : Option String) (header : BatchHeader)
    (batch : Option DayBatch) (prunedInto : Bool) : Except Error (NightlyPlan × JsonFile LedgerFile) :=
  match batch, prunedInto with
  | some b, false =>
      if b.commitment sha256 ≠ header.commitment sha256 then .error (.conflict day)
      else .ok (ready sha256 header registry false, ledger)
  | _, _ => .ok (ready sha256 header registry false, ledger)

/-- A day the ledger does not know: its batch, or the incomplete report, is recorded. -/
def planNew (ledger : JsonFile LedgerFile) (day nowMs : ℕ) (registry : Option String) (batch : Option DayBatch)
    (prunedInto : Bool) : Except Error (NightlyPlan × JsonFile LedgerFile) :=
  match batch, prunedInto with
  | none, true => .ok (.pruned day, ledger)
  | none, false => .ok (.empty day, ledger)
  | some b, true => do
      let (_, ledger) ← recordIncomplete sha256 ledger day b.header.firstSeq b.header.lastSeq nowMs
      pure (.incomplete day b.header.count, ledger)
  | some b, false => do
      let (_, ledger) ← recordBatched sha256 ledger b.header nowMs
      pure (ready sha256 b.header registry true, ledger)

/-- The part of `plan_day` that reads the records. -/
def planRecords (v : View) (ledger : JsonFile LedgerFile) (day nowMs : ℕ) (registry : Option String)
    (existing : Option LedgerEntry) : Except Error (NightlyPlan × JsonFile LedgerFile) := do
  let ret ← (retainedLeaves sha256 serde v).mapError Error.records
  let prunedInto := ret.prunedThroughMs.any fun t => decide (day ≤ utcDay t)
  let batch ← buildDayBatch sha256 day ret.leaves
  match existing.bind LedgerEntry.header with
  | some header => planBatched sha256 ledger day registry header batch prunedInto
  | none => planNew sha256 ledger day nowMs registry batch prunedInto

/-- The registry address, when given, is well formed. -/
def checkRegistry : Option String → Except Error Unit
  | some registry => checkAddress registry
  | none => .ok ()

/-- Plan UTC day `day` at wall-clock `nowMs`. Returns the plan and the ledger file it leaves. -/
def planDay (v : View) (ledger : JsonFile LedgerFile) (day nowMs : ℕ) (registry : Option String) :
    Except Error (NightlyPlan × JsonFile LedgerFile) :=
  if utcDay nowMs ≤ day then .error (.dayNotClosed day (utcDay nowMs))
  else do
    checkRegistry registry
    let existing ← getEntry sha256 ledger day
    match settledPlan day existing with
    | some plan => .ok (plan, ledger)
    | none => planRecords sha256 serde v ledger day nowMs registry existing

end

/-! ## The days of a chain -/

variable {sha256 : List UInt8 → Digest} {serde : Serde}

/-- A list in order of `key`, at one key: what comes before, the run of that key, and what comes after. -/
theorem exists_run {α : Type} (key : α → ℕ) (d : ℕ) {xs : List α}
    (hsorted : xs.Pairwise fun a b => key a ≤ key b) :
    ∃ before after, xs = before ++ (xs.filter fun x => key x == d) ++ after ∧
      (∀ x ∈ before, key x < d) ∧ ∀ x ∈ after, d < key x := by
  induction xs with
  | nil => exact ⟨[], [], rfl, nofun, nofun⟩
  | cons a xs ih =>
      obtain ⟨hle, hrest⟩ := List.pairwise_cons.mp hsorted
      obtain ⟨before, after, hxs, hbefore, hafter⟩ := ih hrest
      have hnil (h : d ≤ key a) : before = [] := by
        cases before with
        | nil => rfl
        | cons x before =>
            have hx : x ∈ xs := by
              rw [hxs, List.append_assoc]
              exact List.mem_append_left _ List.mem_cons_self
            have hlt := hbefore x List.mem_cons_self
            have hge := hle x hx
            omega
      rcases lt_trichotomy (key a) d with hlt | heq | hgt
      · refine ⟨a :: before, after, ?_, List.forall_mem_cons.mpr ⟨hlt, hbefore⟩, hafter⟩
        rw [List.filter_cons_of_neg (by simpa using hlt.ne), List.cons_append, List.cons_append, ← hxs]
      · refine ⟨[], after, ?_, nofun, hafter⟩
        rw [List.filter_cons_of_pos (by simpa using heq), List.nil_append, List.cons_append]
        rw [hnil heq.ge, List.nil_append] at hxs
        rw [← hxs]
      · -- everything that follows is later, too
        have hlater : ∀ x ∈ xs, d < key x := fun x hx => hgt.trans_le (hle x hx)
        have hfilter : (a :: xs).filter (fun x => key x == d) = [] := by
          rw [List.filter_eq_nil_iff]
          intro x hx
          rcases List.mem_cons.mp hx with rfl | hx
          · simpa using hgt.ne'
          · simpa using (hlater x hx).ne'
        refine ⟨[], a :: xs, ?_, nofun, List.forall_mem_cons.mpr ⟨hgt, hlater⟩⟩
        rw [hfilter]
        rfl

/-- The leaves of the records of a chain. -/
def leavesOf (sha256 : List UInt8 → Digest) (rs : List StoredRecord) : List RetainedLeaf :=
  rs.map fun r => { seq := r.record.seq, tsMs := r.record.tsMs, hash := r.record.hashBytes sha256 }

theorem mapM_retainedLeaf {c : Cursor} {rs : List StoredRecord} (h : (recordChain sha256).Accepts c rs) :
    rs.mapM retainedLeaf = .ok (leavesOf sha256 rs) := by
  induction rs generalizing c with
  | nil => rfl
  | cons r rs ih =>
      obtain ⟨hadm, hrest⟩ := accepts_cons_iff.mp h
      have hleaf : retainedLeaf r = .ok
          { seq := r.record.seq, tsMs := r.record.tsMs, hash := r.record.hashBytes sha256 } := by
        unfold retainedLeaf
        rw [hashRaw_of_matches hadm.hash]
        rfl
      rw [List.mapM_cons, hleaf, ih hrest]
      rfl

/-- **The records of a day are a contiguous run** of `seq`, since timestamps never go backwards. -/
theorem dayRecords_contiguous {c : Cursor} {rs : List StoredRecord} (h : (recordChain sha256).Accepts c rs)
    (day : ℕ) :
    ∃ first, (dayLeaves day (leavesOf sha256 rs)).map RetainedLeaf.seq =
        List.range' first (dayLeaves day (leavesOf sha256 rs)).length ∧
      first + (dayLeaves day (leavesOf sha256 rs)).length ≤ c.nextSeq + rs.length := by
  have hseqs : (leavesOf sha256 rs).map RetainedLeaf.seq = List.range' c.nextSeq rs.length := by
    rw [← map_seq_of_accepts h, leavesOf, List.map_map]
    rfl
  have hsorted : (leavesOf sha256 rs).Pairwise fun a b => utcDay a.tsMs ≤ utcDay b.tsMs := by
    have hts := (sorted_ts_of_accepts h).1
    rw [List.pairwise_map] at hts
    exact List.pairwise_map.mpr (hts.imp fun hle => utcDay_mono hle)
  obtain ⟨before, after, hsplit, -, -⟩ := exists_run (fun l : RetainedLeaf => utcDay l.tsMs) day hsorted
  have hlen : (leavesOf sha256 rs).length = rs.length := by
    rw [leavesOf, List.length_map]
  change _ = before ++ dayLeaves day (leavesOf sha256 rs) ++ after at hsplit
  generalize dayLeaves day (leavesOf sha256 rs) = ls at hsplit ⊢
  have htotal : before.length + ls.length + after.length = rs.length := by
    rw [← hlen, hsplit, List.length_append, List.length_append]
  refine ⟨c.nextSeq + before.length, ?_, by omega⟩
  rw [hsplit, List.map_append, List.map_append, ← htotal, ← List.range'_append_1, ← List.range'_append_1] at hseqs
  obtain ⟨hfront, -⟩ := List.append_inj' hseqs (by simp)
  exact (List.append_inj' hfront (by simp)).2

/-- **A day of a verified chain builds** when it has a record. -/
theorem buildDayBatch_chain {c : Cursor} {rs : List StoredRecord} (h : (recordChain sha256).Accepts c rs)
    (hseq : ∀ r ∈ rs, r.record.seq < u64Bound) {day : ℕ} (hne : dayLeaves day (leavesOf sha256 rs) ≠ []) :
    ∃ b, buildDayBatch sha256 day (leavesOf sha256 rs) = .ok (some b) := by
  obtain ⟨first, hseqs, hle⟩ := dayRecords_contiguous h day
  have hbound : first + (dayLeaves day (leavesOf sha256 rs)).length ≤ u64Bound := by
    have hrs : rs ≠ [] := by
      rintro rfl
      exact hne rfl
    have hpos := List.length_pos_of_ne_nil hrs
    have hlast := seq_getElem h (Nat.sub_lt hpos Nat.one_pos)
    have hlt := hseq _ (List.getElem_mem (Nat.sub_lt hpos Nat.one_pos))
    omega
  obtain ⟨b, hb, -⟩ := buildDayBatch_contiguous sha256 day hne hseqs hbound
  exact ⟨b, hb⟩

theorem buildDayBatch_nil {day : ℕ} {leaves : List RetainedLeaf} (h : dayLeaves day leaves = []) :
    buildDayBatch sha256 day leaves = .ok none := by
  unfold buildDayBatch
  unfold dayLeaves at h
  rw [h]

/-! ## A log that verifies -/

theorem walkSegs_live_of_strict {head : Option Head} {checkpoint : Option Checkpoint}
    {segs : List (ℕ × Option (List UInt8))} {st st' : WalkState}
    (h : walkSegs sha256 serde head checkpoint .strict segs st = .ok st') :
    walkSegs sha256 serde head checkpoint .live segs st = .ok st' := by
  induction segs generalizing st with
  | nil => exact h
  | cons s segs ih =>
      obtain ⟨index, bytes⟩ := s
      obtain ⟨st₁, hseg, hrest⟩ := Except.bind_eq_ok.mp h
      obtain ⟨seg, hread, hseg⟩ := Except.bind_eq_ok.mp hseg
      obtain ⟨w, htorn, hseg⟩ := Except.bind_eq_ok.mp hseg
      -- a strict walk has seen no incomplete line
      have htorn' : checkTorn .live segs.isEmpty index seg.torn st.w = .ok w := by
        unfold checkTorn at htorn ⊢
        split at htorn
        · exact htorn
        · cases htorn
      refine Except.bind_eq_ok.mpr ⟨st₁, ?_, ih hrest⟩
      exact Except.bind_eq_ok.mpr ⟨seg, hread, Except.bind_eq_ok.mpr ⟨w, htorn', hseg⟩⟩

theorem checkHead_live_of_strict {head : Option Head} {checkpoint : Option Checkpoint}
    {tip : Option (ℕ × String × ℕ)} {hash : Option String} {lag : Bool}
    (h : checkHead .strict head checkpoint tip hash = .ok lag) : checkHead .live head checkpoint tip hash = .ok lag := by
  unfold checkHead at h ⊢
  split at h
  · exact h
  · exact h
  · exact h
  · rename_i hd t tipHash ts
    simp only [ne_eq, reduceCtorEq, not_false_eq_true, and_true, not_true_eq_false, and_false, if_false] at h ⊢
    split at h
    · cases h
    · rename_i hgt
      rw [if_neg hgt]
      split at h
      · cases h
      · split at h
        · cases h
        · rename_i hhash
          rw [if_neg hhash]
          split at h
          · cases h
          · rename_i htip
            rw [if_neg htip]
            split at h
            · cases h
            · exact h

/-- A directory that `verify_dir` accepts is one whose retained leaves can be read. -/
theorem walk_live_of_strict {v : View} {walked : Walked} {visited : List StoredRecord}
    (h : walk sha256 serde v .strict = .ok (walked, visited)) :
    walk sha256 serde v .live = .ok (walked, visited) := by
  obtain ⟨head, hhead, h⟩ := Except.bind_eq_ok.mp h
  obtain ⟨checkpoint, hcp, h⟩ := Except.bind_eq_ok.mp h
  obtain ⟨st, hsegs, h⟩ := Except.bind_eq_ok.mp h
  obtain ⟨lag, hcheck, h⟩ := Except.bind_eq_ok.mp h
  refine Except.bind_eq_ok.mpr ⟨head, hhead, Except.bind_eq_ok.mpr ⟨checkpoint, hcp, ?_⟩⟩
  refine Except.bind_eq_ok.mpr ⟨st, walkSegs_live_of_strict hsegs, ?_⟩
  exact Except.bind_eq_ok.mpr ⟨lag, checkHead_live_of_strict hcheck, h⟩

/-! ## A rewritten log -/

/-- The records of the day rebuild the commitment. -/
def Rebuilds (sha256 : List UInt8 → Digest) (day : ℕ) (commitment : Option Digest) (rs : List StoredRecord) : Prop :=
  ∃ b, buildDayBatch sha256 day (leavesOf sha256 rs) = .ok (some b) ∧ commitment = some (b.commitment sha256)

/-- **A rewritten log is noticed**: the plan is ready if and only if the records of the day rebuild the recorded
    commitment, and a conflict otherwise. -/
structure NoticesRewrite (sha256 : List UInt8 → Digest) (day : ℕ) (commitment : Option Digest)
    (rs : List StoredRecord) (plan : Except Error (NightlyPlan × JsonFile LedgerFile)) : Prop where
  ready : (∃ p file, plan = .ok (p, file) ∧ p.isReady = true) ↔ Rebuilds sha256 day commitment rs
  conflict : ¬ Rebuilds sha256 day commitment rs → plan = .error (.conflict day)

/-- The day is over, the registry address can be used, and the log has a record of the day. -/
structure Recheckable (day nowMs : ℕ) (registry : Option String) (rs : List StoredRecord) : Prop where
  closed : day < utcDay nowMs
  address : checkRegistry registry = .ok ()
  record : ∃ r ∈ rs, utcDay r.record.tsMs = day

section

variable {v : View} {walked : Walked} {visited : List StoredRecord} {ledger : JsonFile LedgerFile}
  {es : List LedgerEntry} {e : LedgerEntry} {nowMs : ℕ} {registry : Option String}

theorem checkRegistry_cases (registry : Option String) :
    checkRegistry registry = .ok () ∨ ∃ why, checkRegistry registry = .error (.badCalldata why) := by
  cases registry with
  | none => exact .inl rfl
  | some address =>
      simp only [checkRegistry, checkAddress]
      split
      · exact .inr ⟨_, rfl⟩
      · split
        · exact .inl rfl
        · exact .inr ⟨_, rfl⟩

theorem retainedLeaves_eq (hwalk : walk sha256 serde v .live = .ok (walked, visited)) :
    retainedLeaves sha256 serde v = .ok
      { leaves := leavesOf sha256 visited, prunedThroughMs := walked.checkpoint.map Checkpoint.tsMs } := by
  obtain ⟨_, _, _, _, _, -, -, -, hacc, -⟩ := walk_sound hwalk
  unfold retainedLeaves
  rw [hwalk]
  show (visited.mapM retainedLeaf >>= _) = _
  rw [mapM_retainedLeaf hacc]
  rfl

/-- The header of a batched entry of a valid ledger, and its commitment. -/
theorem ValidEntries.batched_header (hvalid : ValidEntries sha256 es) (he : e ∈ es) (hstatus : e.status = .batched) :
    ∃ header, e.header = some header ∧ e.commitment = some (header.commitment sha256) := by
  have hchecked := hvalid.checked e he
  unfold checkEntry at hchecked
  split at hchecked
  · cases hchecked
  · rw [hstatus] at hchecked
    simp only at hchecked
    cases hheader : e.header with
    | none =>
        rw [hheader] at hchecked
        cases hchecked
    | some header =>
        rw [hheader] at hchecked
        simp only at hchecked
        split at hchecked
        · rename_i hok
          exact ⟨header, rfl, hok.2⟩
        · cases hchecked

/-- What `plan_day` does for a closed day that is batched and not confirmed. -/
theorem planDay_batched (hwalk : walk sha256 serde v .live = .ok (walked, visited)) (hholds : Holds ledger es)
    (hvalid : ValidEntries sha256 es) (he : e ∈ es) (hstatus : e.status = .batched) (hopen : e.confirmed = none)
    (hclosed : e.day < utcDay nowMs) (haddress : checkRegistry registry = .ok ()) :
    ∃ header, e.header = some header ∧ e.commitment = some (header.commitment sha256) ∧
      planDay sha256 serde v ledger e.day nowMs registry =
        (buildDayBatch sha256 e.day (leavesOf sha256 visited) >>= fun batch =>
          planBatched sha256 ledger e.day registry header batch
            ((walked.checkpoint.map Checkpoint.tsMs).any fun t => decide (e.day ≤ utcDay t))) := by
  obtain ⟨header, hheader, hcommitment⟩ := hvalid.batched_header he hstatus
  have hget : getEntry sha256 ledger e.day = .ok (some e) := by
    unfold getEntry
    rw [load_of_holds hholds hvalid]
    show Except.ok (es.find? fun x => x.day == e.day) = _
    rw [find_day hvalid he]
  have hsettled : settledPlan e.day (some e) = none := by
    simp only [settledPlan, hopen, hstatus, Option.isSome_none, Bool.false_eq_true, reduceCtorEq, if_false]
  refine ⟨header, hheader, hcommitment, ?_⟩
  unfold planDay
  rw [if_neg (Nat.not_le.mpr hclosed)]
  show (checkRegistry registry >>= _) = _
  rw [haddress]
  show (getEntry sha256 ledger e.day >>= _) = _
  rw [hget]
  show (match settledPlan e.day (some e) with
    | some plan => _
    | none => planRecords sha256 serde v ledger e.day nowMs registry (some e)) = _
  rw [hsettled]
  show planRecords sha256 serde v ledger e.day nowMs registry (some e) = _
  unfold planRecords
  rw [retainedLeaves_eq hwalk]
  show (buildDayBatch sha256 e.day (leavesOf sha256 visited) >>= _) = _
  rw [Option.bind_some, hheader]

/-- **When the recheck notices a rewritten log.** For a batched, unconfirmed day of a valid ledger, and a verified log
    whose checkpoint, if any, lies on an earlier day. -/
theorem notices_rewrite_iff (hwalk : walk sha256 serde v .live = .ok (walked, visited))
    (hseq : ∀ r ∈ visited, r.record.seq < u64Bound)
    (hcheckpoint : ∀ cp ∈ walked.checkpoint, utcDay cp.tsMs < e.day) (hholds : Holds ledger es)
    (hvalid : ValidEntries sha256 es) (he : e ∈ es) (hstatus : e.status = .batched) (hopen : e.confirmed = none) :
    NoticesRewrite sha256 e.day e.commitment visited (planDay sha256 serde v ledger e.day nowMs registry) ↔
      Recheckable e.day nowMs registry visited := by
  obtain ⟨_, _, _, _, _, -, -, -, hacc, -⟩ := walk_sound hwalk
  have hrecord : (∃ r ∈ visited, utcDay r.record.tsMs = e.day) ↔
      dayLeaves e.day (leavesOf sha256 visited) ≠ [] := by
    unfold dayLeaves leavesOf
    rw [ne_eq, List.filter_eq_nil_iff]
    simp
  have hpruned : ((walked.checkpoint.map Checkpoint.tsMs).any fun t => decide (e.day ≤ utcDay t)) = false := by
    cases hcp : walked.checkpoint with
    | none => rfl
    | some cp =>
        have hlt := hcheckpoint cp hcp
        simpa using hlt
  -- a call that fails for another reason tells nothing about the log
  have hfails {err : Error} (hne : err ≠ .conflict e.day) :
      ¬ NoticesRewrite sha256 e.day e.commitment visited (.error err) := by
    intro h
    by_cases hrebuilds : Rebuilds sha256 e.day e.commitment visited
    · obtain ⟨_, _, hplan, -⟩ := h.ready.mpr hrebuilds
      cases hplan
    · exact hne (Except.error.inj (h.conflict hrebuilds))
  by_cases hclosed : e.day < utcDay nowMs
  swap
  · have hplan : planDay sha256 serde v ledger e.day nowMs registry = .error (.dayNotClosed e.day (utcDay nowMs)) :=
      if_pos (Nat.not_lt.mp hclosed)
    rw [hplan]
    exact iff_of_false (hfails nofun) fun h => hclosed h.closed
  rcases checkRegistry_cases registry with haddress | ⟨why, hbad⟩
  swap
  · have hplan : planDay sha256 serde v ledger e.day nowMs registry = .error (.badCalldata why) := by
      unfold planDay
      rw [if_neg (Nat.not_le.mpr hclosed), hbad]
      rfl
    rw [hplan]
    exact iff_of_false (hfails nofun) fun h => nomatch hbad.symm.trans h.address
  obtain ⟨header, -, hcommitment, hplan⟩ := @planDay_batched sha256 serde v walked visited ledger es e nowMs registry
    hwalk hholds hvalid he hstatus hopen hclosed haddress
  rw [hplan, hpruned]
  by_cases hne : dayLeaves e.day (leavesOf sha256 visited) = []
  · -- No record of the day is left: the recheck is skipped.
    rw [buildDayBatch_nil hne]
    have hnot : ¬ Rebuilds sha256 e.day e.commitment visited := by
      rintro ⟨b, hb, -⟩
      rw [buildDayBatch_nil hne] at hb
      cases hb
    refine iff_of_false (fun h => ?_) (fun h => hrecord.mp h.record hne)
    exact nomatch h.conflict hnot
  · obtain ⟨b, hb⟩ := buildDayBatch_chain hacc hseq hne
    rw [hb]
    have hrebuilds : Rebuilds sha256 e.day e.commitment visited ↔ b.commitment sha256 = header.commitment sha256 := by
      rw [hcommitment]
      constructor
      · rintro ⟨b', hb', heq⟩
        rw [Option.some.inj (Except.ok.inj (hb.symm.trans hb'))]
        exact (Option.some.inj heq).symm
      · intro heq
        exact ⟨b, hb, by rw [heq]⟩
    refine iff_of_true ?_ ⟨hclosed, haddress, hrecord.mpr hne⟩
    show NoticesRewrite sha256 e.day e.commitment visited
      (if b.commitment sha256 ≠ header.commitment sha256 then .error (.conflict e.day)
        else .ok (ready sha256 header registry false, ledger))
    by_cases hsame : b.commitment sha256 = header.commitment sha256
    · rw [if_neg (not_not.mpr hsame)]
      exact ⟨iff_of_true ⟨_, _, rfl, rfl⟩ (hrebuilds.mpr hsame), fun hnot => absurd (hrebuilds.mpr hsame) hnot⟩
    · rw [if_pos hsame]
      refine ⟨iff_of_false ?_ fun h => hsame (hrebuilds.mp h), fun _ => rfl⟩
      rintro ⟨_, _, hok, -⟩
      cases hok

end

/-! ### A log that was removed -/

/-- A directory from which the whole log was removed. -/
def removedLog : View where
  head := .absent
  checkpoint := .absent
  segs := []

/-- The ledger holds the batch of day 1. -/
def dayOneEntries : List LedgerEntry := [batchedEntry Sha256.hash dayOneBatch.header 172800000]

theorem dayOneEntries_valid : ValidEntries Sha256.hash dayOneEntries := by
  refine ⟨List.pairwise_singleton _ _, ?_, List.pairwise_singleton _ _⟩
  intro e he
  rw [List.mem_singleton.mp he]
  exact checkEntry_batchedEntry rfl rfl (by decide) _

theorem walk_removedLog (serde : Serde) :
    ∃ walked, walk Sha256.hash serde removedLog .live = .ok (walked, []) ∧ walked.checkpoint = none := ⟨_, rfl, rfl⟩

/-- Nothing is left of day 1, and the plan is ready. -/
theorem removed_log_is_ready :
    (∃ p file, planDay Sha256.hash .canonical removedLog (.ok { v := 1, entries := dayOneEntries }) 1 172800000 none =
        .ok (p, file) ∧ p.isReady = true) ∧
      ¬ NoticesRewrite Sha256.hash 1 (some (dayOneBatch.commitment Sha256.hash)) []
        (planDay Sha256.hash .canonical removedLog (.ok { v := 1, entries := dayOneEntries }) 1 172800000 none) := by
  have hready : ∃ p file, planDay Sha256.hash .canonical removedLog (.ok { v := 1, entries := dayOneEntries }) 1
      172800000 none = .ok (p, file) ∧ p.isReady = true := by
    obtain ⟨walked, hwalk, hcp⟩ := walk_removedLog .canonical
    obtain ⟨header, -, -, hplan⟩ := @planDay_batched Sha256.hash .canonical removedLog walked []
      (.ok { v := 1, entries := dayOneEntries }) dayOneEntries (batchedEntry Sha256.hash dayOneBatch.header 172800000)
      172800000 none hwalk (.inr rfl) dayOneEntries_valid List.mem_cons_self rfl rfl (by decide) rfl
    exact ⟨_, _, hplan, rfl⟩
  refine ⟨hready, fun h => ?_⟩
  obtain ⟨b, hb, -⟩ := h.ready.mp hready
  cases hb

/-- The recheck needs a record of the day. -/
theorem notices_rewrite_removed_log :
    ¬ NoticesRewrite Sha256.hash 1 (some (dayOneBatch.commitment Sha256.hash)) []
      (planDay Sha256.hash .canonical removedLog (.ok { v := 1, entries := dayOneEntries }) 1 172800000 none) := by
  obtain ⟨walked, hwalk, hcp⟩ := walk_removedLog .canonical
  have hiff := @notices_rewrite_iff Sha256.hash .canonical removedLog walked []
    (.ok { v := 1, entries := dayOneEntries }) dayOneEntries (batchedEntry Sha256.hash dayOneBatch.header 172800000)
    172800000 none hwalk nofun (by rw [hcp]; exact nofun) (.inr rfl) dayOneEntries_valid List.mem_cons_self rfl rfl
  intro h
  obtain ⟨r, hr, -⟩ := (hiff.mp h).record
  cases hr

end AgentRuntime.Anchor
