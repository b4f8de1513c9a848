import AgentRuntime.Lib.Acceptor
import AgentRuntime.Lib.TextSize
import AgentRuntime.Records.Record

/-!
# `Sidecar.RecordEvents` — core's records as decisions (`agent-sidecar/src/hic_records.rs`, `web_signing_records.rs`)

Core sends copies of its own decision records; each becomes a decision of the log, with its outcome when it allows
something. The mapping checks a record and clips its texts, and the log checks the decision again.

A mapped decision passes the log's check exactly when every text that came from the record still has a character to
read after its control characters are gone (`coreToEvents_valid`, `toEvents_valid`).
-/

namespace AgentRuntime.Sidecar

open Records Text

/-! ## Texts -/

/-- Control characters removed, then cut at a character boundary to at most `max` bytes. -/
def clip (s : String) (max : ℕ) : String := String.ofList (cut max (s.toList.filter fun c => !isControl c))

/-- Control characters removed, then the first `n` characters. -/
def webClip (s : String) (n : ℕ) : String := String.ofList ((s.toList.filter fun c => !isControl c).take n)

def isHash (s : String) : Bool :=
  match s.toList with
  | '0' :: 'x' :: rest => rest.length == 64 && rest.all fun c => (Hex.digitValue? c).isSome
  | _ => false

/-- A character that is neither removed by clipping nor blank. -/
def Legible (s : String) : Prop := ∃ c ∈ s.toList, isControl c = false ∧ isWhiteSpace c = false

/-- What one of core's records is written as: the decision, and the outcome when it allows something. -/
abbrev CoreEvents : Type := Actor × DecisionEvent × Option (Outcome × String)

def Actor.member (id : String) : Actor where
  kind := .member
  id := id

def Actor.agent (id : String) : Actor where
  kind := .agent
  id := id

/-! ## `POST /records/core` -/

def maxCoreRecordsPerCall : ℕ := 100

def maxCoreEvidence : ℕ := 4

structure CoreEvidence where
  kind : String
  uri : String
  digest : Option String

structure CoreHicRecord where
  recordId : UInt64
  kind : String
  decision : String
  subject : String
  reason : String
  outcome : Option String
  outcomeDetail : Option String
  evidence : List CoreEvidence
  atMs : UInt64
  hash : String

/-- The decisions each kind may carry. -/
def kindRule (kind : String) : Option (List String) :=
  if kind ∈ ["grant.folder_added", "grant.revoked", "grant.reset", "grant.full_access_confirmed"] then some ["approved"]
  else if kind ∈ ["ceremony.approval", "agent.tool_approval"] then some ["approved", "denied"]
  else if kind = "escalation.spend" then some ["approved", "auto_within_budget"]
  else if kind ∈ ["faucet.budget_granted", "faucet.budget_revoked"] then some ["approved"]
  else if kind = "faucet.topup" then some ["approved", "auto_within_budget"]
  else none

def coreDecision (decision : String) : Records.Decision × HicTier × Actor :=
  if decision = "approved" then (.approved, .hic1, Actor.member "member")
  else if decision = "denied" then (.denied, .hic1, Actor.member "member")
  else (.autoWithinBudget, .hic2, Actor.agent "hermes")

section

variable (table : Char → Bool)

def coreOutcome (r : CoreHicRecord) : Except String (Option (Outcome × String)) :=
  let detail := (r.outcomeDetail.map fun d => clip d 300).getD ""
  match (coreDecision r.decision).1.expectsOutcome, r.outcome with
  | false, none => .ok none
  | false, some _ => .error ("record " ++ toString r.recordId ++ ": a denial has no outcome")
  | true, none =>
      .ok (some (.outcomeUnknown, "core recorded the decision; the effect's result is not part of this record"))
  | true, some o =>
      if o = "completed" then .ok (some (.completed, detail))
      else if o = "failed" then .ok (some (.failed, detail))
      else if o = "outcome_unknown" then .ok (some (.outcomeUnknown, detail))
      else .error ("record " ++ toString r.recordId ++ ": unknown outcome " ++ strDebug table o)

def coreEvidence (id : UInt64) (e : CoreEvidence) : Except String EvidenceRef :=
  if e.kind = "" ∨ 64 < e.kind.utf8ByteSize ∨ e.uri = "" ∨ 300 < e.uri.utf8ByteSize then
    .error ("record " ++ toString id ++ ": an evidence reference is malformed")
  else if e.digest.any (fun d => !isHash d) then
    .error ("record " ++ toString id ++ ": an evidence digest is malformed")
  else .ok { kind := clip e.kind 64, uri := clip e.uri 300, digest := e.digest }

/-- The evidence every decision carries: core's own record. -/
def recordEvidence (r : CoreHicRecord) : EvidenceRef where
  kind := "core_hic_record"
  uri := "citrate-core:hic/record/" ++ toString r.recordId
  digest := some r.hash

def coreReason (r : CoreHicRecord) : String :=
  clip r.reason 400 ++ " (core record " ++ toString r.recordId ++ ", at " ++ toString r.atMs ++ " ms)"

/-- Check one record and map it. -/
def coreToEvents (r : CoreHicRecord) : Except String CoreEvents :=
  let refuse (why : String) : Except String CoreEvents := .error ("record " ++ toString r.recordId ++ why)
  if isHash r.hash = false then refuse ": the record hash is malformed"
  else
    match kindRule r.kind with
    | none => refuse (": unknown kind " ++ strDebug table r.kind)
    | some allowed =>
        if r.decision ∉ allowed then refuse (": a " ++ r.kind ++ " cannot be " ++ strDebug table r.decision)
        else if isBlank r.subject = true ∨ 300 < r.subject.utf8ByteSize then
          refuse ": the subject is missing or too long"
        else if 500 < r.reason.utf8ByteSize then refuse ": the reason is too long"
        else if maxCoreEvidence < r.evidence.length then
          refuse (": at most " ++ toString maxCoreEvidence ++ " evidence references")
        else do
          let outcome ← coreOutcome table r
          let evidence ← r.evidence.mapM (coreEvidence r.recordId)
          let (decision, tier, actor) := coreDecision r.decision
          return (actor,
            { tier, kind := r.kind, subject := clip r.subject 300, decision, reason := coreReason r
              evidence := recordEvidence r :: evidence },
            outcome)

end

/-! ## `POST /records/web-signing` -/

def maxRecordsPerCall : ℕ := 100

structure CoreRecord where
  recordId : UInt64
  kind : String
  status : String
  origin : String
  budgetId : Option UInt64
  payloadDigest : Option String
  nonce : Option String
  statement : Option String
  signerAddress : Option String
  atMs : UInt64
  hash : String

section

variable (table : Char → Bool)

/-- The evidence of the record and of its budget. -/
def webEvidence (r : CoreRecord) : List EvidenceRef :=
  { kind := "web_budget_record", uri := "citrate-core:web-budget/record/" ++ toString r.recordId, digest := some r.hash } ::
    (r.budgetId.map fun b =>
      { kind := "web_budget", uri := "citrate-core:web-budget/budget/" ++ toString b, digest := none }).toList

def nonceEvidence (r : CoreRecord) : List EvidenceRef :=
  (r.nonce.map fun n => { kind := "siwe_nonce", uri := "siwe-nonce:" ++ webClip n 128, digest := none }).toList

/-- What a kind of record says: who decided, and how it went. -/
structure WebDecision where
  actor : Actor
  tier : HicTier
  kind : String
  decision : Records.Decision
  outcome : Outcome
  detail : String
  evidence : List EvidenceRef

/-- An automatic sign-in. -/
def signIn (r : CoreRecord) (digest : String) (outcome : Outcome) (detail : String) : WebDecision where
  actor := Actor.agent "hermes"
  tier := .hic2
  kind := "siwe"
  decision := .autoWithinBudget
  outcome := outcome
  detail := detail
  evidence :=
    { kind := "siwe_payload_keccak256", uri := "citrate-core:web-budget/payload", digest := some digest } ::
      nonceEvidence r

def webDecision (r : CoreRecord) : Except String WebDecision :=
  let refuse (why : String) : Except String WebDecision := .error ("record " ++ toString r.recordId ++ why)
  if r.kind = "auto_sign" then
    match r.payloadDigest.filter isHash with
    | none => refuse ": a sign-in needs its payload digest"
    | some digest =>
        if r.status = "signed" then .ok (signIn r digest .completed "signed inside the member's budget")
        else if r.status = "not_signed" then .ok (signIn r digest .failed "nothing was signed")
        else if r.status = "outcome_unknown" then
          .ok (signIn r digest .outcomeUnknown "core stopped between the reservation and the signature")
        else refuse (": a sign-in cannot have status " ++ strDebug table r.status ++ " (still reserved?)")
  else if r.kind ∈ ["budget_granted", "budget_revoked", "all_budgets_revoked", "store_reset"] then
    if r.status ≠ "final" then refuse ": a member decision is final"
    else
      .ok
        { actor := Actor.member "member", tier := .hic1, kind := "siwe_budget", decision := .approved
          outcome := .completed, detail := "the member's decision in Settings, Budgets", evidence := [] }
  else refuse (": unknown kind " ++ strDebug table r.kind)

def webReason (r : CoreRecord) : String :=
  r.kind ++ " (core record " ++ toString r.recordId ++ ", at " ++ toString r.atMs ++ " ms" ++
    (r.signerAddress.map fun a => ", signer " ++ webClip a 42).getD "" ++ ")" ++
    (r.statement.map fun s => ": statement " ++ strDebug table (webClip s 300)).getD ""

/-- The decision and the outcome that one record becomes. -/
def toEvents (r : CoreRecord) : Except String CoreEvents :=
  if isHash r.hash = false then .error ("record " ++ toString r.recordId ++ ": the record hash is malformed")
  else if r.origin = "" ∨ 300 < r.origin.utf8ByteSize then
    .error ("record " ++ toString r.recordId ++ ": the origin is missing or too long")
  else do
    let d ← webDecision table r
    return (d.actor,
      { tier := d.tier, kind := d.kind, subject := webClip r.origin 300, decision := d.decision
        reason := webReason table r, evidence := webEvidence r ++ d.evidence },
      some (d.outcome, d.detail))

end

/-! ## The sizes of clipped texts -/

theorem legible_iff_ofList {cs : List Char} (h : ∀ c ∈ cs, isControl c = false) :
    isBlank (String.ofList cs) = false ↔ ∃ c ∈ cs, isControl c = false ∧ isWhiteSpace c = false := by
  rw [isBlank, String.toList_ofList, List.all_eq_false]
  constructor
  · rintro ⟨c, hc, hspace⟩
    exact ⟨c, hc, h c hc, by simpa using hspace⟩
  · rintro ⟨c, hc, -, hspace⟩
    exact ⟨c, hc, by simpa using hspace⟩

theorem filter_control (s : List Char) : ∀ c ∈ s.filter fun c => !isControl c, isControl c = false := by
  intro c hc
  simpa using (List.mem_filter.mp hc).2

/-- A text whose control characters are removed is blank unless it is legible. -/
theorem isBlank_filter (s : String) :
    isBlank (String.ofList (s.toList.filter fun c => !isControl c)) = false ↔ Legible s := by
  rw [legible_iff_ofList (filter_control _)]
  constructor
  · rintro ⟨c, hc, hchar⟩
    exact ⟨c, List.mem_of_mem_filter hc, hchar⟩
  · rintro ⟨c, hc, hchar⟩
    exact ⟨c, List.mem_filter.mpr ⟨hc, by simp [hchar.1]⟩, hchar⟩

theorem size_filter_le (s : String) : size (s.toList.filter fun c => !isControl c) ≤ s.utf8ByteSize := by
  rw [← size_toList]
  exact size_le_of_sublist List.filter_sublist

theorem utf8ByteSize_clip_le (s : String) (max : ℕ) : (clip s max).utf8ByteSize ≤ max := by
  rw [clip, utf8ByteSize_ofList]
  exact size_cut_le max _

/-- A text that is short enough is not cut. -/
theorem isBlank_clip {s : String} {max : ℕ} (h : s.utf8ByteSize ≤ max) : isBlank (clip s max) = false ↔ Legible s := by
  rw [clip, cut_of_size_le ((size_filter_le s).trans h), isBlank_filter]

theorem length_le_size (s : List Char) : s.length ≤ size s := by
  induction s with
  | nil => exact le_rfl
  | cons c s ih =>
      have hc := c.utf8Size_pos
      rw [size_cons, List.length_cons]
      omega

theorem webClip_of_le {s : String} {n : ℕ} (h : s.utf8ByteSize ≤ n) :
    webClip s n = String.ofList (s.toList.filter fun c => !isControl c) := by
  rw [webClip, List.take_of_length_le (((length_le_size _).trans (size_filter_le s)).trans h)]

theorem utf8ByteSize_webClip_le (s : String) (n : ℕ) : (webClip s n).utf8ByteSize ≤ 4 * n := by
  rw [webClip, utf8ByteSize_ofList]
  refine (size_le_four_mul _).trans (Nat.mul_le_mul_left 4 ?_)
  exact List.length_take_le _ _

/-! ## The log's check -/

theorem checkLen_ok {field s : String} {max : ℕ} {allowEmpty : Bool} :
    checkLen field s max allowEmpty = .ok () ↔ (allowEmpty = false → isBlank s = false) ∧ s.utf8ByteSize ≤ max := by
  unfold checkLen
  cases allowEmpty with
  | false =>
      cases hblank : isBlank s with
      | false =>
          by_cases hlen : s.utf8ByteSize ≤ max
          · simp [hlen]
          · simp [hlen]
      | true => simp
  | true =>
      by_cases hlen : s.utf8ByteSize ≤ max
      · simp [hlen]
      · simp [hlen]

/-- The log takes the reference. -/
structure ValidEvidence (e : EvidenceRef) : Prop where
  kind : isBlank e.kind = false ∧ e.kind.utf8ByteSize ≤ maxKindLen
  uri : isBlank e.uri = false ∧ e.uri.utf8ByteSize ≤ maxUriLen
  digest : ∀ d, e.digest = some d → isBlank d = false ∧ d.utf8ByteSize ≤ maxUriLen

/-- The log takes the decision. -/
structure ValidDecision (d : DecisionEvent) : Prop where
  kind : isBlank d.kind = false ∧ d.kind.utf8ByteSize ≤ maxKindLen
  subject : isBlank d.subject = false ∧ d.subject.utf8ByteSize ≤ maxSubjectLen
  reason : d.reason.utf8ByteSize ≤ maxReasonLen
  tier : ¬ (d.tier = .hic1 ∧ d.decision = .autoWithinBudget)
  count : d.evidence.length ≤ maxEvidence
  evidence : ∀ e ∈ d.evidence, ValidEvidence e

theorem validateEvidence_ok {e : EvidenceRef} : validateEvidence e = .ok () ↔ ValidEvidence e := by
  unfold validateEvidence
  constructor
  · intro h
    obtain ⟨_, hkind, h⟩ := Except.bind_eq_ok.mp h
    obtain ⟨_, huri, h⟩ := Except.bind_eq_ok.mp h
    have hkind := checkLen_ok.mp hkind
    have huri := checkLen_ok.mp huri
    refine ⟨⟨hkind.1 rfl, hkind.2⟩, ⟨huri.1 rfl, huri.2⟩, ?_⟩
    intro d hd
    simp only [hd] at h
    have hdigest := checkLen_ok.mp h
    exact ⟨hdigest.1 rfl, hdigest.2⟩
  · intro h
    refine Except.bind_eq_ok.mpr ⟨(), checkLen_ok.mpr ⟨fun _ => h.kind.1, h.kind.2⟩, ?_⟩
    refine Except.bind_eq_ok.mpr ⟨(), checkLen_ok.mpr ⟨fun _ => h.uri.1, h.uri.2⟩, ?_⟩
    cases hd : e.digest with
    | none => rfl
    | some d => exact checkLen_ok.mpr ⟨fun _ => (h.digest d hd).1, (h.digest d hd).2⟩

theorem forM_evidence_ok {es : List EvidenceRef} :
    es.forM validateEvidence = .ok () ↔ ∀ e ∈ es, ValidEvidence e := by
  induction es with
  | nil => exact ⟨fun _ => by simp, fun _ => rfl⟩
  | cons e es ih =>
      have hcons : (e :: es).forM validateEvidence = validateEvidence e >>= fun _ => es.forM validateEvidence := rfl
      rw [hcons, List.forall_mem_cons, Except.bind_eq_ok, ← validateEvidence_ok, ← ih]
      exact ⟨fun ⟨_, he, hes⟩ => ⟨he, hes⟩, fun ⟨he, hes⟩ => ⟨(), he, hes⟩⟩

theorem validateDecision_ok {d : DecisionEvent} : validateDecision d = .ok () ↔ ValidDecision d := by
  unfold validateDecision
  constructor
  · intro h
    obtain ⟨_, hkind, h⟩ := Except.bind_eq_ok.mp h
    obtain ⟨_, hsubject, h⟩ := Except.bind_eq_ok.mp h
    obtain ⟨_, hreason, h⟩ := Except.bind_eq_ok.mp h
    have hkind := checkLen_ok.mp hkind
    have hsubject := checkLen_ok.mp hsubject
    by_cases htier : d.tier = .hic1 ∧ d.decision = .autoWithinBudget
    · rw [if_pos htier] at h
      cases h
    · rw [if_neg htier] at h
      by_cases hcount : d.evidence.length > maxEvidence
      · simp only [if_pos hcount] at h
        cases h
      · simp only [if_neg hcount] at h
        exact ⟨⟨hkind.1 rfl, hkind.2⟩, ⟨hsubject.1 rfl, hsubject.2⟩, (checkLen_ok.mp hreason).2, htier,
          not_lt.mp hcount, forM_evidence_ok.mp h⟩
  · intro h
    refine Except.bind_eq_ok.mpr ⟨(), checkLen_ok.mpr ⟨fun _ => h.kind.1, h.kind.2⟩, ?_⟩
    refine Except.bind_eq_ok.mpr ⟨(), checkLen_ok.mpr ⟨fun _ => h.subject.1, h.subject.2⟩, ?_⟩
    refine Except.bind_eq_ok.mpr ⟨(), checkLen_ok.mpr ⟨nofun, h.reason⟩, ?_⟩
    rw [if_neg h.tier]
    have hcount : ¬ d.evidence.length > maxEvidence := not_lt.mpr h.count
    simp only [if_neg hcount]
    exact forM_evidence_ok.mpr h.evidence

/-! ## Records the mapping takes -/

structure CoreEvidence.WellFormed (e : CoreEvidence) : Prop where
  kind : e.kind ≠ "" ∧ e.kind.utf8ByteSize ≤ 64
  uri : e.uri ≠ "" ∧ e.uri.utf8ByteSize ≤ 300
  digest : ∀ d, e.digest = some d → isHash d = true

structure CoreHicRecord.WellFormed (r : CoreHicRecord) : Prop where
  hash : isHash r.hash = true
  kind : ∃ allowed, kindRule r.kind = some allowed ∧ r.decision ∈ allowed
  subject : isBlank r.subject = false ∧ r.subject.utf8ByteSize ≤ 300
  reason : r.reason.utf8ByteSize ≤ 500
  count : r.evidence.length ≤ maxCoreEvidence
  denied : r.decision = "denied" → r.outcome = none
  outcome : ∀ o, r.outcome = some o → o ∈ ["completed", "failed", "outcome_unknown"]
  evidence : ∀ e ∈ r.evidence, e.WellFormed

/-- The kinds of records, with what each needs. -/
inductive CoreRecord.Known (r : CoreRecord) : Prop
  | signIn (hkind : r.kind = "auto_sign") (digest : String) (hdigest : r.payloadDigest = some digest)
      (hhash : isHash digest = true) (hstatus : r.status ∈ ["signed", "not_signed", "outcome_unknown"])
  | budget (hkind : r.kind ∈ ["budget_granted", "budget_revoked", "all_budgets_revoked", "store_reset"])
      (hstatus : r.status = "final")

structure CoreRecord.WellFormed (r : CoreRecord) : Prop where
  hash : isHash r.hash = true
  origin : r.origin ≠ "" ∧ r.origin.utf8ByteSize ≤ 300
  known : r.Known

/-- The evidence an accepted reference is written as. -/
def CoreEvidence.clipped (e : CoreEvidence) : EvidenceRef where
  kind := clip e.kind 64
  uri := clip e.uri 300
  digest := e.digest

section

variable {table : Char → Bool}

theorem coreEvidence_ok {id : UInt64} {e : CoreEvidence} {ref : EvidenceRef} :
    coreEvidence id e = .ok ref ↔ e.WellFormed ∧ ref = e.clipped := by
  unfold coreEvidence
  split
  · rename_i hbad
    refine ⟨nofun, ?_⟩
    rintro ⟨h, -⟩
    rcases hbad with hkind | hkind | huri | huri
    · exact absurd hkind h.kind.1
    · exact absurd h.kind.2 (not_le.mpr hkind)
    · exact absurd huri h.uri.1
    · exact absurd h.uri.2 (not_le.mpr huri)
  · rename_i hgood
    simp only [not_or, not_lt] at hgood
    obtain ⟨hkind, hkindLen, huri, huriLen⟩ := hgood
    split
    · rename_i hdigest
      obtain ⟨d, hd, hhash⟩ := (Option.any_eq_true _ _).mp hdigest
      refine ⟨nofun, ?_⟩
      rintro ⟨h, -⟩
      rw [h.digest d hd] at hhash
      cases hhash
    · rename_i hdigest
      have hwf : e.WellFormed := by
        refine ⟨⟨hkind, hkindLen⟩, ⟨huri, huriLen⟩, fun d hd => ?_⟩
        rw [hd] at hdigest
        simpa using hdigest
      constructor
      · rintro ⟨⟩
        exact ⟨hwf, rfl⟩
      · rintro ⟨-, rfl⟩
        rfl

theorem coreEvidence_mapM_ok {id : UInt64} {es : List CoreEvidence} {refs : List EvidenceRef} :
    es.mapM (coreEvidence id) = .ok refs ↔ (∀ e ∈ es, e.WellFormed) ∧ refs = es.map CoreEvidence.clipped := by
  induction es generalizing refs with
  | nil =>
      rw [List.mapM_nil]
      constructor
      · rintro ⟨⟩
        exact ⟨by simp, rfl⟩
      · rintro ⟨-, rfl⟩
        rfl
  | cons e es ih =>
      rw [List.mapM_cons, List.forall_mem_cons]
      constructor
      · intro h
        obtain ⟨ref, href, h⟩ := Except.bind_eq_ok.mp h
        obtain ⟨rest, hrest, h⟩ := Except.bind_eq_ok.mp h
        cases h
        obtain ⟨he, rfl⟩ := coreEvidence_ok.mp href
        obtain ⟨hes, rfl⟩ := ih.mp hrest
        exact ⟨⟨he, hes⟩, rfl⟩
      · rintro ⟨⟨he, hes⟩, rfl⟩
        exact Except.bind_eq_ok.mpr ⟨_, coreEvidence_ok.mpr ⟨he, rfl⟩,
          Except.bind_eq_ok.mpr ⟨_, ih.mpr ⟨hes, rfl⟩, rfl⟩⟩

theorem denied_iff {kind decision : String} {allowed : List String} (hkind : kindRule kind = some allowed)
    (hmem : decision ∈ allowed) :
    (coreDecision decision).1.expectsOutcome = false ↔ decision = "denied" := by
  have hdecision : decision = "approved" ∨ decision = "denied" ∨ decision = "auto_within_budget" := by
    unfold kindRule at hkind
    split_ifs at hkind
    all_goals
      cases hkind
      simp only [List.mem_cons, List.not_mem_nil, or_false] at hmem
      tauto
  rcases hdecision with rfl | rfl | rfl
  · decide
  · decide
  · decide

/-- The outcome of a record: there is one when the decision allows something. -/
theorem coreOutcome_ok {r : CoreHicRecord} {outcome : Option (Outcome × String)} (h : coreOutcome table r = .ok outcome) :
    outcome.isSome = (coreDecision r.decision).1.expectsOutcome ∧
      ∀ o detail, outcome = some (o, detail) → detail.utf8ByteSize ≤ 300 := by
  have hdetail : ((r.outcomeDetail.map fun d => clip d 300).getD "").utf8ByteSize ≤ 300 := by
    cases r.outcomeDetail with
    | none => decide
    | some d => exact utf8ByteSize_clip_le d 300
  unfold coreOutcome at h
  split at h
  · rename_i hallows _
    cases h
    rw [hallows]
    exact ⟨rfl, nofun⟩
  · cases h
  · rename_i hallows _
    cases h
    rw [hallows]
    refine ⟨rfl, ?_⟩
    rintro o detail ⟨⟩
    decide
  · rename_i hallows _
    rw [hallows]
    split_ifs at h
    all_goals
      cases h
      refine ⟨rfl, ?_⟩
      rintro o detail ⟨⟩
      exact hdetail

/-- The outcomes a record may name. -/
theorem coreOutcome_iff {r : CoreHicRecord} : (∃ outcome, coreOutcome table r = .ok outcome) ↔
    ((coreDecision r.decision).1.expectsOutcome = false → r.outcome = none) ∧
      ∀ o, r.outcome = some o → o ∈ ["completed", "failed", "outcome_unknown"] := by
  unfold coreOutcome
  cases hallows : (coreDecision r.decision).1.expectsOutcome with
  | false =>
      cases r.outcome with
      | none => simp
      | some o => simp
  | true =>
      cases r.outcome with
      | none => simp
      | some o =>
          simp only [List.mem_cons, List.not_mem_nil, or_false, Option.some.injEq, forall_eq', reduceCtorEq, false_implies,
            true_and]
          split_ifs with hcompleted hfailed hunknown
          · simp [hcompleted]
          · simp [hfailed]
          · simp [hunknown]
          · simp [hcompleted, hfailed, hunknown]

/-- What a well-formed record is written as. -/
def CoreHicRecord.event (r : CoreHicRecord) : DecisionEvent where
  tier := (coreDecision r.decision).2.1
  kind := r.kind
  subject := clip r.subject 300
  decision := (coreDecision r.decision).1
  reason := coreReason r
  evidence := recordEvidence r :: r.evidence.map CoreEvidence.clipped

theorem coreToEvents_ok {r : CoreHicRecord} {ev : CoreEvents} (h : coreToEvents table r = .ok ev) :
    r.WellFormed ∧ ev.1 = (coreDecision r.decision).2.2 ∧ ev.2.1 = r.event ∧ coreOutcome table r = .ok ev.2.2 := by
  unfold coreToEvents at h
  split at h
  · cases h
  · rename_i hhash
    split at h
    · cases h
    · rename_i allowed hkind
      split_ifs at h with hdecision hsubject hreason hcount
      obtain ⟨outcome, houtcome, h⟩ := Except.bind_eq_ok.mp h
      obtain ⟨refs, hrefs, h⟩ := Except.bind_eq_ok.mp h
      obtain ⟨hevidence, rfl⟩ := coreEvidence_mapM_ok.mp hrefs
      cases h
      obtain ⟨hdenied, hnamed⟩ := coreOutcome_iff.mp ⟨outcome, houtcome⟩
      rw [not_or, Bool.not_eq_true, not_lt] at hsubject
      exact ⟨⟨by simpa using hhash, ⟨allowed, hkind, hdecision⟩, hsubject, not_lt.mp hreason, not_lt.mp hcount,
        fun hd => hdenied ((denied_iff hkind hdecision).mpr hd), hnamed, hevidence⟩, rfl, rfl, houtcome⟩

theorem CoreHicRecord.WellFormed.mapped {r : CoreHicRecord} (h : r.WellFormed) (table : Char → Bool) :
    ∃ ev, coreToEvents table r = .ok ev := by
  obtain ⟨allowed, hkind, hdecision⟩ := h.kind
  obtain ⟨outcome, houtcome⟩ : ∃ outcome, coreOutcome table r = .ok outcome :=
    coreOutcome_iff.mpr ⟨fun hd => h.denied ((denied_iff hkind hdecision).mp hd), h.outcome⟩
  have hhash : ¬ isHash r.hash = false := by simp [h.hash]
  have hsubject : ¬ (isBlank r.subject = true ∨ 300 < r.subject.utf8ByteSize) := by
    rw [not_or, Bool.not_eq_true, not_lt]
    exact h.subject
  have hevidence : r.evidence.mapM (coreEvidence r.recordId) = .ok (r.evidence.map CoreEvidence.clipped) :=
    coreEvidence_mapM_ok.mpr ⟨h.evidence, rfl⟩
  unfold coreToEvents
  simp only [if_neg hhash, hkind, if_neg (not_not.mpr hdecision), if_neg hsubject, if_neg (not_lt.mpr h.reason),
    if_neg (not_lt.mpr h.count)]
  exact ⟨_, Except.bind_eq_ok.mpr ⟨_, houtcome, Except.bind_eq_ok.mpr ⟨_, hevidence, rfl⟩⟩⟩

theorem toEvents_ok {r : CoreRecord} {ev : CoreEvents} (h : toEvents table r = .ok ev) :
    ∃ d, webDecision table r = .ok d ∧ isHash r.hash = true ∧ (r.origin ≠ "" ∧ r.origin.utf8ByteSize ≤ 300) ∧
      ev = (d.actor,
        { tier := d.tier, kind := d.kind, subject := webClip r.origin 300, decision := d.decision
          reason := webReason table r, evidence := webEvidence r ++ d.evidence }, some (d.outcome, d.detail)) := by
  unfold toEvents at h
  split_ifs at h with hhash horigin
  obtain ⟨d, hd, h⟩ := Except.bind_eq_ok.mp h
  cases h
  rw [not_or, not_lt] at horigin
  exact ⟨d, hd, by simpa using hhash, horigin, rfl⟩

/-- What every kind of record decides. -/
structure WebDecision.Sound (r : CoreRecord) (d : WebDecision) : Prop where
  actor : validateActor d.actor = .ok ()
  tier : ¬ (d.tier = .hic1 ∧ d.decision = .autoWithinBudget)
  kind : isBlank d.kind = false ∧ d.kind.utf8ByteSize ≤ maxKindLen
  allows : d.decision.expectsOutcome = true
  detail : d.detail.utf8ByteSize ≤ 300
  evidence : d.evidence = [] ∨ ∃ digest, isHash digest = true ∧ d.evidence =
    { kind := "siwe_payload_keccak256", uri := "citrate-core:web-budget/payload", digest := some digest } ::
      nonceEvidence r
  name : r.kind.utf8ByteSize ≤ 20

theorem signIn_sound {r : CoreRecord} (hkind : r.kind = "auto_sign") {digest : String} (hhash : isHash digest = true)
    (outcome : Outcome) {detail : String} (hdetail : detail.utf8ByteSize ≤ 300) :
    (signIn r digest outcome detail).Sound r where
  actor := by
    show validateActor (Actor.agent "hermes") = .ok ()
    decide
  tier := nofun
  kind := by
    show isBlank "siwe" = false ∧ "siwe".utf8ByteSize ≤ maxKindLen
    decide
  allows := rfl
  detail := hdetail
  evidence := .inr ⟨digest, hhash, rfl⟩
  name := by
    rw [hkind]
    decide

theorem webDecision_ok {r : CoreRecord} {d : WebDecision} (h : webDecision table r = .ok d) : r.Known ∧ d.Sound r := by
  unfold webDecision at h
  by_cases hauto : r.kind = "auto_sign"
  · rw [if_pos hauto] at h
    split at h
    · cases h
    · rename_i digest hdigest
      obtain ⟨hsome, hhash⟩ := Option.filter_eq_some_iff.mp hdigest
      split_ifs at h with hsigned hnot hunknown
      · cases h
        exact ⟨.signIn hauto digest hsome hhash (by simp [hsigned]), signIn_sound hauto hhash _ (by decide)⟩
      · cases h
        exact ⟨.signIn hauto digest hsome hhash (by simp [hnot]), signIn_sound hauto hhash _ (by decide)⟩
      · cases h
        exact ⟨.signIn hauto digest hsome hhash (by simp [hunknown]), signIn_sound hauto hhash _ (by decide)⟩
  · rw [if_neg hauto] at h
    split_ifs at h with hkind hstatus
    cases h
    have hname : r.kind.utf8ByteSize ≤ 20 := by
      simp only [List.mem_cons, List.not_mem_nil, or_false] at hkind
      rcases hkind with hk | hk | hk | hk
      all_goals
        rw [hk]
        decide
    exact ⟨.budget hkind (not_not.mp hstatus), by decide, nofun, by decide, rfl, by decide, .inl rfl, hname⟩

theorem CoreRecord.Known.decided {r : CoreRecord} (h : r.Known) (table : Char → Bool) :
    ∃ d, webDecision table r = .ok d := by
  unfold webDecision
  rcases h with ⟨hkind, digest, hdigest, hhash, hstatus⟩ | ⟨hkind, hstatus⟩
  · have hfilter : r.payloadDigest.filter isHash = some digest := by
      rw [hdigest]
      simp [hhash]
    rw [if_pos hkind, hfilter]
    simp only [List.mem_cons, List.not_mem_nil, or_false] at hstatus
    rcases hstatus with hs | hs | hs
    all_goals
      rw [hs]
      exact ⟨_, rfl⟩
  · have hauto : r.kind ≠ "auto_sign" := by
      intro heq
      rw [heq] at hkind
      exact absurd hkind (by decide)
    rw [if_neg hauto, if_pos hkind, if_neg (not_not.mpr hstatus)]
    exact ⟨_, rfl⟩

theorem CoreRecord.WellFormed.mapped {r : CoreRecord} (h : r.WellFormed) (table : Char → Bool) :
    ∃ ev, toEvents table r = .ok ev := by
  obtain ⟨d, hd⟩ := h.known.decided table
  have hhash : ¬ isHash r.hash = false := by simp [h.hash]
  have horigin : ¬ (r.origin = "" ∨ 300 < r.origin.utf8ByteSize) := by
    rw [not_or, not_lt]
    exact h.origin
  unfold toEvents
  rw [if_neg hhash, if_neg horigin]
  exact ⟨_, Except.bind_eq_ok.mpr ⟨d, hd, rfl⟩⟩

/-! ## Which mapped records the log takes -/

theorem isBlank_append (s t : String) : isBlank (s ++ t) = (isBlank s && isBlank t) := by
  simp [isBlank]

/-- A text that begins with a fixed one that is not blank, and its size. -/
theorem labelled {label rest : String} {n max : ℕ} (hlabel : isBlank label = false) (hrest : rest.utf8ByteSize ≤ n)
    (hsize : label.utf8ByteSize + n ≤ max) :
    isBlank (label ++ rest) = false ∧ (label ++ rest).utf8ByteSize ≤ max := by
  rw [isBlank_append, hlabel, String.utf8ByteSize_append]
  exact ⟨rfl, by omega⟩

theorem isHash_valid {s : String} (h : isHash s = true) : isBlank s = false ∧ s.utf8ByteSize ≤ maxUriLen := by
  unfold isHash at h
  split at h
  · rename_i rest hs
    rw [Bool.and_eq_true, beq_iff_eq] at h
    constructor
    · rw [isBlank, hs]
      rfl
    · rw [← size_toList]
      refine (size_le_four_mul _).trans ?_
      rw [hs, List.length_cons, List.length_cons, h.1]
      decide
  · cases h

theorem kindRule_valid {kind : String} {allowed : List String} (h : kindRule kind = some allowed) :
    isBlank kind = false ∧ kind.utf8ByteSize ≤ maxKindLen := by
  unfold kindRule at h
  split_ifs at h with h1 h2 h3 h4 h5
  · simp only [List.mem_cons, List.not_mem_nil, or_false] at h1
    rcases h1 with rfl | rfl | rfl | rfl
    all_goals decide
  · simp only [List.mem_cons, List.not_mem_nil, or_false] at h2
    rcases h2 with rfl | rfl
    all_goals decide
  · rw [h3]
    decide
  · simp only [List.mem_cons, List.not_mem_nil, or_false] at h4
    rcases h4 with rfl | rfl
    all_goals decide
  · rw [h5]
    decide

/-- The texts of the record can be read: its subject, and the kind and the place of each evidence. -/
structure CoreHicRecord.Readable (r : CoreHicRecord) : Prop where
  subject : Legible r.subject
  evidence : ∀ e ∈ r.evidence, Legible e.kind ∧ Legible e.uri

def CoreRecord.Readable (r : CoreRecord) : Prop := Legible r.origin

theorem CoreEvidence.WellFormed.valid_iff {e : CoreEvidence} (h : e.WellFormed) :
    ValidEvidence e.clipped ↔ Legible e.kind ∧ Legible e.uri := by
  have hkind : isBlank (clip e.kind 64) = false ↔ Legible e.kind := isBlank_clip h.kind.2
  have huri : isBlank (clip e.uri 300) = false ↔ Legible e.uri := isBlank_clip h.uri.2
  constructor
  · intro hv
    exact ⟨hkind.mp hv.kind.1, huri.mp hv.uri.1⟩
  · rintro ⟨hk, hu⟩
    exact ⟨⟨hkind.mpr hk, (utf8ByteSize_clip_le _ _).trans (by decide)⟩,
      ⟨huri.mpr hu, (utf8ByteSize_clip_le _ _).trans (by decide)⟩, fun d hd => isHash_valid (h.digest d hd)⟩

theorem ValidEvidence.of_texts {kind uri : String} {digest : Option String}
    (hkind : isBlank kind = false ∧ kind.utf8ByteSize ≤ maxKindLen)
    (huri : isBlank uri = false ∧ uri.utf8ByteSize ≤ maxUriLen)
    (hdigest : ∀ d, digest = some d → isBlank d = false ∧ d.utf8ByteSize ≤ maxUriLen) :
    ValidEvidence ⟨kind, uri, digest⟩ := ⟨hkind, huri, hdigest⟩

theorem recordEvidence_valid {r : CoreHicRecord} (h : isHash r.hash = true) : ValidEvidence (recordEvidence r) :=
  .of_texts (by decide) (labelled (by decide) (utf8ByteSize_u64_le r.recordId) (by decide))
    fun _ hd => Option.some.inj hd ▸ isHash_valid h

theorem coreReason_size (r : CoreHicRecord) : (coreReason r).utf8ByteSize ≤ maxReasonLen := by
  have hreason := utf8ByteSize_clip_le r.reason 400
  have hid := utf8ByteSize_u64_le r.recordId
  have hat := utf8ByteSize_u64_le r.atMs
  have h1 : " (core record ".utf8ByteSize = 14 := by decide
  have h2 : ", at ".utf8ByteSize = 5 := by decide
  have h3 : " ms)".utf8ByteSize = 4 := by decide
  simp only [coreReason, String.utf8ByteSize_append, h1, h2, h3, maxReasonLen]
  omega

/-- **A mapped record passes the log's check exactly when it can be read.** -/
theorem coreToEvents_valid {r : CoreHicRecord} {ev : CoreEvents} (h : coreToEvents table r = .ok ev) :
    validateDecision ev.2.1 = .ok () ↔ r.Readable := by
  obtain ⟨hwf, -, hevent, -⟩ := coreToEvents_ok h
  have hsubject : isBlank (clip r.subject 300) = false ↔ Legible r.subject := isBlank_clip hwf.subject.2
  rw [validateDecision_ok, hevent]
  constructor
  · intro hv
    refine ⟨hsubject.mp hv.subject.1, fun e he => ?_⟩
    have hclipped := hv.evidence e.clipped (List.mem_cons_of_mem _ (List.mem_map_of_mem he))
    exact (hwf.evidence e he).valid_iff.mp hclipped
  · intro hr
    obtain ⟨allowed, hkind, hdecision⟩ := hwf.kind
    refine ⟨kindRule_valid hkind, ⟨hsubject.mpr hr.subject, (utf8ByteSize_clip_le _ _).trans (by decide)⟩,
      coreReason_size r, ?_, ?_, ?_⟩
    · show ¬ ((coreDecision r.decision).2.1 = .hic1 ∧ (coreDecision r.decision).1 = .autoWithinBudget)
      unfold coreDecision
      split_ifs
      all_goals decide
    · have hcount := hwf.count
      show (recordEvidence r :: r.evidence.map CoreEvidence.clipped).length ≤ maxEvidence
      rw [List.length_cons, List.length_map]
      unfold maxCoreEvidence at hcount
      unfold maxEvidence
      omega
    · intro ref href
      rcases List.mem_cons.mp href with rfl | href
      · exact recordEvidence_valid hwf.hash
      · obtain ⟨e, he, rfl⟩ := List.mem_map.mp href
        exact (hwf.evidence e he).valid_iff.mpr (hr.evidence e he)

theorem webReason_size {r : CoreRecord} (h : r.kind.utf8ByteSize ≤ 20) (table : Char → Bool) :
    (webReason table r).utf8ByteSize ≤ maxReasonLen := by
  have hid := utf8ByteSize_u64_le r.recordId
  have hat := utf8ByteSize_u64_le r.atMs
  have hsigner : ((r.signerAddress.map fun a => ", signer " ++ webClip a 42).getD "").utf8ByteSize ≤ 177 := by
    cases r.signerAddress with
    | none => decide
    | some a =>
        have ha := utf8ByteSize_webClip_le a 42
        have hl : ", signer ".utf8ByteSize = 9 := by decide
        simp only [Option.map_some, Option.getD_some, String.utf8ByteSize_append, hl]
        omega
  have hstatement : ((r.statement.map fun s => ": statement " ++ strDebug table (webClip s 300)).getD "").utf8ByteSize ≤
      3014 := by
    cases r.statement with
    | none => exact Nat.zero_le _
    | some s =>
        have hs := utf8ByteSize_strDebug_le table (webClip s 300)
        have hlen : (webClip s 300).toList.length ≤ 300 := by
          rw [webClip, String.toList_ofList]
          exact List.length_take_le _ _
        have hl : ": statement ".utf8ByteSize = 12 := by decide
        simp only [Option.map_some, Option.getD_some, String.utf8ByteSize_append, hl]
        omega
  have h1 : " (core record ".utf8ByteSize = 14 := by decide
  have h2 : ", at ".utf8ByteSize = 5 := by decide
  have h3 : " ms".utf8ByteSize = 3 := by decide
  have h4 : ")".utf8ByteSize = 1 := by decide
  simp only [webReason, String.utf8ByteSize_append, h1, h2, h3, h4, maxReasonLen]
  omega

theorem webEvidence_valid {r : CoreRecord} (h : isHash r.hash = true) : ∀ e ∈ webEvidence r, ValidEvidence e := by
  intro e he
  rcases List.mem_cons.mp he with rfl | he
  · exact .of_texts (by decide) (labelled (by decide) (utf8ByteSize_u64_le r.recordId) (by decide))
      fun _ hd => Option.some.inj hd ▸ isHash_valid h
  · cases hb : r.budgetId with
    | none =>
        rw [hb] at he
        cases he
    | some b =>
        rw [hb] at he
        rw [List.mem_singleton.mp he]
        exact .of_texts (by decide) (labelled (by decide) (utf8ByteSize_u64_le b) (by decide)) nofun

theorem nonceEvidence_valid (r : CoreRecord) : ∀ e ∈ nonceEvidence r, ValidEvidence e := by
  intro e he
  unfold nonceEvidence at he
  cases hn : r.nonce with
  | none =>
      rw [hn] at he
      cases he
  | some n =>
      rw [hn] at he
      rw [List.mem_singleton.mp he]
      exact .of_texts (by decide) (labelled (by decide) (utf8ByteSize_webClip_le n 128) (by decide)) nofun

theorem toEvents_valid {r : CoreRecord} {ev : CoreEvents} (h : toEvents table r = .ok ev) :
    validateDecision ev.2.1 = .ok () ↔ r.Readable := by
  obtain ⟨d, hd, hhash, ⟨-, horigin⟩, rfl⟩ := toEvents_ok h
  obtain ⟨-, hsound⟩ := webDecision_ok hd
  have hsubject : webClip r.origin 300 = String.ofList (r.origin.toList.filter fun c => !isControl c) :=
    webClip_of_le horigin
  rw [validateDecision_ok]
  constructor
  · intro hv
    have hblank : isBlank (webClip r.origin 300) = false := hv.subject.1
    rw [hsubject, isBlank_filter] at hblank
    exact hblank
  · intro hr
    refine ⟨hsound.kind, ⟨?_, ?_⟩, webReason_size hsound.name table, hsound.tier, ?_, ?_⟩
    · show isBlank (webClip r.origin 300) = false
      rw [hsubject, isBlank_filter]
      exact hr
    · show (webClip r.origin 300).utf8ByteSize ≤ maxSubjectLen
      rw [hsubject, utf8ByteSize_ofList]
      exact ((size_filter_le _).trans horigin).trans (by decide)
    · have hcount : (webEvidence r).length ≤ 2 := by
        unfold webEvidence
        cases r.budgetId with
        | none => exact Nat.le_succ 1
        | some b => exact le_rfl
      have hsign : d.evidence.length ≤ 2 := by
        rcases hsound.evidence with he | ⟨digest, -, he⟩
        · rw [he]
          exact Nat.zero_le _
        · rw [he, nonceEvidence]
          cases r.nonce with
          | none => exact Nat.le_succ 1
          | some n => exact le_rfl
      show (webEvidence r ++ d.evidence).length ≤ maxEvidence
      rw [List.length_append]
      unfold maxEvidence
      omega
    · intro e he
      rcases List.mem_append.mp he with he | he
      · exact webEvidence_valid hhash e he
      · rcases hsound.evidence with hd | ⟨digest, hdigest, hd⟩
        · rw [hd] at he
          cases he
        · rw [hd] at he
          rcases List.mem_cons.mp he with rfl | he
          · exact .of_texts (by decide) (by decide) fun x hx => Option.some.inj hx ▸ isHash_valid hdigest
          · exact nonceEvidence_valid r e he

end

end AgentRuntime.Sidecar
