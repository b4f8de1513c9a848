import AgentRuntime.Lib.Json
import AgentRuntime.Lib.Sha256

/-!
# `Records.Record` — the record schema of `agent-records/src/record.rs`

One line of a segment file is one `StoredRecord`: the record body plus the hex SHA-256 of the body's
canonical JSON. The body carries the previous record's hash (`prev`) and a strictly increasing `seq`,
which is what makes the log a chain.

Integers (`u32`, `u64`) are naturals. The canonical JSON is written out as `serde_json` writes it (compact,
fields in declaration order); `canonicalJson_injective` and `toVec_injective` say that no two bodies or
lines share their bytes, and `newline_not_mem_toVec` that a line holds no line feed of its own.
`sha256` stays a parameter.
-/

namespace AgentRuntime.Records

open PrefixCode Json

/-- Schema version written into every record body. -/
def schemaVersion : ℕ := 1

/-- The `prev` of the very first record: 32 zero bytes, hex encoded. -/
def genesisPrev : String := "0000000000000000000000000000000000000000000000000000000000000000"

/-- Domain-separation prefix for record hashes. -/
def recordDomain : List UInt8 := utf8 "citrate.agent-records.v1\n"

def maxIdLen : ℕ := 256
def maxKindLen : ℕ := 128
def maxSubjectLen : ℕ := 1024
def maxReasonLen : ℕ := 4096
def maxEvidence : ℕ := 32
def maxUriLen : ℕ := 2048

/-! ## Errors -/

/-- Why a log failed verification. Each variant names where the chain broke. -/
inductive IntegrityError where
  | malformed (segment : String) (line : ℕ)
  | tornTail (segment : String)
  | unknownVersion (seq v : ℕ)
  | hashMismatch (seq : ℕ)
  | prevMismatch (seq : ℕ)
  | seqGap (expected found : ℕ)
  | timeReversed (seq : ℕ)
  | policy (seq : ℕ) (why : String)
  | badOutcomeRef (seq decisionSeq : ℕ)
  | headMissing
  | truncated (headSeq : ℕ) (tip : Option ℕ)
  | headHashMismatch (seq : ℕ)
  | headBehind (headSeq tip : ℕ)
  | checkpointMismatch
deriving DecidableEq, Repr

inductive Error where
  | io (path : String)
  | json
  | invalid (message : String)
  | integrity (e : IntegrityError)
  | locked
  | poisoned
deriving DecidableEq, Repr

/-- The display text of the errors the field policy raises. -/
def Error.text : Error → String
  | .invalid message => "invalid record: " ++ message
  | .io path => "io error at " ++ path
  | .json => "json"
  | .integrity _ => "integrity"
  | .locked => "the records directory is locked by another writer"
  | .poisoned => "the decision log's internal lock is poisoned; refusing to write"

/-! ## The schema -/

/-- Who produced the record. -/
inductive ActorKind where
  | member
  | agent
  | daemon
deriving DecidableEq, Repr

structure Actor where
  kind : ActorKind
  id : String
deriving DecidableEq, Repr

/-- The HIC tier the event was gated at. -/
inductive HicTier where
  | hic1
  | hic2
deriving DecidableEq, Repr

/-- What was decided. -/
inductive Decision where
  | approved
  | denied
  | autoWithinBudget
deriving DecidableEq, Repr

/-- Whether an effect may follow this decision, so an outcome record is owed. -/
def Decision.expectsOutcome : Decision → Bool
  | .approved => true
  | .autoWithinBudget => true
  | .denied => false

/-- What happened to the effect after an allowing decision. -/
inductive Outcome where
  | completed
  | failed
  | outcomeUnknown
deriving DecidableEq, Repr

/-- A pointer to evidence held elsewhere. -/
structure EvidenceRef where
  kind : String
  uri : String
  digest : Option String
deriving DecidableEq, Repr

/-- An HIC decision. Written before any effect it allows (write-ahead). -/
structure DecisionEvent where
  tier : HicTier
  kind : String
  subject : String
  decision : Decision
  reason : String
  evidence : List EvidenceRef
deriving DecidableEq, Repr

/-- Closes an allowing decision. -/
structure OutcomeEvent where
  decisionSeq : ℕ
  outcome : Outcome
  detail : String
deriving DecidableEq, Repr

inductive Entry where
  | decision (d : DecisionEvent)
  | outcome (o : OutcomeEvent)
deriving DecidableEq, Repr

/-- The hashed part of a record. -/
structure RecordBody where
  v : ℕ
  seq : ℕ
  tsMs : ℕ
  prev : String
  actor : Actor
  entry : Entry
deriving DecidableEq, Repr

/-- One line of a segment file. -/
structure StoredRecord where
  hash : String
  record : RecordBody
deriving DecidableEq, Repr

/-! ## Canonical JSON -/

/-- The serialized name of a unit variant, between quotes. -/
def ActorKind.name : ActorKind → String
  | .member => "member"
  | .agent => "agent"
  | .daemon => "daemon"

def HicTier.name : HicTier → String
  | .hic1 => "hic-1"
  | .hic2 => "hic-2"

def Decision.name : Decision → String
  | .approved => "approved"
  | .denied => "denied"
  | .autoWithinBudget => "auto_within_budget"

def Outcome.name : Outcome → String
  | .completed => "completed"
  | .failed => "failed"
  | .outcomeUnknown => "outcome_unknown"

def Actor.toJson (a : Actor) : List UInt8 :=
  utf8 "\x7b\"kind\":" ++ (jsonString a.kind.name ++ (utf8 ",\"id\":" ++ (jsonString a.id ++ [125])))

/-- `skip_serializing_if = "Option::is_none"`, and the closing brace. -/
def digestToJson : Option String → List UInt8
  | none => [125]
  | some digest => utf8 ",\"digest\":" ++ (jsonString digest ++ [125])

def EvidenceRef.toJson (e : EvidenceRef) : List UInt8 :=
  utf8 "\x7b\"kind\":" ++ (jsonString e.kind ++ (utf8 ",\"uri\":" ++ (jsonString e.uri
    ++ digestToJson e.digest)))

def DecisionEvent.toJson (d : DecisionEvent) : List UInt8 :=
  utf8 "\x7b\"tier\":" ++ (jsonString d.tier.name ++ (utf8 ",\"kind\":" ++ (jsonString d.kind
    ++ (utf8 ",\"subject\":" ++ (jsonString d.subject ++ (utf8 ",\"decision\":"
    ++ (jsonString d.decision.name ++ (utf8 ",\"reason\":" ++ (jsonString d.reason
    ++ (utf8 ",\"evidence\":" ++ (encList EvidenceRef.toJson 91 44 93 d.evidence ++ [125])))))))))))

def OutcomeEvent.toJson (o : OutcomeEvent) : List UInt8 :=
  utf8 "\x7b\"decision_seq\":" ++ (decimal o.decisionSeq ++ [44] ++ (utf8 "\"outcome\":"
    ++ (jsonString o.outcome.name ++ (utf8 ",\"detail\":" ++ (jsonString o.detail ++ [125])))))

def Entry.toJson : Entry → List UInt8
  | .decision d => utf8 "\x7b\"decision\":" ++ (d.toJson ++ [125])
  | .outcome o => utf8 "\x7b\"outcome\":" ++ (o.toJson ++ [125])

/-- Canonical bytes: `serde_json` over a struct with a fixed field order and no maps. -/
def RecordBody.canonicalJson (b : RecordBody) : List UInt8 :=
  utf8 "\x7b\"v\":" ++ (decimal b.v ++ [44] ++ (utf8 "\"seq\":" ++ (decimal b.seq ++ [44]
    ++ (utf8 "\"ts_ms\":" ++ (decimal b.tsMs ++ [44] ++ (utf8 "\"prev\":" ++ (jsonString b.prev
    ++ (utf8 ",\"actor\":" ++ (b.actor.toJson ++ (utf8 ",\"entry\":" ++ (b.entry.toJson
    ++ [125])))))))))))

/-- `serde_json::to_vec` of a stored record: one line, without its line feed. -/
def StoredRecord.toVec (r : StoredRecord) : List UInt8 :=
  utf8 "\x7b\"hash\":" ++ (jsonString r.hash ++ (utf8 ",\"record\":" ++ (r.record.canonicalJson
    ++ [125])))

/-! ## Hashing -/

section Hashing

variable (sha256 : List UInt8 → Digest)

/-- The bytes a record hash is taken over. -/
def RecordBody.hashInput (b : RecordBody) : List UInt8 := recordDomain ++ b.canonicalJson

def RecordBody.hashBytes (b : RecordBody) : Digest := sha256 b.hashInput

def RecordBody.hashHex (b : RecordBody) : String := hexEncode (b.hashBytes sha256)

/-- Seal a body: compute its hash. -/
def StoredRecord.seal (record : RecordBody) : StoredRecord := ⟨record.hashHex sha256, record⟩

/-- Whether the stored hash matches the body. -/
def StoredRecord.hashMatches (r : StoredRecord) : Bool := r.record.hashHex sha256 == r.hash

def decodeHash (s : String) : Except Error Digest :=
  match hexDecode? s with
  | some d => .ok d
  | none => .error (.invalid ("bad hash hex: " ++ s))

/-- The record hash as raw bytes (the Merkle leaf data). -/
def StoredRecord.hashRaw (r : StoredRecord) : Except Error Digest := decodeHash r.hash

variable {sha256}

@[simp] theorem seal_record (b : RecordBody) : (StoredRecord.seal sha256 b).record = b := rfl

@[simp] theorem hashMatches_seal (b : RecordBody) :
    (StoredRecord.seal sha256 b).hashMatches sha256 = true := by
  simp [StoredRecord.seal, StoredRecord.hashMatches]

theorem hashMatches_iff {r : StoredRecord} :
    r.hashMatches sha256 = true ↔ r = StoredRecord.seal sha256 r.record := by
  constructor
  · intro h
    have heq : r.record.hashHex sha256 = r.hash := by simpa [StoredRecord.hashMatches] using h
    cases r
    simp only [StoredRecord.seal, StoredRecord.mk.injEq, and_true]
    exact heq.symm
  · intro h
    rw [h]
    exact hashMatches_seal r.record

/-- A matching stored hash is the hex of the body's digest. -/
theorem hashRaw_of_matches {r : StoredRecord} (h : r.hashMatches sha256 = true) :
    r.hashRaw = .ok (r.record.hashBytes sha256) := by
  have hhash : r.hash = hexEncode (r.record.hashBytes sha256) := by
    rw [hashMatches_iff.mp h]; rfl
  simp [StoredRecord.hashRaw, decodeHash, hhash]

end Hashing

/-! ## The field policy -/

/-- The characters of Unicode's `White_Space` property, which `str::trim` removes. -/
def isWhiteSpace (c : Char) : Bool :=
  let n := c.toNat
  (9 ≤ n && n ≤ 13) || n == 0x20 || n == 0x85 || n == 0xA0 || n == 0x1680 ||
    (0x2000 ≤ n && n ≤ 0x200A) || n == 0x2028 || n == 0x2029 || n == 0x202F || n == 0x205F ||
    n == 0x3000

/-- `s.trim().is_empty()`. -/
def isBlank (s : String) : Bool := s.toList.all isWhiteSpace

def checkLen (field s : String) (max : ℕ) (allowEmpty : Bool) : Except Error Unit :=
  if !allowEmpty && isBlank s then .error (.invalid (field ++ " must not be empty"))
  else if s.utf8ByteSize > max then
    .error (.invalid (field ++ " longer than " ++ toString max ++ " bytes"))
  else .ok ()

def validateActor (a : Actor) : Except Error Unit := checkLen "actor.id" a.id maxIdLen false

def validateEvidence (e : EvidenceRef) : Except Error Unit := do
  checkLen "evidence.kind" e.kind maxKindLen false
  checkLen "evidence.uri" e.uri maxUriLen false
  match e.digest with
  | some dg => checkLen "evidence.digest" dg maxUriLen false
  | none => .ok ()

/-- Field-level policy for a decision, applied on append and again by the verifier. -/
def validateDecision (d : DecisionEvent) : Except Error Unit := do
  checkLen "kind" d.kind maxKindLen false
  checkLen "subject" d.subject maxSubjectLen false
  checkLen "reason" d.reason maxReasonLen true
  if d.tier = .hic1 ∧ d.decision = .autoWithinBudget then
    throw (.invalid
      "HIC-1 events are approved each time; auto_within_budget is only valid for HIC-2")
  if d.evidence.length > maxEvidence then
    throw (.invalid ("at most " ++ toString maxEvidence ++ " evidence refs"))
  d.evidence.forM validateEvidence

def validateOutcome (o : OutcomeEvent) : Except Error Unit :=
  checkLen "detail" o.detail maxReasonLen true

/-- The policy of an entry: `validate_decision` or `validate_outcome`. -/
def validateEntry : Entry → Except Error Unit
  | .decision d => validateDecision d
  | .outcome o => validateOutcome o

/-! ## The canonical JSON is self-delimiting -/

theorem ActorKind.name_injective : Function.Injective ActorKind.name := by
  intro a b h; cases a <;> cases b <;> first | rfl | exact absurd h (by decide)

theorem HicTier.name_injective : Function.Injective HicTier.name := by
  intro a b h; cases a <;> cases b <;> first | rfl | exact absurd h (by decide)

theorem Decision.name_injective : Function.Injective Decision.name := by
  intro a b h; cases a <;> cases b <;> first | rfl | exact absurd h (by decide)

theorem Outcome.name_injective : Function.Injective Outcome.name := by
  intro a b h; cases a <;> cases b <;> first | rfl | exact absurd h (by decide)

/-- A decimal field closed by a comma is self-delimiting. -/
theorem prefixFree_numberField : PrefixFree (fun n => decimal n ++ [44]) :=
  prefixFree_decimal (by decide)

theorem prefixFree_actor : PrefixFree Actor.toJson := by
  intro a b r s h
  simp only [Actor.toJson, List.append_assoc] at h
  obtain ⟨hkind, h⟩ := prefixFree_jsonString _ _ _ _ (List.append_cancel_left h)
  obtain ⟨hid, h⟩ := prefixFree_jsonString _ _ _ _ (List.append_cancel_left h)
  refine ⟨?_, List.append_cancel_left h⟩
  cases a; cases b
  simp only [Actor.mk.injEq]
  exact ⟨ActorKind.name_injective hkind, hid⟩

theorem prefixFree_digest : PrefixFree digestToJson := by
  intro a b r s h
  cases a with
  | none =>
      cases b with
      | none => exact ⟨rfl, List.append_cancel_left h⟩
      | some y => exact absurd (List.cons.inj h).1 (by decide)
  | some x =>
      cases b with
      | none => exact absurd (List.cons.inj h).1 (by decide)
      | some y =>
          simp only [digestToJson, List.append_assoc] at h
          obtain ⟨hxy, h⟩ := prefixFree_jsonString _ _ _ _ (List.append_cancel_left h)
          exact ⟨by rw [hxy], List.append_cancel_left h⟩

theorem prefixFree_evidence : PrefixFree EvidenceRef.toJson := by
  intro a b r s h
  simp only [EvidenceRef.toJson, List.append_assoc] at h
  obtain ⟨hkind, h⟩ := prefixFree_jsonString _ _ _ _ (List.append_cancel_left h)
  obtain ⟨huri, h⟩ := prefixFree_jsonString _ _ _ _ (List.append_cancel_left h)
  obtain ⟨hdigest, h⟩ := prefixFree_digest _ _ _ _ h
  refine ⟨?_, h⟩
  cases a; cases b
  simp only [EvidenceRef.mk.injEq]
  exact ⟨hkind, huri, hdigest⟩

/-- An evidence object starts with a brace, so it is not the end of the list. -/
theorem evidence_ne_stop (e : EvidenceRef) (r s : List UInt8) : e.toJson ++ r ≠ 93 :: s := by
  intro h
  exact absurd (List.cons.inj h).1 (by decide)

theorem prefixFree_decisionEvent : PrefixFree DecisionEvent.toJson := by
  intro a b r s h
  simp only [DecisionEvent.toJson, List.append_assoc] at h
  obtain ⟨htier, h⟩ := prefixFree_jsonString _ _ _ _ (List.append_cancel_left h)
  obtain ⟨hkind, h⟩ := prefixFree_jsonString _ _ _ _ (List.append_cancel_left h)
  obtain ⟨hsubject, h⟩ := prefixFree_jsonString _ _ _ _ (List.append_cancel_left h)
  obtain ⟨hdecision, h⟩ := prefixFree_jsonString _ _ _ _ (List.append_cancel_left h)
  obtain ⟨hreason, h⟩ := prefixFree_jsonString _ _ _ _ (List.append_cancel_left h)
  obtain ⟨hevidence, h⟩ := prefixFree_encList prefixFree_evidence (by decide) evidence_ne_stop
    _ _ _ _ (List.append_cancel_left h)
  refine ⟨?_, List.append_cancel_left h⟩
  cases a; cases b
  simp only [DecisionEvent.mk.injEq]
  exact ⟨HicTier.name_injective htier, hkind, hsubject, Decision.name_injective hdecision, hreason,
    hevidence⟩

theorem prefixFree_outcomeEvent : PrefixFree OutcomeEvent.toJson := by
  intro a b r s h
  simp only [OutcomeEvent.toJson, List.append_assoc] at h
  have h := List.append_cancel_left h
  rw [← List.append_assoc, ← List.append_assoc (decimal b.decisionSeq)] at h
  obtain ⟨hseq, h⟩ := prefixFree_numberField _ _ _ _ h
  obtain ⟨houtcome, h⟩ := prefixFree_jsonString _ _ _ _ (List.append_cancel_left h)
  obtain ⟨hdetail, h⟩ := prefixFree_jsonString _ _ _ _ (List.append_cancel_left h)
  refine ⟨?_, List.append_cancel_left h⟩
  cases a; cases b
  simp only [OutcomeEvent.mk.injEq]
  exact ⟨hseq, Outcome.name_injective houtcome, hdetail⟩

theorem prefixFree_entry : PrefixFree Entry.toJson := by
  intro a b r s h
  cases a with
  | decision x =>
      cases b with
      | decision y =>
          simp only [Entry.toJson, List.append_assoc] at h
          obtain ⟨hxy, h⟩ := prefixFree_decisionEvent _ _ _ _ (List.append_cancel_left h)
          exact ⟨by rw [hxy], List.append_cancel_left h⟩
      | outcome y =>
          exact absurd (List.cons.inj (List.cons.inj (List.cons.inj h).2).2).1 (by decide)
  | outcome x =>
      cases b with
      | decision y =>
          exact absurd (List.cons.inj (List.cons.inj (List.cons.inj h).2).2).1 (by decide)
      | outcome y =>
          simp only [Entry.toJson, List.append_assoc] at h
          obtain ⟨hxy, h⟩ := prefixFree_outcomeEvent _ _ _ _ (List.append_cancel_left h)
          exact ⟨by rw [hxy], List.append_cancel_left h⟩

theorem prefixFree_body : PrefixFree RecordBody.canonicalJson := by
  intro a b r s h
  simp only [RecordBody.canonicalJson, List.append_assoc] at h
  have h := List.append_cancel_left h
  rw [← List.append_assoc, ← List.append_assoc (decimal b.v)] at h
  obtain ⟨hv, h⟩ := prefixFree_numberField _ _ _ _ h
  have h := List.append_cancel_left h
  rw [← List.append_assoc, ← List.append_assoc (decimal b.seq)] at h
  obtain ⟨hseq, h⟩ := prefixFree_numberField _ _ _ _ h
  have h := List.append_cancel_left h
  rw [← List.append_assoc, ← List.append_assoc (decimal b.tsMs)] at h
  obtain ⟨hts, h⟩ := prefixFree_numberField _ _ _ _ h
  obtain ⟨hprev, h⟩ := prefixFree_jsonString _ _ _ _ (List.append_cancel_left h)
  obtain ⟨hactor, h⟩ := prefixFree_actor _ _ _ _ (List.append_cancel_left h)
  obtain ⟨hentry, h⟩ := prefixFree_entry _ _ _ _ (List.append_cancel_left h)
  refine ⟨?_, List.append_cancel_left h⟩
  cases a; cases b
  simp only [RecordBody.mk.injEq]
  exact ⟨hv, hseq, hts, hprev, hactor, hentry⟩

/-- **No two bodies have the same canonical JSON.** -/
theorem canonicalJson_injective : Function.Injective RecordBody.canonicalJson :=
  prefixFree_body.injective

theorem hashInput_injective : Function.Injective RecordBody.hashInput := by
  intro a b h
  exact canonicalJson_injective (List.append_cancel_left h)

/-- **No two records have the same line.** -/
theorem toVec_injective : Function.Injective StoredRecord.toVec := by
  intro a b h
  unfold StoredRecord.toVec at h
  obtain ⟨hhash, h⟩ := prefixFree_jsonString _ _ _ _ (List.append_cancel_left h)
  obtain ⟨hrecord, -⟩ := prefixFree_body _ _ _ _ (List.append_cancel_left h)
  cases a; cases b
  simp only [StoredRecord.mk.injEq]
  exact ⟨hhash, hrecord⟩

/-! ## A line holds no line feed -/

theorem printable_actor (a : Actor) : Printable a.toJson := by
  simp only [Actor.toJson, printable_append, printable_jsonString]
  decide +kernel

theorem printable_evidence (e : EvidenceRef) : Printable e.toJson := by
  have hdigest : Printable (digestToJson e.digest) := by
    cases e.digest with
    | none => exact printable_cons.mpr ⟨by decide, printable_nil⟩
    | some dg =>
        simp only [digestToJson, printable_append, printable_jsonString]
        decide +kernel
  simp only [EvidenceRef.toJson, printable_append, printable_jsonString, hdigest]
  decide +kernel

theorem printable_entry (e : Entry) : Printable e.toJson := by
  cases e with
  | decision d =>
      have hevidence : Printable (encList EvidenceRef.toJson 91 44 93 d.evidence) :=
        printable_encList printable_evidence (by decide) (by decide) (by decide) d.evidence
      simp only [Entry.toJson, DecisionEvent.toJson, printable_append, printable_jsonString,
        hevidence]
      decide +kernel
  | outcome o =>
      simp only [Entry.toJson, OutcomeEvent.toJson, printable_append, printable_jsonString,
        printable_decimal]
      decide +kernel

theorem printable_body (b : RecordBody) : Printable b.canonicalJson := by
  simp only [RecordBody.canonicalJson, printable_append, printable_jsonString, printable_decimal,
    printable_actor, printable_entry]
  decide +kernel

theorem newline_not_mem_toVec (r : StoredRecord) : (10 : UInt8) ∉ r.toVec := by
  have hprint : Printable r.toVec := by
    simp only [StoredRecord.toVec, printable_append, printable_jsonString, printable_body]
    decide +kernel
  exact hprint.not_mem_newline

/-- Serialization then parsing is the identity, which is all the log relies on of `serde_json`. -/
structure Serde where
  /-- `serde_json::from_slice::<StoredRecord>`. -/
  fromSlice : List UInt8 → Option StoredRecord
  fromSlice_toVec : ∀ r : StoredRecord, fromSlice r.toVec = some r

open Classical in
/-- The parser that accepts the lines `serde_json` writes, and no others. -/
noncomputable def Serde.canonical : Serde where
  fromSlice line := if h : ∃ r : StoredRecord, r.toVec = line then some h.choose else none
  fromSlice_toVec r := by
    have hex : ∃ r' : StoredRecord, r'.toVec = r.toVec := ⟨r, rfl⟩
    rw [dif_pos hex, toVec_injective hex.choose_spec]

end AgentRuntime.Records
