import AgentRuntime.Audit.Record
import AgentRuntime.Lib.Acceptor
import AgentRuntime.Lib.HashChain
import Mathlib

/-!
# `Audit.Chain` — the hash-chained audit log (`agent/core/src/audit/chain.rs`, `agent/core/src/audit/sink/mod.rs`)

A chain remembers the head of its log: the next sequence number, the hash of the last record and its
timestamp. Opening a sink, appending to it and verifying it are separate code, and all three follow one
acceptor (`chain`): a record links to the hash before it, carries the next number and is not backdated.
Sequence numbers wrap at `2^64`, as in a release build.
-/

namespace AgentRuntime.Audit

open Hitl (SignerRoster signerIsAuthorized Ed25519)
open Cbor Sha256 Words

/-! ## Sinks -/

/-- What a sink stores: what an append makes of it, and the records it yields, in order. -/
structure AuditSink (σ : Type) where
  append : σ → AuditRecord → Except String σ
  iter : σ → Except String (List (Except String AuditRecord))

/-- The sink yields exactly these records. -/
def AuditSink.Holds {σ : Type} (sink : AuditSink σ) (s : σ) (rs : List AuditRecord) : Prop :=
  sink.iter s = .ok (rs.map .ok)

/-- A sink that does what its trait promises, as long as nothing but its own appends has been at what it stores
    (`Whole`): a successful append yields one more record. -/
structure SoundSink (σ : Type) extends AuditSink σ where
  Whole : σ → Prop
  whole_append : ∀ {s r s'}, Whole s → append s r = .ok s' → Whole s'
  holds_append : ∀ {s r s' rs}, Whole s → iter s = .ok (rs.map .ok) → append s r = .ok s' →
    iter s' = .ok ((rs ++ [r]).map .ok)

/-- A sink whose records can be counted in 64 bits, as those of a file can: it has fewer bytes. -/
structure BoundedSink (σ : Type) extends SoundSink σ where
  iter_length : ∀ {s items}, iter s = .ok items → items.length < u64Bound

/-! ## The chain -/

/-- What the genesis record says. -/
structure GenesisInfo where
  agentDid : Text
  harnessVersion : Text
  policyBundleHash : Digest
  doctorReportHash : Digest

/-- The end of a log, as far as the next record depends on it. -/
structure Head where
  nextSequence : UInt64
  lastHash : Digest
  lastTimestamp : Int64
deriving DecidableEq

/-- Before the first record. -/
def Head.start : Head := { nextSequence := 0, lastHash := Vector.replicate 32 0, lastTimestamp := Int64.minValue }

/-- The hash-chained audit log: its head, and the roster its signatures are checked against. -/
structure AuditChain extends Head where
  roster : Option SignerRoster

/-- Attach a roster. -/
def AuditChain.withRoster (c : AuditChain) (roster : SignerRoster) : AuditChain := { c with roster := some roster }

/-- What `append` is called with. -/
structure Event where
  eventType : EventType
  payload : Many UInt8
  actor : Text
  signatures : Many RoleSignature
  anchor : Option AnchorRef
  nowUnixNanos : Int64

/-- The CBOR map of what the genesis record says. -/
def encodeGenesisPayload (g : GenesisInfo) : List UInt8 :=
  map 4 ++ text "agent_did" ++ text g.agentDid.1 ++
    text "harness_version" ++ text g.harnessVersion.1 ++
    text "policy_bundle_hash" ++ bytes g.policyBundleHash.toList ++
    text "doctor_report_hash" ++ bytes g.doctorReportHash.toList

section

variable (sha256 : List UInt8 → Digest)

/-- One record of the walk that opens a log. -/
def walkStep (w : Head × Bool) (record : AuditRecord) : Except String (Head × Bool) :=
  if record.previousHash ≠ w.1.lastHash then
    .error ("chain contiguity broken at sequence " ++ toString record.sequence ++ ": previous_hash mismatch")
  else if record.sequence ≠ w.1.nextSequence then
    .error ("chain sequence broken: expected " ++ toString w.1.nextSequence ++ ", got " ++ toString record.sequence)
  else if record.timestamp < w.1.lastTimestamp then
    .error ("timestamp regression at sequence " ++ toString record.sequence ++ ": " ++ toString record.timestamp
      ++ " < previous " ++ toString w.1.lastTimestamp)
  else
    .ok ({ nextSequence := record.sequence + 1
           lastHash := recordHash sha256 record
           lastTimestamp := record.timestamp }, true)

/-- The walk over everything a sink yields: the head, and whether there is a record. -/
def walk (items : List (Except String AuditRecord)) : Except String (Head × Bool) :=
  items.foldlM (fun w item => item >>= walkStep sha256 w) (Head.start, false)

variable {σ : Type} (sink : AuditSink σ)

theorem none_fit {α : Type} : ([] : List α).length < u64Bound := by
  rw [List.length_nil]
  decide

/-- The genesis record. -/
def genesisRecord (info : GenesisInfo) (payload : Many UInt8) (now : Int64) : AuditRecord :=
  { sequence := 0
    timestamp := now
    previousHash := Vector.replicate 32 0
    eventType := .genesis
    payload := payload
    actor := info.agentDid
    signatures := ⟨[], none_fit⟩
    chainAnchor := none }

/-- Open the chain; an empty sink gets a genesis record. -/
def openOrInit (s : σ) (info : GenesisInfo) (now : Int64) : Except String (AuditChain × σ) := do
  let items ← sink.iter s
  let (head, hasRecords) ← walk sha256 items
  if hasRecords then
    .ok ({ head with roster := none }, s)
  else if hlen : (encodeGenesisPayload info).length < u64Bound then
    let genesis := genesisRecord info ⟨encodeGenesisPayload info, hlen⟩ now
    let s ← sink.append s genesis
    .ok ({ nextSequence := 1, lastHash := recordHash sha256 genesis, lastTimestamp := now, roster := none }, s)
  else
    -- no vector is that long
    .error "capacity overflow"

/-- Open an existing chain; `none` when the sink holds no records. -/
def openExisting (s : σ) : Except String (Option AuditChain) := do
  let items ← sink.iter s
  let (head, hasRecords) ← walk sha256 items
  if hasRecords then .ok (some { head with roster := none }) else .ok none

/-- The walked head is the expected one. -/
def verifyHead (c : AuditChain) (expectedSequence : UInt64) (expectedHash : Digest) : Except String Unit :=
  if c.nextSequence = 0 then .error "audit chain is empty — cannot match expected head"
  else if c.nextSequence - 1 ≠ expectedSequence ∨ c.lastHash ≠ expectedHash then
    .error ("audit chain head mismatch: walked head is sequence " ++ toString (c.nextSequence - 1) ++ ", expected "
      ++ toString expectedSequence ++ " — tail truncation or rollback detected")
  else .ok ()

variable (ed : Ed25519) (devAllowed : Bool)

/-- One signature: it binds to the record, and its key is authorized for its role. -/
def verifySignature (roster : Option SignerRoster) (record : AuditRecord) (sig : RoleSignature) :
    Except String Unit := do
  verifyRoleSignature ed record sig
  if signerIsAuthorized roster sig.signerPubkey sig.role devAllowed then .ok ()
  else
    .error ("audit signature: signer '" ++ sig.signer.1 ++ "' is not authorized for role " ++ roleName sig.role)

/-- Every signature on a record. -/
def verifySignatures (roster : Option SignerRoster) (record : AuditRecord) : Except String Unit :=
  record.signatures.1.forM (verifySignature ed devAllowed roster record)

/-- The record an append builds. -/
def AuditChain.recordOf (c : AuditChain) (e : Event) : AuditRecord :=
  { sequence := c.nextSequence
    timestamp := e.nowUnixNanos
    previousHash := c.lastHash
    eventType := e.eventType
    payload := e.payload
    actor := e.actor
    signatures := e.signatures
    chainAnchor := e.anchor }

/-- Append an event to the chain: refused when backdated or when a signature does not verify. -/
def AuditChain.append (c : AuditChain) (s : σ) (e : Event) : Except String (AuditRecord × AuditChain × σ) := do
  if e.nowUnixNanos < c.lastTimestamp then
    .error ("refusing to append a backdated record: timestamp " ++ toString e.nowUnixNanos ++ " < chain head "
      ++ toString c.lastTimestamp)
  else
    let record := c.recordOf e
    verifySignatures ed devAllowed c.roster record
    let s ← sink.append s record
    .ok (record,
      { nextSequence := c.nextSequence + 1
        lastHash := recordHash sha256 record
        lastTimestamp := e.nowUnixNanos
        roster := c.roster }, s)

/-- Where `verify_integrity` is: how many records it read, and what the next one has to be. -/
structure Replay where
  count : UInt64
  expectedPrev : Digest
  expectedSeq : UInt64
  prevTs : Int64

/-- Before the first record. -/
def Replay.start : Replay :=
  { count := 0, expectedPrev := Vector.replicate 32 0, expectedSeq := 0, prevTs := Int64.minValue }

/-- One record of `verify_integrity`. -/
def verifyStep (roster : Option SignerRoster) (v : Replay) (record : AuditRecord) : Except String Replay := do
  if record.sequence ≠ v.expectedSeq then
    .error ("sequence break at record " ++ toString record.sequence ++ ": expected " ++ toString v.expectedSeq)
  else if record.previousHash ≠ v.expectedPrev then
    .error ("previous_hash break at sequence " ++ toString record.sequence ++ ": chain tampered")
  else if record.timestamp < v.prevTs then
    .error ("timestamp regression at sequence " ++ toString record.sequence ++ ": " ++ toString record.timestamp
      ++ " < previous " ++ toString v.prevTs)
  else
    verifySignatures ed devAllowed roster record
    .ok { count := v.count + 1
          expectedPrev := recordHash sha256 record
          expectedSeq := record.sequence + 1
          prevTs := record.timestamp }

/-- Walk the chain end to end, and count its records. -/
def AuditChain.verifyIntegrity (c : AuditChain) (s : σ) : Except String UInt64 := do
  let items ← sink.iter s
  let v ← items.foldlM (fun v item => item >>= verifyStep sha256 ed devAllowed c.roster v) Replay.start
  .ok v.count

end

/-! ## What all three follow -/

/-- A log's records, one by one: each links to the one before, carries the next number, and is not backdated. -/
def chain (sha256 : List UInt8 → Digest) : Acceptor Head AuditRecord where
  admits h r := r.previousHash = h.lastHash ∧ r.sequence = h.nextSequence ∧ h.lastTimestamp ≤ r.timestamp
  after _ r :=
    { nextSequence := r.sequence + 1
      lastHash := recordHash sha256 r
      lastTimestamp := r.timestamp }

variable {sha256 : List UInt8 → Digest}

theorem walkStep_ok {w w' : Head × Bool} {r : AuditRecord} :
    walkStep sha256 w r = .ok w' ↔ (chain sha256).admits w.1 r ∧ w' = ((chain sha256).after w.1 r, true) := by
  unfold walkStep
  by_cases hprev : r.previousHash = w.1.lastHash
  · by_cases hseq : r.sequence = w.1.nextSequence
    · by_cases hts : r.timestamp < w.1.lastTimestamp
      · simp [hprev, hseq, hts, chain, Int64.not_le.mpr hts]
      · simp [hprev, hseq, hts, chain, Int64.not_lt.mp hts, eq_comm]
    · simp [hprev, hseq, chain]
  · simp [hprev, chain]

/-- Where the walk is after a record. -/
def walked (sha256 : List UInt8 → Digest) (w : Head × Bool) (r : AuditRecord) : Head × Bool :=
  ((chain sha256).after w.1 r, true)

theorem foldl_walked (rs : List AuditRecord) (w : Head × Bool) :
    rs.foldl (walked sha256) w = ((chain sha256).afterAll w.1 rs, w.2 || !rs.isEmpty) := by
  induction rs generalizing w with
  | nil => simp
  | cons r rs ih =>
      rw [List.foldl_cons, ih]
      simp [walked]

/-- **The walk.** It goes through exactly over contiguous records, and ends at their head. -/
theorem walk_ok {items : List (Except String AuditRecord)} {head : Head} {hasRecords : Bool} :
    walk sha256 items = .ok (head, hasRecords) ↔
      ∃ rs : List AuditRecord, items = rs.map .ok ∧ (chain sha256).Accepts Head.start rs ∧
        head = (chain sha256).afterAll Head.start rs ∧ hasRecords = !rs.isEmpty := by
  have hview : ∀ w r, (walked sha256 w r).1 = (chain sha256).after w.1 r := fun _ _ => rfl
  unfold walk
  rw [Except.foldlM_items]
  apply exists_congr
  intro rs
  rw [Acceptor.foldlM_eq_ok_iff hview fun w r w' => walkStep_ok, foldl_walked]
  simp

variable {ed : Ed25519} {devAllowed : Bool} {roster : Option SignerRoster}

/-- The head `verify_integrity` has reached. -/
def Replay.head (v : Replay) : Head := ⟨v.expectedSeq, v.expectedPrev, v.prevTs⟩

/-- Where `verify_integrity` is after a record. -/
def Replay.after (sha256 : List UInt8 → Digest) (v : Replay) (r : AuditRecord) : Replay :=
  ⟨v.count + 1, recordHash sha256 r, r.sequence + 1, r.timestamp⟩

theorem count_foldl_after (rs : List AuditRecord) (v : Replay) :
    (rs.foldl (Replay.after sha256) v).count = v.count + UInt64.ofNat rs.length := by
  induction rs generalizing v with
  | nil => simp
  | cons r rs ih =>
      rw [List.foldl_cons, ih, List.length_cons]
      show v.count + 1 + UInt64.ofNat rs.length = v.count + UInt64.ofNat (rs.length + 1)
      rw [UInt64.ofNat_add, UInt64.add_assoc, UInt64.add_comm 1]
      rfl

theorem verifyStep_ok {v v' : Replay} {r : AuditRecord} :
    verifyStep sha256 ed devAllowed roster v r = .ok v' ↔
      ((chain sha256).admits v.head r ∧
        verifySignatures ed devAllowed roster r = .ok ()) ∧
      v' = v.after sha256 r := by
  unfold verifyStep
  by_cases hseq : r.sequence = v.expectedSeq
  · by_cases hprev : r.previousHash = v.expectedPrev
    · by_cases hts : r.timestamp < v.prevTs
      · simp [hprev, hseq, hts, chain, Replay.head, Int64.not_le.mpr hts]
      · rw [if_neg (not_not.mpr hseq), if_neg (not_not.mpr hprev), if_neg hts, Except.bind_eq_ok]
        have hadm : (chain sha256).admits v.head r :=
          ⟨hprev, hseq, Int64.not_lt.mp hts⟩
        constructor
        · rintro ⟨u, hsigs, h⟩
          exact ⟨⟨hadm, hsigs⟩, (Except.ok.inj h).symm⟩
        · rintro ⟨⟨-, hsigs⟩, rfl⟩
          exact ⟨(), hsigs, rfl⟩
    · simp [hprev, hseq, chain, Replay.head]
  · simp [hseq, chain, Replay.head]

/-- The acceptor of `verify_integrity`: a contiguous log whose signatures verify. -/
def attested (sha256 : List UInt8 → Digest) (ed : Ed25519) (devAllowed : Bool) (roster : Option SignerRoster) :
    Acceptor Head AuditRecord where
  admits h r := (chain sha256).admits h r ∧ verifySignatures ed devAllowed roster r = .ok ()
  after := (chain sha256).after

theorem attested_accepts {h : Head} {rs : List AuditRecord} :
    (attested sha256 ed devAllowed roster).Accepts h rs ↔
      (chain sha256).Accepts h rs ∧ ∀ r ∈ rs, verifySignatures ed devAllowed roster r = .ok () := by
  induction rs generalizing h with
  | nil => simp
  | cons r rs ih =>
      rw [Acceptor.accepts_cons, ih]
      simp only [Acceptor.accepts_cons, List.forall_mem_cons]
      show ((_ ∧ _) ∧ _ ∧ _) ↔ _
      tauto

variable {σ : Type} {sink : AuditSink σ}

/-- **Opening.** A chain opens exactly over a contiguous log with a record, and knows its head. -/
theorem openExisting_some {s : σ} {c : AuditChain} :
    openExisting sha256 sink s = .ok (some c) ↔
      ∃ rs, sink.Holds s rs ∧ rs ≠ [] ∧ (chain sha256).Accepts Head.start rs ∧
        c = { (chain sha256).afterAll Head.start rs with roster := none } := by
  unfold openExisting
  rw [Except.bind_eq_ok]
  constructor
  · rintro ⟨items, hitems, h⟩
    obtain ⟨⟨head, hasRecords⟩, hwalk, hopen⟩ := Except.bind_eq_ok.mp h
    obtain ⟨rs, rfl, hacc, rfl, rfl⟩ := walk_ok.mp hwalk
    cases rs with
    | nil => cases hopen
    | cons r rs =>
        cases hopen
        exact ⟨r :: rs, hitems, by simp, hacc, rfl⟩
  · rintro ⟨rs, hholds, hne, hacc, rfl⟩
    refine ⟨_, hholds, Except.bind_eq_ok.mpr ⟨(_, !rs.isEmpty), walk_ok.mpr ⟨rs, rfl, hacc, rfl, rfl⟩, ?_⟩⟩
    simp [hne]

/-- An emptied sink opens as empty, and is not mistaken for a log. -/
theorem openExisting_none {s : σ} (h : sink.Holds s []) : openExisting sha256 sink s = .ok none := by
  unfold openExisting
  rw [Except.bind_eq_ok]
  exact ⟨_, h, Except.bind_eq_ok.mpr ⟨_, walk_ok.mpr ⟨[], rfl, trivial, rfl, rfl⟩, rfl⟩⟩

/-- **Opening or minting.** Either the sink holds a contiguous log, or it was empty and now holds a genesis record. -/
theorem openOrInit_ok {s s' : σ} {info : GenesisInfo} {now : Int64} {c : AuditChain}
    (h : openOrInit sha256 sink s info now = .ok (c, s')) :
    (s' = s ∧ openExisting sha256 sink s = .ok (some c)) ∨
      (sink.Holds s [] ∧ ∃ genesis, sink.append s genesis = .ok s' ∧ (chain sha256).admits Head.start genesis ∧
        genesis.signatures.1 = [] ∧ c = { (chain sha256).after Head.start genesis with roster := none }) := by
  unfold openOrInit at h
  obtain ⟨items, hitems, h₁⟩ := Except.bind_eq_ok.mp h
  obtain ⟨⟨head, hasRecords⟩, hwalk, h₂⟩ := Except.bind_eq_ok.mp h₁
  obtain ⟨rs, rfl, hacc, rfl, rfl⟩ := walk_ok.mp hwalk
  cases rs with
  | nil =>
      simp only [List.isEmpty_nil, Bool.not_true, Bool.false_eq_true, if_false] at h₂
      split at h₂
      · rename_i hlen
        obtain ⟨t, happend, h₃⟩ := Except.bind_eq_ok.mp h₂
        cases h₃
        refine .inr ⟨hitems, genesisRecord info ⟨_, hlen⟩ now, happend, ⟨rfl, rfl, ?_⟩, rfl, rfl⟩
        exact Int64.minValue_le now
      · cases h₂
  | cons r rs =>
      cases h₂
      exact .inl ⟨rfl, openExisting_some.mpr ⟨r :: rs, hitems, by simp, hacc, rfl⟩⟩

/-- **Appending.** A successful append gives the sink a record the log admits, whose signatures verify. -/
theorem AuditChain.append_ok {c c' : AuditChain} {s s' : σ} {e : Event} {r : AuditRecord} :
    c.append sha256 sink ed devAllowed s e = .ok (r, c', s') ↔
      r = c.recordOf e ∧ (chain sha256).admits c.toHead r ∧
        verifySignatures ed devAllowed c.roster r = .ok () ∧ sink.append s r = .ok s' ∧
        c' = { (chain sha256).after c.toHead r with roster := c.roster } := by
  unfold AuditChain.append
  by_cases hts : e.nowUnixNanos < c.lastTimestamp
  · rw [if_pos hts]
    constructor
    · intro h
      cases h
    · rintro ⟨rfl, ⟨-, -, hle⟩, -⟩
      exact absurd hle (Int64.not_le.mpr hts)
  · rw [if_neg hts]
    constructor
    · intro h
      obtain ⟨u, hsigs, h₁⟩ := Except.bind_eq_ok.mp h
      obtain ⟨t, happend, h₂⟩ := Except.bind_eq_ok.mp h₁
      cases h₂
      exact ⟨rfl, ⟨rfl, rfl, Int64.not_lt.mp hts⟩, hsigs, happend, rfl⟩
    · rintro ⟨rfl, -, hsigs, happend, rfl⟩
      exact Except.bind_eq_ok.mpr ⟨(), hsigs, Except.bind_eq_ok.mpr ⟨s', happend, rfl⟩⟩

/-- **Verifying.** It succeeds exactly over a contiguous log whose signatures verify, and counts it. -/
theorem AuditChain.verifyIntegrity_ok {c : AuditChain} {s : σ} {n : UInt64} :
    c.verifyIntegrity sha256 sink ed devAllowed s = .ok n ↔
      ∃ rs, sink.Holds s rs ∧ (chain sha256).Accepts Head.start rs ∧
        (∀ r ∈ rs, verifySignatures ed devAllowed c.roster r = .ok ()) ∧ n = UInt64.ofNat rs.length := by
  have hview : ∀ v r, (Replay.after sha256 v r).head = (attested sha256 ed devAllowed c.roster).after v.head r :=
    fun _ _ => rfl
  have hfold : ∀ {items : List (Except String AuditRecord)} {v : Replay},
      items.foldlM (fun v item => item >>= verifyStep sha256 ed devAllowed c.roster v) Replay.start = .ok v ↔
        ∃ rs : List AuditRecord, items = rs.map .ok ∧
          ((chain sha256).Accepts Head.start rs ∧ ∀ r ∈ rs, verifySignatures ed devAllowed c.roster r = .ok ()) ∧
          v = rs.foldl (Replay.after sha256) Replay.start := by
    intro items v
    rw [Except.foldlM_items]
    apply exists_congr
    intro rs
    rw [Acceptor.foldlM_eq_ok_iff hview fun v r v' => verifyStep_ok, attested_accepts]
    rfl
  unfold AuditChain.verifyIntegrity
  rw [Except.bind_eq_ok]
  constructor
  · rintro ⟨items, hitems, h⟩
    obtain ⟨v, hv, hn⟩ := Except.bind_eq_ok.mp h
    obtain ⟨rs, rfl, ⟨hacc, hsigs⟩, rfl⟩ := hfold.mp hv
    refine ⟨rs, hitems, hacc, hsigs, ?_⟩
    rw [← Except.ok.inj hn, count_foldl_after]
    simp [Replay.start]
  · rintro ⟨rs, hholds, hacc, hsigs, rfl⟩
    refine ⟨_, hholds, Except.bind_eq_ok.mpr ⟨_, hfold.mpr ⟨rs, rfl, ⟨hacc, hsigs⟩, rfl⟩, ?_⟩⟩
    rw [count_foldl_after]
    simp [Replay.start]

end AgentRuntime.Audit
