import AgentRuntime.Hitl.Signing
import AgentRuntime.Lib.Cbor
import AgentRuntime.Lib.Sha256

/-!
# `Audit.Record` — the audit record and its canonical encoding (`agent/core/src/audit/record.rs`)

What signers sign and what the hash chain links is the CBOR of a record whose signatures and anchor are
cleared (`canonicalCbor`). The encoding omits nothing else: it determines every field it is made of
(`canonicalCbor_inj`). A vector or a text is no longer than a 64-bit length, which its type says.
-/

namespace AgentRuntime.Audit

open Hitl (Role PublicKey Ed25519 signatureSize)
open Cbor PrefixCode Sha256 Words

/-- What an audit record is about. -/
inductive EventType where
  | genesis
  | proposal
  | edit
  | approval
  | rejection
  | timeout
  | submission
  | confirmation
  | capsuleInstall
  | capsuleRevoke
  | policyUpdate
  | overlayActivation
  | overlayDeactivation
  | breakGlass
  | breakGlassAffirmation
  | doctorReport
  | auditExport
  | quarantine
  | resumption
deriving DecidableEq, Repr

/-- Which mechanism a signature came through. -/
inductive SigningSurfaceTag where
  | slint
  | cli
  | localWeb
  | mobile
  | fileBacked
deriving DecidableEq, Repr

/-- What an on-chain anchor covers. -/
inductive AnchorKind where
  | perCapsule
  | perApproval
  | nightlyMerkle
deriving DecidableEq, Repr

/-- An on-chain anchor of a record. -/
structure AnchorRef where
  anchorKind : AnchorKind
  blockNumber : UInt64
  txHash : Digest
deriving DecidableEq

/-- An approver's signature on an audit record, with the key that made it. -/
structure RoleSignature where
  signer : Text
  role : Role
  signedAt : Int64
  signature : Many UInt8
  surface : SigningSurfaceTag
  signerPubkey : PublicKey
deriving DecidableEq

/-- The canonical audit record. -/
structure AuditRecord where
  sequence : UInt64
  timestamp : Int64
  previousHash : Digest
  eventType : EventType
  payload : Many UInt8
  actor : Text
  signatures : Many RoleSignature
  chainAnchor : Option AnchorRef
deriving DecidableEq

/-! ## How the serializer names the variants -/

def EventType.name : EventType → String
  | .genesis => "Genesis"
  | .proposal => "Proposal"
  | .edit => "Edit"
  | .approval => "Approval"
  | .rejection => "Rejection"
  | .timeout => "Timeout"
  | .submission => "Submission"
  | .confirmation => "Confirmation"
  | .capsuleInstall => "CapsuleInstall"
  | .capsuleRevoke => "CapsuleRevoke"
  | .policyUpdate => "PolicyUpdate"
  | .overlayActivation => "OverlayActivation"
  | .overlayDeactivation => "OverlayDeactivation"
  | .breakGlass => "BreakGlass"
  | .breakGlassAffirmation => "BreakGlassAffirmation"
  | .doctorReport => "DoctorReport"
  | .auditExport => "AuditExport"
  | .quarantine => "Quarantine"
  | .resumption => "Resumption"

def SigningSurfaceTag.name : SigningSurfaceTag → String
  | .slint => "Slint"
  | .cli => "Cli"
  | .localWeb => "LocalWeb"
  | .mobile => "Mobile"
  | .fileBacked => "FileBacked"

def AnchorKind.name : AnchorKind → String
  | .perCapsule => "PerCapsule"
  | .perApproval => "PerApproval"
  | .nightlyMerkle => "NightlyMerkle"

def roleName : Role → String
  | .operator => "Operator"
  | .reviewer => "Reviewer"
  | .complianceOfficer => "ComplianceOfficer"
  | .securityOfficer => "SecurityOfficer"
  | .auditor => "Auditor"

/-! ## The serializer -/

/-- A 32-byte array, as the integers it holds. -/
def bytes32 (v : Vector UInt8 32) : List UInt8 := array byte v.toList

def AnchorRef.cbor (a : AnchorRef) : List UInt8 :=
  map 3 ++ text "anchor_kind" ++ text a.anchorKind.name ++
    text "block_number" ++ uint ⟨a.blockNumber.toNat, a.blockNumber.toNat_lt⟩ ++
    text "tx_hash" ++ bytes32 a.txHash

def RoleSignature.cbor (s : RoleSignature) : List UInt8 :=
  map 6 ++ text "signer" ++ text s.signer.1 ++
    text "role" ++ text (roleName s.role) ++
    text "signed_at" ++ int s.signedAt ++
    text "signature" ++ array byte s.signature.1 ++
    text "surface" ++ text s.surface.name ++
    text "signer_pubkey" ++ bytes32 s.signerPubkey

def cborAnchor : Option AnchorRef → List UInt8
  | none => null
  | some a => a.cbor

/-- `ciborium::ser::into_writer` on a record: its fields in the order they are declared. -/
def AuditRecord.cbor (r : AuditRecord) : List UInt8 :=
  map 8 ++ text "sequence" ++ uint ⟨r.sequence.toNat, r.sequence.toNat_lt⟩ ++
    text "timestamp" ++ int r.timestamp ++
    text "previous_hash" ++ bytes32 r.previousHash ++
    text "event_type" ++ text r.eventType.name ++
    text "payload" ++ array byte r.payload.1 ++
    text "actor" ++ text r.actor.1 ++
    text "signatures" ++ array RoleSignature.cbor r.signatures.1 ++
    text "chain_anchor" ++ cborAnchor r.chainAnchor

/-- A record with `signatures` and `chain_anchor` cleared: its hashed fields. -/
def recordWithoutSigs (r : AuditRecord) : AuditRecord :=
  { r with signatures := ⟨[], by decide⟩, chainAnchor := none }

/-- The canonical encoding of a record. Writing it to a vector does not fail. -/
def canonicalCbor (r : AuditRecord) : List UInt8 := (recordWithoutSigs r).cbor

/-- What the next record's `previous_hash` has to be. -/
def recordHash (sha256 : List UInt8 → Digest) (r : AuditRecord) : Digest := sha256 (canonicalCbor r)

/-- The signature binds to the record under the key it carries. -/
def verifyRoleSignature (ed : Ed25519) (r : AuditRecord) (sig : RoleSignature) : Except String Unit :=
  match ed.fromBytes sig.signerPubkey with
  | .error e => .error ("audit signature: bad pubkey for signer '" ++ sig.signer.1 ++ "': " ++ e)
  | .ok vk =>
      if sig.signature.1.length ≠ signatureSize then
        .error ("audit signature: length " ++ toString sig.signature.1.length ++ " != " ++ toString signatureSize
          ++ " for signer '" ++ sig.signer.1 ++ "'")
      else
        match ed.verify vk (canonicalCbor r) sig.signature.1 with
        | .error e => .error ("audit signature does not verify for signer '" ++ sig.signer.1 ++ "': " ++ e)
        | .ok () => .ok ()

/-! ## What the encoding determines -/

theorem prefixFree_name {α : Type} {name : α → String} (hinj : Function.Injective name)
    (hlen : ∀ a, (Json.utf8 (name a)).length < u64Bound) : PrefixFree (fun a => text (name a)) :=
  prefixFree_text.comp (fun _ _ h => hinj (congrArg Subtype.val h) : Function.Injective fun a => (⟨name a, hlen a⟩ : Text))

theorem prefixFree_eventType : PrefixFree (fun e : EventType => text e.name) := by
  apply prefixFree_name
  · intro e e' h
    cases e <;> cases e' <;> first | rfl | exact absurd h (by decide)
  · intro e
    cases e <;> decide

theorem prefixFree_surface : PrefixFree (fun s : SigningSurfaceTag => text s.name) := by
  apply prefixFree_name
  · intro s s' h
    cases s <;> cases s' <;> first | rfl | exact absurd h (by decide)
  · intro s
    cases s <;> decide

theorem prefixFree_anchorKind : PrefixFree (fun k : AnchorKind => text k.name) := by
  apply prefixFree_name
  · intro k k' h
    cases k <;> cases k' <;> first | rfl | exact absurd h (by decide)
  · intro k
    cases k <;> decide

theorem prefixFree_role : PrefixFree (fun r : Role => text (roleName r)) := by
  apply prefixFree_name
  · intro r r' h
    cases r <;> cases r' <;> first | rfl | exact absurd h (by decide)
  · intro r
    cases r <;> decide

theorem prefixFree_u64 : PrefixFree (fun n : UInt64 => uint ⟨n.toNat, n.toNat_lt⟩) :=
  prefixFree_uint.comp fun _ _ h => UInt64.toNat_inj.mp (congrArg Subtype.val h)

theorem prefixFree_bytes32 : PrefixFree bytes32 := by
  have hlen : ∀ v : Vector UInt8 32, v.toList.length < u64Bound := by
    intro v
    rw [Vector.length_toList]
    decide
  exact (prefixFree_array prefixFree_byte).comp
    (fun _ _ h => Vector.toList_inj.mp (congrArg Subtype.val h) :
      Function.Injective fun v : Vector UInt8 32 => (⟨v.toList, hlen v⟩ : Many UInt8))

theorem prefixFree_anchorRef : PrefixFree AnchorRef.cbor := by
  rintro ⟨kind, block, tx⟩ ⟨kind', block', tx'⟩ r s h
  simp only [AnchorRef.cbor, List.append_assoc, List.append_cancel_left_eq] at h
  obtain ⟨rfl, h₁⟩ := prefixFree_anchorKind _ _ _ _ h
  obtain ⟨rfl, h₂⟩ := prefixFree_u64 _ _ _ _ (List.append_cancel_left h₁)
  obtain ⟨rfl, h₃⟩ := prefixFree_bytes32 _ _ _ _ (List.append_cancel_left h₂)
  exact ⟨rfl, h₃⟩

theorem prefixFree_roleSignature : PrefixFree RoleSignature.cbor := by
  rintro ⟨signer, role, signedAt, signature, surface, key⟩ ⟨signer', role', signedAt', signature', surface', key'⟩ r s h
  simp only [RoleSignature.cbor, List.append_assoc, List.append_cancel_left_eq] at h
  obtain ⟨rfl, h₁⟩ := prefixFree_text _ _ _ _ h
  obtain ⟨rfl, h₂⟩ := prefixFree_role _ _ _ _ (List.append_cancel_left h₁)
  obtain ⟨rfl, h₃⟩ := prefixFree_int _ _ _ _ (List.append_cancel_left h₂)
  obtain ⟨rfl, h₄⟩ := prefixFree_array prefixFree_byte _ _ _ _ (List.append_cancel_left h₃)
  obtain ⟨rfl, h₅⟩ := prefixFree_surface _ _ _ _ (List.append_cancel_left h₄)
  obtain ⟨rfl, h₆⟩ := prefixFree_bytes32 _ _ _ _ (List.append_cancel_left h₅)
  exact ⟨rfl, h₆⟩

theorem prefixFree_anchor : PrefixFree cborAnchor := by
  rintro (_ | a) (_ | b) r s h
  · exact ⟨rfl, List.append_cancel_left h⟩
  · -- `null` and a map begin with different bytes
    exact absurd (List.cons.inj h).1 (by decide)
  · exact absurd (List.cons.inj h).1 (by decide)
  · obtain ⟨rfl, h₁⟩ := prefixFree_anchorRef _ _ _ _ h
    exact ⟨rfl, h₁⟩

theorem prefixFree_record : PrefixFree AuditRecord.cbor := by
  rintro ⟨sequence, timestamp, previousHash, eventType, payload, actor, signatures, anchor⟩
    ⟨sequence', timestamp', previousHash', eventType', payload', actor', signatures', anchor'⟩ r s h
  simp only [AuditRecord.cbor, List.append_assoc, List.append_cancel_left_eq] at h
  obtain ⟨rfl, h₁⟩ := prefixFree_u64 _ _ _ _ h
  obtain ⟨rfl, h₂⟩ := prefixFree_int _ _ _ _ (List.append_cancel_left h₁)
  obtain ⟨rfl, h₃⟩ := prefixFree_bytes32 _ _ _ _ (List.append_cancel_left h₂)
  obtain ⟨rfl, h₄⟩ := prefixFree_eventType _ _ _ _ (List.append_cancel_left h₃)
  obtain ⟨rfl, h₅⟩ := prefixFree_array prefixFree_byte _ _ _ _ (List.append_cancel_left h₄)
  obtain ⟨rfl, h₆⟩ := prefixFree_text _ _ _ _ (List.append_cancel_left h₅)
  obtain ⟨rfl, h₇⟩ := prefixFree_array prefixFree_roleSignature _ _ _ _ (List.append_cancel_left h₆)
  obtain ⟨rfl, h₈⟩ := prefixFree_anchor _ _ _ _ (List.append_cancel_left h₇)
  exact ⟨rfl, h₈⟩

/-- **The canonical encoding binds every hashed field.** -/
theorem canonicalCbor_inj {r r' : AuditRecord} (h : canonicalCbor r = canonicalCbor r') :
    recordWithoutSigs r = recordWithoutSigs r' := prefixFree_record.injective h

end AgentRuntime.Audit
