import AgentRuntime.Hitl.Signing
import AgentRuntime.Lib.Acceptor
import AgentRuntime.Lib.Words

/-!
# `Hitl.Queue` — the approval queue (`agent/core/src/hitl/mod.rs`)

The queue's state and what each critical section does to it: the FIFO track (`enqueue`, `popHead`,
`evictExact`), the role-aware track (`insertRole`, `addSignature`, `removeRole`, `evictRole`), the freeze flag,
the auto-grants and the remembered unknown outcomes. A critical section is one function, because the lock it
holds is not released inside it; `Hitl.World` runs them in every order.

A resolver is the sending end of a `oneshot` channel, modelled by the number of the submission that holds the
receiving end.
-/

namespace AgentRuntime.Hitl

open Words

/-! ## Outcomes -/

/-- One tool call as the queue sees it. -/
structure ToolCall where
  callId : String
  name : String
deriving DecidableEq

/-- A submitted transaction with no known outcome. -/
structure UnknownOutcome where
  txHash : Option String
  message : String
deriving DecidableEq

/-- What a resolver is sent. -/
inductive ApprovalOutcome where
  | approved
  | rejected
  | submittedOutcomeUnknown (u : UnknownOutcome)
deriving DecidableEq

inductive ApprovalOutcomePublic where
  | approved
  | rejected
  | timedOut
  | autoApproved
  | submittedOutcomeUnknown
deriving DecidableEq, Repr

/-- How a FIFO submission ended. -/
inductive Resolution where
  | decided (o : ApprovalOutcomePublic)
  | submittedOutcomeUnknown (u : UnknownOutcome)
deriving DecidableEq

/-- Errors of the decision calls. -/
inductive SignatureError where
  | auditorCannotApprove
  | proposerCannotSelfApprove
  | duplicateSigner
  | roleConflict (existing attempted : Role)
  | unknownCallId
  | resolverGone
  | attestationInvalid (why : String)
  | signerNotAuthorized
deriving DecidableEq

/-! ## The state -/

structure PendingEntry where
  call : ToolCall
  /-- The submission at the other end of the channel. -/
  resolver : ℕ
  nonce : ℕ
deriving DecidableEq

/-- A role-aware action awaiting its quorum. -/
structure RoleAwareEntry where
  quorum : Quorum
  proposer : Signer
  /-- Canonical bytes signers attest to. -/
  payload : List UInt8
  signatures : List Signature
  /-- The submission at the other end of the channel. -/
  resolver : ℕ
  nonce : ℕ
deriving DecidableEq

structure ApprovalQueue where
  pending : List PendingEntry
  /-- Auto-granted tools with their expiry. -/
  grants : List (String × ℕ)
  /-- Keyed by call id. -/
  rolePending : List (String × RoleAwareEntry)
  /-- How many nonces were drawn; the counter holds it modulo `2^64`. -/
  nextNonce : ℕ
  frozen : Bool
  /-- Call ids submitted with an unknown outcome, oldest first. -/
  unknownOutcomes : List (String × UnknownOutcome)

def ApprovalQueue.new : ApprovalQueue where
  pending := []
  grants := []
  rolePending := []
  nextNonce := 0
  frozen := false
  unknownOutcomes := []

/-- The nonce the `n`-th draw of an `AtomicU64` returns. -/
def nonceOf (draw : ℕ) : ℕ := draw % u64Bound

/-- `AUTO_GRANT_TTL`, in seconds. -/
def autoGrantTtl : ℕ := 30 * 60

/-- How many unknown outcomes are remembered. -/
def rememberedUnknownOutcomes : ℕ := 256

namespace ApprovalQueue

/-! ## Grants and unknown outcomes -/

/-- Expired grants are dropped, then the tool is looked up. -/
def isTrusted (q : ApprovalQueue) (now : ℕ) (toolName : String) : Bool × ApprovalQueue :=
  let grants := q.grants.filter fun g => decide (g.2 > now)
  (grants.any fun g => g.1 == toolName, { q with grants := grants })

def addGrant (q : ApprovalQueue) (now : ℕ) (toolName : String) : ApprovalQueue :=
  { q with grants := (toolName, now + autoGrantTtl) :: q.grants.filter fun g => g.1 != toolName }

def priorUnknownOutcome (q : ApprovalQueue) (callId : String) : Option UnknownOutcome :=
  (q.unknownOutcomes.find? fun u => u.1 == callId).map Prod.snd

/-- The newest is kept last; the oldest go first when there are too many. -/
def rememberUnknownOutcome (q : ApprovalQueue) (callId : String) (outcome : UnknownOutcome) :
    ApprovalQueue :=
  let m := (q.unknownOutcomes.filter fun u => u.1 != callId) ++ [(callId, outcome)]
  { q with unknownOutcomes := m.drop (m.length - rememberedUnknownOutcomes) }

/-! ## The FIFO track -/

/-- The locked part of `submit_with_resolution`: refused while frozen or when the call id is pending. -/
def enqueue (q : ApprovalQueue) (call : ToolCall) (resolver nonce : ℕ) : Option ApprovalQueue :=
  if q.frozen then none
  else if q.pending.any fun e => e.call.callId == call.callId then none
  else some { q with pending := q.pending ++ [{ call := call, resolver := resolver, nonce := nonce }] }

/-- The locked part of `resolve_head_by_id`: the head is taken when it is the named call. -/
def popHead (q : ApprovalQueue) (callId : String) : Option (PendingEntry × ApprovalQueue) :=
  match q.pending with
  | head :: rest => if head.call.callId = callId then some (head, { q with pending := rest }) else none
  | [] => none

/-- Is this the entry the waiter pushed? -/
def isEntryOf (callId : String) (nonce : ℕ) (e : PendingEntry) : Bool :=
  e.nonce == nonce && e.call.callId == callId

/-- Remove the first entry with this call id and nonce. -/
def evictExact (q : ApprovalQueue) (callId : String) (nonce : ℕ) : ApprovalQueue :=
  { q with pending := q.pending.eraseP (isEntryOf callId nonce) }

/-! ## The role-aware track -/

/-- The locked part of `submit_for_action`. -/
def insertRole (q : ApprovalQueue) (callId : String) (entry : RoleAwareEntry) : Option ApprovalQueue :=
  if q.frozen then none
  else if (q.rolePending.lookup callId).isSome then none
  else some { q with rolePending := (callId, entry) :: q.rolePending }

def removeRole (q : ApprovalQueue) (callId : String) : ApprovalQueue :=
  { q with rolePending := q.rolePending.filter fun e => e.1 != callId }

/-- What the dropped `RoleEvictGuard` does: only the entry with this nonce is removed. -/
def evictRole (q : ApprovalQueue) (callId : String) (nonce : ℕ) : ApprovalQueue :=
  if (q.rolePending.lookup callId).any fun e => e.nonce == nonce then q.removeRole callId else q

/-- `entry.signatures.push`, in place. -/
def setSignatures (q : ApprovalQueue) (callId : String) (signatures : List Signature) : ApprovalQueue :=
  { q with
    rolePending := q.rolePending.map fun e =>
      if e.1 = callId then (e.1, { e.2 with signatures := signatures }) else e }

end ApprovalQueue

/-! ## Signing -/

/-- How the queue checks signatures. -/
structure SigningContext where
  ed : Ed25519
  fingerprint : PublicKey → String
  roster : Option SignerRoster
  /-- `cfg!(test)` or the development feature. -/
  devAllowed : Bool

variable (ctx : SigningContext)

/-- The checks of `add_signature` against a pending entry, in order. -/
def checkSignature (entry : RoleAwareEntry) (sig : Signature) : Except SignatureError Unit :=
  match verifyAttestation ctx.ed ctx.fingerprint entry.payload sig with
  | .error e => .error (.attestationInvalid e)
  | .ok () =>
      if signerIsAuthorized ctx.roster sig.pubkey sig.signer.role ctx.devAllowed = false then
        .error .signerNotAuthorized
      else if entry.proposer.id = sig.signer.id then .error .proposerCannotSelfApprove
      else if entry.signatures.any fun s => s.signer.id == sig.signer.id then .error .duplicateSigner
      else
        match entry.signatures.find? fun s =>
            s.signer.id == sig.signer.id && isConflict s.signer.role sig.signer.role with
        | some existing => .error (.roleConflict existing.signer.role sig.signer.role)
        | none => .ok ()

/-- What an `add_signature` that returned `Ok` did. -/
inductive Signed where
  /-- The signature is kept; the quorum still waits. -/
  | kept (q : ApprovalQueue)
  /-- The quorum is satisfied: the entry is removed and its resolver fires. -/
  | satisfied (resolver : ℕ) (q : ApprovalQueue)

/-- Add a signature toward the pending action's quorum. -/
def ApprovalQueue.addSignature (q : ApprovalQueue) (callId : String) (sig : Signature) :
    Except SignatureError Signed :=
  if canApprove sig.signer.role = false then .error .auditorCannotApprove
  else
    match q.rolePending.lookup callId with
    | none => .error .unknownCallId
    | some entry => do
        checkSignature ctx entry sig
        let signatures := entry.signatures ++ [sig]
        if entry.quorum.satisfiedBy (signatures.map fun s => s.signer.role) then
          pure (.satisfied entry.resolver (q.removeRole callId))
        else pure (.kept (q.setSignatures callId signatures))

/-- **A signature that passes the checks** verifies over the entry's payload, is rostered for its role, and
    comes from someone who neither proposed the action nor signed it already. -/
theorem checkSignature_ok {ctx : SigningContext} {entry : RoleAwareEntry} {sig : Signature}
    (h : checkSignature ctx entry sig = .ok ()) :
    verifyAttestation ctx.ed ctx.fingerprint entry.payload sig = .ok () ∧
      signerIsAuthorized ctx.roster sig.pubkey sig.signer.role ctx.devAllowed = true ∧
      sig.signer.id ≠ entry.proposer.id ∧
      ∀ s ∈ entry.signatures, s.signer.id ≠ sig.signer.id := by
  unfold checkSignature at h
  split at h
  · cases h
  · rename_i hverify
    split at h
    · cases h
    · rename_i hroster
      split at h
      · cases h
      · rename_i hproposer
        split at h
        · cases h
        · rename_i hdup
          refine ⟨hverify, eq_true_of_ne_false hroster, Ne.symm hproposer, ?_⟩
          intro s hs heq
          apply hdup
          rw [List.any_eq_true]
          exact ⟨s, hs, beq_iff_eq.mpr heq⟩

/-! ## What the critical sections did -/

theorem popHead_eq_some {q q' : ApprovalQueue} {callId : String} {e : PendingEntry}
    (h : q.popHead callId = some (e, q')) :
    e.call.callId = callId ∧ q.pending = e :: q'.pending ∧ q' = { q with pending := q'.pending } := by
  unfold ApprovalQueue.popHead at h
  split at h
  · rename_i head rest hpending
    split at h
    · rename_i hid
      cases h
      exact ⟨hid, hpending, rfl⟩
    · cases h
  · cases h

theorem enqueue_eq_some {q q' : ApprovalQueue} {call : ToolCall} {i nonce : ℕ}
    (h : q.enqueue call i nonce = some q') :
    q.frozen = false ∧ (∀ e ∈ q.pending, e.call.callId ≠ call.callId) ∧
      q' = { q with pending := q.pending ++ [{ call := call, resolver := i, nonce := nonce }] } := by
  unfold ApprovalQueue.enqueue at h
  split at h
  · cases h
  · rename_i hfrozen
    split at h
    · cases h
    · rename_i hused
      cases h
      refine ⟨eq_false_of_ne_true hfrozen, ?_, rfl⟩
      intro e he hid
      apply hused
      rw [List.any_eq_true]
      exact ⟨e, he, beq_iff_eq.mpr hid⟩

theorem insertRole_eq_some {q q' : ApprovalQueue} {callId : String} {entry : RoleAwareEntry}
    (h : q.insertRole callId entry = some q') :
    q.frozen = false ∧ q.rolePending.lookup callId = none ∧
      q' = { q with rolePending := (callId, entry) :: q.rolePending } := by
  unfold ApprovalQueue.insertRole at h
  split at h
  · cases h
  · rename_i hfrozen
    split at h
    · cases h
    · rename_i hused
      cases h
      exact ⟨eq_false_of_ne_true hfrozen, Option.not_isSome_iff_eq_none.mp hused, rfl⟩

/-- **An accepted signature** passed the checks against the entry it was kept in. -/
theorem addSignature_eq_ok {ctx : SigningContext} {q : ApprovalQueue} {callId : String} {sig : Signature}
    {out : Signed} (h : q.addSignature ctx callId sig = .ok out) :
    canApprove sig.signer.role = true ∧ ∃ entry, q.rolePending.lookup callId = some entry ∧
      checkSignature ctx entry sig = .ok () ∧
      (entry.quorum.satisfiedBy ((entry.signatures ++ [sig]).map fun s => s.signer.role) = true ∧
          out = .satisfied entry.resolver (q.removeRole callId) ∨
        entry.quorum.satisfiedBy ((entry.signatures ++ [sig]).map fun s => s.signer.role) = false ∧
          out = .kept (q.setSignatures callId (entry.signatures ++ [sig]))) := by
  unfold ApprovalQueue.addSignature at h
  split at h
  · cases h
  · rename_i happrove
    refine ⟨eq_true_of_ne_false happrove, ?_⟩
    cases hlookup : q.rolePending.lookup callId with
    | none =>
        rw [hlookup] at h
        cases h
    | some entry =>
        rw [hlookup] at h
        obtain ⟨u, hcheck, h⟩ := Except.bind_eq_ok.mp h
        refine ⟨entry, rfl, hcheck, ?_⟩
        simp only at h
        split at h
        · rename_i hsatisfied
          cases h
          exact .inl ⟨hsatisfied, rfl⟩
        · rename_i hunsatisfied
          cases h
          exact .inr ⟨eq_false_of_ne_true hunsatisfied, rfl⟩

end AgentRuntime.Hitl
