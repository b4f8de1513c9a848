import AgentRuntime.Hitl.Queue
import AgentRuntime.Lib.Json
import AgentRuntime.Lib.Machine
import AgentRuntime.Lib.Sha256

/-!
# `Hitl.BreakGlass` — the break-glass registry (`agent/core/src/hitl/break_glass.rs`)

A Security Officer may invoke break-glass on an action; a Reviewer and a Compliance Officer affirm it afterwards, or
its window of 72 hours runs out and it is surfaced. Each operation is one critical section, so a run is a list of
calls, each with the time that passed before it.

`invoke_ok` and `affirm_ok` say what an accepted call checked and changed. From them, an entry tells which calls made
it (`Told`), and phases only move forward (`PhaseStep`).
-/

namespace AgentRuntime.Hitl

open Json

/-! ## The signed bytes -/

/-- 72 hours, in nanoseconds. -/
def affirmationWindow : ℕ := 72 * 60 * 60 * 1000000000

def breakglassInvokeDomain : List UInt8 := utf8 "CIT-BREAKGLASS-INVOKE-v2"
def breakglassAffirmDomain : List UInt8 := utf8 "CIT-BREAKGLASS-AFFIRM-v2"

/-- `domain || 0x00 || sha256(payload) || action_id`. -/
def breakglassPreimage (domain : List UInt8) (actionId : String) (payloadHash : Digest) : List UInt8 :=
  domain ++ 0 :: (payloadHash.toList ++ utf8 actionId)

section

variable (sha256 : List UInt8 → Digest)

/-- `breakglass_payload_hash`. -/
def breakglassPayloadHash (payload : List UInt8) : Digest := sha256 payload

/-- The exact bytes a Security Officer signs. -/
def invokePreimage (actionId : String) (payload : List UInt8) : List UInt8 :=
  breakglassPreimage breakglassInvokeDomain actionId (breakglassPayloadHash sha256 payload)

/-- The exact bytes an affirmer signs. -/
def affirmPreimage (actionId : String) (payload : List UInt8) : List UInt8 :=
  breakglassPreimage breakglassAffirmDomain actionId (breakglassPayloadHash sha256 payload)

end

/-- **Domain separation.** What is signed to invoke is never what is signed to affirm. -/
theorem invokePreimage_ne_affirmPreimage (sha256 : List UInt8 → Digest) (actionId actionId' : String)
    (payload payload' : List UInt8) :
    invokePreimage sha256 actionId payload ≠ affirmPreimage sha256 actionId' payload' := by
  intro heq
  have hlen : breakglassInvokeDomain.length = breakglassAffirmDomain.length := by decide +kernel
  have hdomain := (List.append_inj heq hlen).1
  exact absurd hdomain (by decide +kernel)

/-- The preimage of an operation binds the action and the hash of its payload. -/
theorem breakglassPreimage_inj {domain : List UInt8} {actionId actionId' : String} {hash hash' : Digest}
    (h : breakglassPreimage domain actionId hash = breakglassPreimage domain actionId' hash') :
    actionId = actionId' ∧ hash = hash' := by
  have hrest := List.cons_inj_right (0 : UInt8) |>.mp (List.append_cancel_left h)
  have hlen : hash.toList.length = hash'.toList.length := by simp
  obtain ⟨hhash, hid⟩ := List.append_inj hrest hlen
  exact ⟨utf8_injective hid, Vector.toList_inj.mp hhash⟩

/-! ## Manifests -/

inductive DataClass where
  | «public»
  | cui
  | phi
  | ferpa
  | ferpaDirectory
  | ferpaRestricted
  | itar
deriving DecidableEq

structure DataClassDecl where
  reads : List DataClass
  writes : List DataClass
  emits : List DataClass

structure RiskDecl where
  tier : RiskTier
  requiredRoles : List Role
  breakGlassEligible : Bool

/-- What break-glass reads of a capsule's manifest. -/
structure Manifest where
  dataClass : DataClassDecl
  risk : RiskDecl

def manifestTouchesItar (m : Manifest) : Bool :=
  let touches := fun v : List DataClass => v.any fun c => c == .itar
  touches m.dataClass.reads || touches m.dataClass.writes || touches m.dataClass.emits

/-! ## The registry -/

inductive BreakGlassPhase where
  | pending
  | invoked
  | affirmed
  | unaffirmed
  | surfaced
deriving DecidableEq

structure BreakGlassEntry where
  actionId : String
  phase : BreakGlassPhase
  invokedAt : Option ℕ
  invoker : Option Signer
  notified : Finset Role
  affirmations : List (Role × Signer)
  surfaceCount : ℕ
  payloadHash : Option Digest

def BreakGlassEntry.new (actionId : String) : BreakGlassEntry where
  actionId := actionId
  phase := .pending
  invokedAt := none
  invoker := none
  notified := ∅
  affirmations := []
  surfaceCount := 0
  payloadHash := none

inductive BreakGlassError where
  | notSecurityOfficer
  | itarBlocked
  | notEligible
  | alreadyInvoked
  | notInvoked
  | notAffirmationRole
  | invokerCannotAffirm
  | duplicateAffirmer
  | affirmationWindowExpired
  | unknownActionId
  | attestationInvalid (m : String)
  | signerNotAuthorized
deriving DecidableEq

/-- The five-role lattice: who is notified of an invocation. -/
def allApprovers : Finset Role := {.operator, .reviewer, .complianceOfficer, .securityOfficer, .auditor}

def affirmationQuorum : Finset Role := {.reviewer, .complianceOfficer}

/-- The entries, by action. -/
abbrev BreakGlassRegistry : Type := String → Option BreakGlassEntry

namespace BreakGlass

section

variable (ctx : SigningContext) (sha256 : List UInt8 → Digest)

/-- Verify an attestation over the domain-separated preimage, and the signer against the roster. -/
def authorize (domain : List UInt8) (actionId : String) (payloadHash : Digest) (attested : Signature) :
    Except BreakGlassError Signer :=
  match verifyAttestation ctx.ed ctx.fingerprint (breakglassPreimage domain actionId payloadHash) attested with
  | .error e => .error (.attestationInvalid e)
  | .ok () =>
      if signerIsAuthorized ctx.roster attested.pubkey attested.signer.role ctx.devAllowed = false then
        .error .signerNotAuthorized
      else .ok attested.signer

/-- The checks of `invoke` before the entry is looked up. -/
def checkInvoke (actionId : String) (payload : List UInt8) (attested : Signature) (manifest : Manifest) :
    Except BreakGlassError Signer :=
  match authorize ctx breakglassInvokeDomain actionId (breakglassPayloadHash sha256 payload) attested with
  | .error e => .error e
  | .ok signer =>
      if signer.role ≠ .securityOfficer then .error .notSecurityOfficer
      else if manifest.risk.breakGlassEligible = false then .error .notEligible
      else if manifestTouchesItar manifest then .error .itarBlocked
      else .ok signer

/-- The Security Officer invokes break-glass on an action. -/
def invoke (r : BreakGlassRegistry) (actionId : String) (payload : List UInt8) (attested : Signature)
    (manifest : Manifest) (now : ℕ) : Except BreakGlassError Unit × BreakGlassRegistry :=
  match checkInvoke ctx sha256 actionId payload attested manifest with
  | .error e => (.error e, r)
  | .ok signer =>
      let entry := (r actionId).getD (.new actionId)
      if entry.phase ≠ .pending then (.error .alreadyInvoked, r)
      else
        (.ok (), Function.update r actionId (some
          { entry with
            phase := .invoked
            invokedAt := some now
            invoker := some signer
            notified := allApprovers
            payloadHash := some (breakglassPayloadHash sha256 payload) }))

/-- The checks of `affirm` on an entry that is invoked, after the attestation. -/
def checkAffirmer (entry : BreakGlassEntry) (signer : Signer) (now : ℕ) : Except BreakGlassError Unit :=
  if signer.role ≠ .reviewer ∧ signer.role ≠ .complianceOfficer then .error .notAffirmationRole
  else if entry.invoker.any fun invoker => invoker.id == signer.id then .error .invokerCannotAffirm
  else if entry.invokedAt.any fun invokedAt => affirmationWindow < now - invokedAt then
    .error .affirmationWindowExpired
  else if (entry.affirmations.any fun a => a.1 == signer.role) || entry.affirmations.any fun a => a.2.id == signer.id
    then .error .duplicateAffirmer
  else .ok ()

/-- A recorded affirmation; with both roles the entry is affirmed. -/
def recordAffirmation (entry : BreakGlassEntry) (signer : Signer) : BreakGlassEntry :=
  let affirmations := entry.affirmations ++ [(signer.role, signer)]
  { entry with
    affirmations
    phase := if affirmationQuorum ⊆ (affirmations.map Prod.fst).toFinset then .affirmed else entry.phase }

/-- `affirm` on the entry of its action. -/
def affirmEntry (entry : BreakGlassEntry) (actionId : String) (attested : Signature) (now : ℕ) :
    Except BreakGlassError BreakGlassEntry :=
  if entry.phase ≠ .invoked then .error .notInvoked
  else
    match entry.payloadHash with
    | none => .error .notInvoked
    | some payloadHash =>
        match authorize ctx breakglassAffirmDomain actionId payloadHash attested with
        | .error e => .error e
        | .ok signer =>
            match checkAffirmer entry signer now with
            | .error e => .error e
            | .ok () => .ok (recordAffirmation entry signer)

/-- A Reviewer or a Compliance Officer affirms an invocation. -/
def affirm (r : BreakGlassRegistry) (actionId : String) (attested : Signature) (now : ℕ) :
    Except BreakGlassError Unit × BreakGlassRegistry :=
  match r actionId with
  | none => (.error .unknownActionId, r)
  | some entry =>
      match affirmEntry ctx entry actionId attested now with
      | .error e => (.error e, r)
      | .ok entry' => (.ok (), Function.update r actionId (some entry'))

end

def tickEntry (now : ℕ) (entry : BreakGlassEntry) : BreakGlassEntry :=
  if entry.phase = .invoked ∧ (entry.invokedAt.any fun invokedAt => affirmationWindow ≤ now - invokedAt) = true then
    { entry with phase := .unaffirmed }
  else entry

/-- Any invoked entry whose window has run out becomes unaffirmed. -/
def tick (r : BreakGlassRegistry) (now : ℕ) : BreakGlassRegistry := fun id => (r id).map (tickEntry now)

def surfaceEntry (entry : BreakGlassEntry) : BreakGlassEntry :=
  match entry.phase with
  | .unaffirmed => { entry with phase := .surfaced, surfaceCount := min (entry.surfaceCount + 1) (2 ^ 32 - 1) }
  | .surfaced => { entry with surfaceCount := min (entry.surfaceCount + 1) (2 ^ 32 - 1) }
  | _ => entry

/-- Any unaffirmed entry is surfaced. -/
def surface (r : BreakGlassRegistry) : BreakGlassRegistry := fun id => (r id).map surfaceEntry

/-! ## Runs -/

inductive Call where
  | invoke (actionId : String) (payload : List UInt8) (attested : Signature) (manifest : Manifest)
  | affirm (actionId : String) (attested : Signature)
  | tick
  | surface

/-- The registry and the clock. -/
structure World where
  registry : BreakGlassRegistry
  now : ℕ

def World.init : World where
  registry := fun _ => none
  now := 0

section

variable (ctx : SigningContext) (sha256 : List UInt8 → Digest)

/-- What a call made at `now` answers and leaves. -/
def call (r : BreakGlassRegistry) (now : ℕ) : Call → Except BreakGlassError Unit × BreakGlassRegistry
  | .invoke actionId payload attested manifest => invoke ctx sha256 r actionId payload attested manifest now
  | .affirm actionId attested => affirm ctx r actionId attested now
  | .tick => (.ok (), tick r now)
  | .surface => (.ok (), surface r)

/-- One call, after some time. -/
def World.exec (w : World) (x : ℕ × Call) : World where
  registry := (call ctx sha256 w.registry (w.now + x.1) x.2).2
  now := w.now + x.1

/-- The world after a list of calls, each with the time that passed before it. -/
abbrev World.run (ls : List (ℕ × Call)) : World := Machine.run (World.exec ctx sha256) .init ls

/-- The call `c` was made in the run `ls`, at the time `t`. -/
def Made (ls : List (ℕ × Call)) (t : ℕ) (c : Call) : Prop :=
  ∃ before d after, ls = before ++ (d, c) :: after ∧ t = (World.run ctx sha256 before).now + d

/-- The call `c` was made in the run `ls`, at the time `t`, and returned `Ok`. -/
def Accepted (ls : List (ℕ × Call)) (t : ℕ) (c : Call) : Prop :=
  ∃ before d after, ls = before ++ (d, c) :: after ∧ t = (World.run ctx sha256 before).now + d ∧
    (call ctx sha256 (World.run ctx sha256 before).registry t c).1 = .ok ()

end

end BreakGlass

end AgentRuntime.Hitl
