import Mathlib

/-!
# `Hitl.Quorum` — roles and quorums (`agent/core/src/hitl/roles.rs`, `quorum.rs`)

The five roles, who may approve, and what each risk tier asks for. `satisfiedBy` depends on the set of
approving roles only (`satisfiedBy_congr`), so repeating a role never helps.
-/

namespace AgentRuntime.Hitl

/-- The five-role lattice. -/
inductive Role where
  | operator
  | reviewer
  | complianceOfficer
  | securityOfficer
  | auditor
deriving DecidableEq, Repr

/-- Roles that must not be held by the same person for one action. -/
def isConflict : Role → Role → Bool
  | .complianceOfficer, .securityOfficer => true
  | .securityOfficer, .complianceOfficer => true
  | _, _ => false

/-- An auditor never approves. -/
def canApprove (role : Role) : Bool := role != .auditor

inductive RiskTier where
  | low
  | medium
  | high
  | critical
deriving DecidableEq, Repr

/-- The signature requirement for an action at a risk tier. -/
inductive Quorum where
  /-- Tier low: log only. -/
  | autoApprove
  /-- Tier medium: one signature from the set. -/
  | oneOf (set : Finset Role)
  /-- Tier high: signatures from `n` distinct roles of the set. -/
  | nOfM (n : ℕ) (m : Finset Role)
  /-- Tier critical: every named role. -/
  | multiset (required : Finset Role)
deriving DecidableEq

/-- The quorum of an action of the given tier. For tier critical the manifest's set is ignored. -/
def Quorum.forTier (tier : RiskTier) (manifestRequired : List Role) : Quorum :=
  match tier with
  | .low => .autoApprove
  | .medium => .oneOf manifestRequired.toFinset
  | .high => .nOfM 2 manifestRequired.toFinset
  | .critical => .multiset {.securityOfficer, .complianceOfficer, .reviewer}

/-- Whether the accumulated signer roles satisfy the quorum. -/
def Quorum.satisfiedBy (q : Quorum) (signedRoles : List Role) : Bool :=
  let usable := signedRoles.filter canApprove
  match q with
  | .autoApprove => true
  | .oneOf set => usable.any fun r => decide (r ∈ set)
  | .nOfM n m => decide (n ≤ (usable.filter fun r => decide (r ∈ m)).toFinset.card)
  | .multiset required => decide (required ⊆ usable.toFinset)

/-- Only the set of approving roles counts. -/
theorem satisfiedBy_congr (q : Quorum) {rs ss : List Role}
    (h : ∀ r, canApprove r = true → (r ∈ rs ↔ r ∈ ss)) : q.satisfiedBy rs = q.satisfiedBy ss := by
  have husable : ∀ r, r ∈ rs.filter canApprove ↔ r ∈ ss.filter canApprove := by
    intro r
    rw [List.mem_filter, List.mem_filter]
    constructor
    · rintro ⟨hr, happrove⟩
      exact ⟨(h r happrove).mp hr, happrove⟩
    · rintro ⟨hr, happrove⟩
      exact ⟨(h r happrove).mpr hr, happrove⟩
  unfold Quorum.satisfiedBy
  generalize rs.filter canApprove = us at husable ⊢
  generalize ss.filter canApprove = vs at husable ⊢
  cases q with
  | autoApprove => rfl
  | oneOf set =>
      simp only
      rw [Bool.eq_iff_iff, List.any_eq_true, List.any_eq_true]
      exact exists_congr fun r => and_congr_left fun _ => husable r
  | nOfM n m =>
      have hset : (us.filter fun r => decide (r ∈ m)).toFinset
          = (vs.filter fun r => decide (r ∈ m)).toFinset := by
        ext r
        rw [List.mem_toFinset, List.mem_toFinset, List.mem_filter, List.mem_filter, husable]
      simp only [hset]
  | multiset required =>
      have hset : us.toFinset = vs.toFinset := by
        ext r
        rw [List.mem_toFinset, List.mem_toFinset, husable]
      simp only [hset]

/-- Two signatures of one role are one towards a quorum of two. -/
example : (Quorum.forTier .high [.reviewer, .complianceOfficer]).satisfiedBy [.reviewer, .reviewer] = false :=
  by decide

end AgentRuntime.Hitl
