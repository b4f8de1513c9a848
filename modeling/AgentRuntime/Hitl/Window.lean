import AgentRuntime.Hitl.Affirmed

/-!
# `Hitl.Window` — an affirmation and a tick at one instant

`affirm` refuses when more than 72 hours have passed, `tick` expires an entry when at least 72 hours have. The two
agree at every instant but the one at which exactly 72 hours have passed (`one_window_iff`).
-/

namespace AgentRuntime.Hitl.BreakGlass

variable {ctx : SigningContext} {r : BreakGlassRegistry} {id : String} {entry : BreakGlassEntry} {sig : Signature}
  {invokedAt now : ℕ}

/-- An affirmation of an invoked entry that completes its quorum, and that only its time can make invalid. -/
structure Completes (ctx : SigningContext) (entry : BreakGlassEntry) (id : String) (sig : Signature) : Prop where
  signs : ∃ hash, entry.payloadHash = some hash ∧
    verifyAttestation ctx.ed ctx.fingerprint (breakglassPreimage breakglassAffirmDomain id hash) sig = .ok ()
  enrolled : signerIsAuthorized ctx.roster sig.pubkey sig.signer.role ctx.devAllowed = true
  role : sig.signer.role = .reviewer ∨ sig.signer.role = .complianceOfficer
  notInvoker : ∀ invoker ∈ entry.invoker, invoker.id ≠ sig.signer.id
  newRole : ∀ a ∈ entry.affirmations, a.1 ≠ sig.signer.role
  newSigner : ∀ a ∈ entry.affirmations, a.2.id ≠ sig.signer.id
  quorum : affirmationQuorum ⊆ ((entry.affirmations ++ [(sig.signer.role, sig.signer)]).map Prod.fst).toFinset

/-- Only the time of a completing affirmation decides. -/
theorem Completes.checkAffirmer_eq (h : Completes ctx entry id sig) (hat : entry.invokedAt = some invokedAt) :
    checkAffirmer entry sig.signer now =
      if affirmationWindow < now - invokedAt then .error .affirmationWindowExpired else .ok () := by
  have hrole : ¬ (sig.signer.role ≠ .reviewer ∧ sig.signer.role ≠ .complianceOfficer) := by
    rintro ⟨hreviewer, hofficer⟩
    rcases h.role with hr | hr
    · exact hreviewer hr
    · exact hofficer hr
  have hinvoker : ¬ (entry.invoker.any fun invoker => invoker.id == sig.signer.id) = true := by
    rw [Option.any_eq_true]
    rintro ⟨invoker, hmem, heq⟩
    exact h.notInvoker invoker hmem (beq_iff_eq.mp heq)
  have hdup : ¬ ((entry.affirmations.any fun a => a.1 == sig.signer.role) ||
      entry.affirmations.any fun a => a.2.id == sig.signer.id) = true := by
    rw [Bool.or_eq_true, List.any_eq_true, List.any_eq_true]
    rintro (⟨a, ha, heq⟩ | ⟨a, ha, heq⟩)
    · exact h.newRole a ha (beq_iff_eq.mp heq)
    · exact h.newSigner a ha (beq_iff_eq.mp heq)
  unfold checkAffirmer
  rw [if_neg hrole, if_neg hinvoker, if_neg hdup, hat]
  simp only [Option.any_some, decide_eq_true_eq]

/-- **What `affirm` does with a completing affirmation.** -/
theorem Completes.affirmEntry_eq (h : Completes ctx entry id sig) (hphase : entry.phase = .invoked)
    (hat : entry.invokedAt = some invokedAt) :
    affirmEntry ctx entry id sig now =
      if affirmationWindow < now - invokedAt then .error .affirmationWindowExpired
      else .ok (recordAffirmation entry sig.signer) := by
  obtain ⟨hash, hhash, hverify⟩ := h.signs
  unfold affirmEntry authorize
  rw [if_neg (not_not.mpr hphase), hhash]
  simp only [hverify, h.enrolled, Bool.true_eq_false, if_false, h.checkAffirmer_eq hat]
  by_cases hlate : affirmationWindow < now - invokedAt
  · rw [if_pos hlate, if_pos hlate]
  · rw [if_neg hlate, if_neg hlate]

theorem Completes.affirmed (h : Completes ctx entry id sig) :
    (recordAffirmation entry sig.signer).phase = .affirmed := if_pos h.quorum

/-- **What `tick` does with an invoked entry.** -/
theorem tickEntry_eq (hphase : entry.phase = .invoked) (hat : entry.invokedAt = some invokedAt) :
    tickEntry now entry =
      if affirmationWindow ≤ now - invokedAt then { entry with phase := .unaffirmed } else entry := by
  unfold tickEntry
  rw [hat]
  simp only [hphase, true_and, Option.any_some, decide_eq_true_eq]

/-- Nothing but an invoked entry expires. -/
theorem tickEntry_of_ne (hphase : entry.phase ≠ .invoked) : tickEntry now entry = entry :=
  if_neg fun h => hphase h.1

theorem affirm_eq (hentry : r id = some entry) :
    affirm ctx r id sig now = match affirmEntry ctx entry id sig now with
      | .error e => (.error e, r)
      | .ok entry' => (.ok (), Function.update r id (some entry')) := by
  unfold affirm
  cases haffirm : affirmEntry ctx entry id sig now with
  | error e => simp only [hentry, haffirm]
  | ok entry' => simp only [hentry, haffirm]

/-- An update of the registry and a tick, when the tick leaves the entry alone. -/
theorem tick_update {entry' : BreakGlassEntry} (hkept : tickEntry now entry' = entry') :
    tick (Function.update r id (some entry')) now = Function.update (tick r now) id (some entry') := by
  funext i
  unfold tick
  by_cases hi : i = id
  · subst hi
    simp only [Function.update_self, Option.map_some, hkept]
  · simp only [Function.update_of_ne hi]

/-! ## One window -/

/-- The affirmation is refused as expired exactly when the tick expires the entry. -/
def OneWindow (ctx : SigningContext) (r : BreakGlassRegistry) (id : String) (sig : Signature) (now : ℕ) : Prop :=
  (affirm ctx r id sig now).1 = .error .affirmationWindowExpired ↔ phaseOf (tick r now id) = .unaffirmed

/-- The affirmation and the tick have one outcome, in either order: both take the affirmation or neither does, and they
    leave the same registry. -/
def OrderFree (ctx : SigningContext) (r : BreakGlassRegistry) (id : String) (sig : Signature) (now : ℕ) : Prop :=
  ((affirm ctx r id sig now).1 = .ok () ↔ (affirm ctx (tick r now) id sig now).1 = .ok ()) ∧
    tick (affirm ctx r id sig now).2 now = (affirm ctx (tick r now) id sig now).2

/-- **When the window is one window.** For an invoked entry and a completing affirmation, at or after the invocation:
    `affirm` and `tick` agree, and their order does not matter, unless exactly 72 hours have passed. -/
theorem one_window_iff (hentry : r id = some entry) (hphase : entry.phase = .invoked)
    (hat : entry.invokedAt = some invokedAt) (hle : invokedAt ≤ now) (hcompletes : Completes ctx entry id sig) :
    (OneWindow ctx r id sig now ↔ now ≠ invokedAt + affirmationWindow) ∧
      (OrderFree ctx r id sig now ↔ now ≠ invokedAt + affirmationWindow) := by
  have htick : tick r now id = some (tickEntry now entry) := by
    unfold tick
    rw [hentry, Option.map_some]
  have hdone := hcompletes.affirmed
  have hkept : tickEntry now (recordAffirmation entry sig.signer) = recordAffirmation entry sig.signer := by
    apply tickEntry_of_ne
    rw [hdone]
    decide
  unfold OneWindow OrderFree
  rw [affirm_eq hentry, affirm_eq htick, htick, tickEntry_eq hphase hat, hcompletes.affirmEntry_eq hphase hat]
  rcases lt_trichotomy now (invokedAt + affirmationWindow) with hearly | hexact | hlate
  · -- Within the window: the affirmation is taken, and the tick does nothing.
    have hnotAfter : ¬ affirmationWindow < now - invokedAt := by omega
    have hnotDue : ¬ affirmationWindow ≤ now - invokedAt := by omega
    rw [if_neg hnotAfter, if_neg hnotDue, hcompletes.affirmEntry_eq hphase hat, if_neg hnotAfter]
    refine ⟨iff_of_true (iff_of_false nofun ?_) hearly.ne, iff_of_true ⟨Iff.rfl, tick_update hkept⟩ hearly.ne⟩
    show entry.phase ≠ .unaffirmed
    rw [hphase]
    decide
  · -- At the boundary: `affirm` takes it, `tick` expires it.
    have hnotAfter : ¬ affirmationWindow < now - invokedAt := by omega
    have hdue : affirmationWindow ≤ now - invokedAt := by omega
    rw [if_neg hnotAfter, if_pos hdue]
    refine ⟨iff_of_false (fun h => nomatch h.mpr rfl) (not_not.mpr hexact), ?_⟩
    refine iff_of_false ?_ (not_not.mpr hexact)
    rintro ⟨htaken, -⟩
    exact nomatch htaken.mp rfl
  · -- After the window: the affirmation is refused in either order, and the entry expires.
    have hafter : affirmationWindow < now - invokedAt := by omega
    have hdue : affirmationWindow ≤ now - invokedAt := by omega
    rw [if_pos hafter, if_pos hdue]
    refine ⟨iff_of_true (iff_of_true rfl rfl) hlate.ne', iff_of_true ⟨iff_of_false nofun nofun, ?_⟩ hlate.ne'⟩
    rfl

/-! ### The instant at which the window runs out -/

/-- Invoked at once, and affirmed by a Reviewer. -/
def halfAffirmed : List (ℕ × Call) :=
  [(0, .invoke "a" [] (signed 0 .securityOfficer (invokePreimage Sha256.hash "a" [])) eligible),
    (1, .affirm "a" (bothRoles .reviewer))]

def halfAffirmedRegistry : BreakGlassRegistry := (World.run plainContext Sha256.hash halfAffirmed).registry

theorem halfAffirmed_isSome : (halfAffirmedRegistry "a").isSome = true := by decide +kernel

def halfAffirmedEntry : BreakGlassEntry := (halfAffirmedRegistry "a").get halfAffirmed_isSome

theorem halfAffirmed_completes : Completes plainContext halfAffirmedEntry "a" otherOfficer where
  signs := ⟨breakglassPayloadHash Sha256.hash [], by decide +kernel, by decide +kernel⟩
  enrolled := by decide +kernel
  role := by decide +kernel
  notInvoker := by decide +kernel
  newRole := by decide +kernel
  newSigner := by decide +kernel
  quorum := by decide +kernel

/-- An hour before the window runs out the order does not matter; at its end it does. -/
theorem one_window_half_affirmed :
    OrderFree plainContext halfAffirmedRegistry "a" otherOfficer (affirmationWindow - 3600000000000) ∧
      ¬ OrderFree plainContext halfAffirmedRegistry "a" otherOfficer affirmationWindow := by
  have hentry : halfAffirmedRegistry "a" = some halfAffirmedEntry := (Option.some_get halfAffirmed_isSome).symm
  have hphase : halfAffirmedEntry.phase = .invoked := by decide +kernel
  have hat : halfAffirmedEntry.invokedAt = some 0 := by decide +kernel
  refine ⟨(one_window_iff hentry hphase hat (Nat.zero_le _) halfAffirmed_completes).2.mpr (by decide), ?_⟩
  intro hfree
  exact (one_window_iff hentry hphase hat (Nat.zero_le _) halfAffirmed_completes).2.mp hfree (by decide)

/-- When exactly 72 hours have passed the affirmation is not refused as expired, and the tick expires the entry. -/
theorem boundary_is_in_and_out :
    phaseOf (halfAffirmedRegistry "a") = .invoked ∧
      (affirm plainContext halfAffirmedRegistry "a" otherOfficer affirmationWindow).1 = .ok () ∧
      phaseOf (tick halfAffirmedRegistry affirmationWindow "a") = .unaffirmed ∧
      ¬ OneWindow plainContext halfAffirmedRegistry "a" otherOfficer affirmationWindow := by
  have hok : (affirm plainContext halfAffirmedRegistry "a" otherOfficer affirmationWindow).1 = .ok () := by
    decide +kernel
  have hdue : phaseOf (tick halfAffirmedRegistry affirmationWindow "a") = .unaffirmed := by decide +kernel
  refine ⟨by decide +kernel, hok, hdue, ?_⟩
  intro hone
  have hrefused := hone.mpr hdue
  rw [hok] at hrefused
  cases hrefused

end AgentRuntime.Hitl.BreakGlass
