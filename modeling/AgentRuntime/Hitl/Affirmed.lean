import AgentRuntime.Hitl.BreakGlass

/-!
# `Hitl.Affirmed` — what an entry of the break-glass registry tells

`changed` says what one call does to one entry. `told` carries along a run which accepted calls made the entry:
the invocation, under an eligible manifest, by an enrolled Security Officer; and the affirmations, each over the
recorded payload and within the window. The main result is `affirmed_iff`.
-/

namespace AgentRuntime.Hitl.BreakGlass

variable {ctx : SigningContext} {sha256 : List UInt8 → Digest}

/-! ## What an accepted call checked -/

/-- An invocation that may be accepted. -/
structure InvokedWith (ctx : SigningContext) (sha256 : List UInt8 → Digest) (actionId : String)
    (payload : List UInt8) (sig : Signature) (manifest : Manifest) : Prop where
  signs : verifyAttestation ctx.ed ctx.fingerprint (invokePreimage sha256 actionId payload) sig = .ok ()
  enrolled : signerIsAuthorized ctx.roster sig.pubkey sig.signer.role ctx.devAllowed = true
  role : sig.signer.role = .securityOfficer
  eligible : manifest.risk.breakGlassEligible = true
  noItar : ∀ c ∈ manifest.dataClass.reads ++ manifest.dataClass.writes ++ manifest.dataClass.emits, c ≠ .itar

/-- An affirmation over the bytes of an action. -/
structure AffirmedWith (ctx : SigningContext) (sha256 : List UInt8 → Digest) (actionId : String)
    (payload : List UInt8) (sig : Signature) : Prop where
  signs : verifyAttestation ctx.ed ctx.fingerprint (affirmPreimage sha256 actionId payload) sig = .ok ()
  enrolled : signerIsAuthorized ctx.roster sig.pubkey sig.signer.role ctx.devAllowed = true

theorem authorize_ok {domain : List UInt8} {actionId : String} {hash : Digest} {sig : Signature} {signer : Signer}
    (h : authorize ctx domain actionId hash sig = .ok signer) :
    verifyAttestation ctx.ed ctx.fingerprint (breakglassPreimage domain actionId hash) sig = .ok () ∧
      signerIsAuthorized ctx.roster sig.pubkey sig.signer.role ctx.devAllowed = true ∧ signer = sig.signer := by
  unfold authorize at h
  split at h
  · cases h
  · rename_i hverify
    split at h
    · cases h
    · rename_i hroster
      cases h
      exact ⟨hverify, by simpa using hroster, rfl⟩

theorem touches_iff (m : Manifest) : manifestTouchesItar m = false ↔
    ∀ c ∈ m.dataClass.reads ++ m.dataClass.writes ++ m.dataClass.emits, c ≠ .itar := by
  unfold manifestTouchesItar
  simp only [Bool.or_eq_false_iff, List.any_eq_false, beq_iff_eq, List.mem_append]
  constructor
  · rintro ⟨⟨hreads, hwrites⟩, hemits⟩ c ((hc | hc) | hc)
    · exact hreads c hc
    · exact hwrites c hc
    · exact hemits c hc
  · intro h
    exact ⟨⟨fun c hc => h c (.inl (.inl hc)), fun c hc => h c (.inl (.inr hc))⟩, fun c hc => h c (.inr hc)⟩

theorem checkInvoke_ok {actionId : String} {payload : List UInt8} {sig : Signature} {manifest : Manifest}
    {signer : Signer} (h : checkInvoke ctx sha256 actionId payload sig manifest = .ok signer) :
    InvokedWith ctx sha256 actionId payload sig manifest ∧ signer = sig.signer := by
  unfold checkInvoke at h
  split at h
  · cases h
  · rename_i signer' hauth
    obtain ⟨hverify, hroster, rfl⟩ := authorize_ok hauth
    split at h
    · cases h
    · rename_i hrole
      split at h
      · cases h
      · rename_i heligible
        split at h
        · cases h
        · rename_i hitar
          cases h
          refine ⟨⟨hverify, hroster, not_not.mp hrole, by simpa using heligible, ?_⟩, rfl⟩
          exact (touches_iff manifest).mp (by simpa using hitar)

/-- What `affirm` checks of the affirmer. -/
structure Affirmer (entry : BreakGlassEntry) (signer : Signer) (now : ℕ) : Prop where
  role : signer.role = .reviewer ∨ signer.role = .complianceOfficer
  notInvoker : ∀ invoker ∈ entry.invoker, invoker.id ≠ signer.id
  inWindow : ∀ invokedAt ∈ entry.invokedAt, now - invokedAt ≤ affirmationWindow
  newRole : ∀ a ∈ entry.affirmations, a.1 ≠ signer.role
  newSigner : ∀ a ∈ entry.affirmations, a.2.id ≠ signer.id

theorem checkAffirmer_ok {entry : BreakGlassEntry} {signer : Signer} {now : ℕ}
    (h : checkAffirmer entry signer now = .ok ()) : Affirmer entry signer now := by
  unfold checkAffirmer at h
  split at h
  · cases h
  · rename_i hrole
    split at h
    · cases h
    · rename_i hinvoker
      split at h
      · cases h
      · rename_i hwindow
        split at h
        · cases h
        · rename_i hdup
          rw [Bool.or_eq_true, not_or] at hdup
          constructor
          · by_contra hnot
            exact hrole (not_or.mp hnot)
          · intro invoker hmem heq
            rw [Option.mem_def] at hmem
            exact hinvoker (by simp [hmem, heq])
          · intro invokedAt hmem
            rw [Option.mem_def] at hmem
            by_contra hlt
            have hlate : affirmationWindow < now - invokedAt := not_le.mp hlt
            exact hwindow (by rw [hmem, Option.any_some]; exact decide_eq_true hlate)
          · intro a ha heq
            exact hdup.1 (List.any_eq_true.mpr ⟨a, ha, by simp [heq]⟩)
          · intro a ha heq
            exact hdup.2 (List.any_eq_true.mpr ⟨a, ha, by simp [heq]⟩)

theorem affirmEntry_ok {entry entry' : BreakGlassEntry} {actionId : String} {sig : Signature} {now : ℕ}
    (h : affirmEntry ctx entry actionId sig now = .ok entry') :
    entry.phase = .invoked ∧ (∃ hash, entry.payloadHash = some hash ∧
      verifyAttestation ctx.ed ctx.fingerprint (breakglassPreimage breakglassAffirmDomain actionId hash) sig = .ok ()) ∧
      signerIsAuthorized ctx.roster sig.pubkey sig.signer.role ctx.devAllowed = true ∧
      Affirmer entry sig.signer now ∧ entry' = recordAffirmation entry sig.signer := by
  unfold affirmEntry at h
  split at h
  · cases h
  · rename_i hphase
    split at h
    · cases h
    · rename_i hash hhash
      split at h
      · cases h
      · rename_i signer hauth
        obtain ⟨hverify, hroster, rfl⟩ := authorize_ok hauth
        split at h
        · cases h
        · rename_i hcheck
          cases h
          exact ⟨not_not.mp hphase, ⟨hash, hhash, hverify⟩, hroster, checkAffirmer_ok hcheck, rfl⟩

/-! ## What a call does to an entry -/

/-- The entry an accepted invocation leaves. -/
def invokedEntry (sha256 : List UInt8 → Digest) (entry : BreakGlassEntry) (payload : List UInt8) (signer : Signer)
    (now : ℕ) : BreakGlassEntry :=
  { entry with
    phase := .invoked
    invokedAt := some now
    invoker := some signer
    notified := allApprovers
    payloadHash := some (breakglassPayloadHash sha256 payload) }

/-- How the call `c`, made at `now`, changes the entry of `id`, from `before`. -/
inductive Changed (ctx : SigningContext) (sha256 : List UInt8 → Digest) (now : ℕ) (id : String)
    (before : Option BreakGlassEntry) : Call → Except BreakGlassError Unit → Option BreakGlassEntry → Prop
  | kept {c : Call} {answer : Except BreakGlassError Unit} (h : ∀ sig, c = .affirm id sig → answer ≠ .ok ()) :
      Changed ctx sha256 now id before c answer before
  | invoked {payload : List UInt8} {sig : Signature} {manifest : Manifest}
      (checked : InvokedWith ctx sha256 id payload sig manifest) (fresh : (before.getD (.new id)).phase = .pending) :
      Changed ctx sha256 now id before (.invoke id payload sig manifest) (.ok ())
        (some (invokedEntry sha256 (before.getD (.new id)) payload sig.signer now))
  | affirmed {entry entry' : BreakGlassEntry} {sig : Signature} (there : before = some entry)
      (checked : affirmEntry ctx entry id sig now = .ok entry') :
      Changed ctx sha256 now id before (.affirm id sig) (.ok ()) (some entry')
  | tick : Changed ctx sha256 now id before .tick (.ok ()) (before.map (tickEntry now))
  | surface : Changed ctx sha256 now id before .surface (.ok ()) (before.map surfaceEntry)

/-- **What one call does to one entry.** -/
theorem changed (ctx : SigningContext) (sha256 : List UInt8 → Digest) (r : BreakGlassRegistry) (now : ℕ) (c : Call)
    (id : String) :
    Changed ctx sha256 now id (r id) c (call ctx sha256 r now c).1 ((call ctx sha256 r now c).2 id) := by
  cases c with
  | invoke actionId payload sig manifest =>
      show Changed ctx sha256 now id (r id) _ (invoke ctx sha256 r actionId payload sig manifest now).1
        ((invoke ctx sha256 r actionId payload sig manifest now).2 id)
      unfold invoke
      split
      · exact .kept fun _ h => by cases h
      · rename_i signer hcheck
        obtain ⟨hchecked, rfl⟩ := checkInvoke_ok hcheck
        simp only
        split
        · exact .kept fun _ h => by cases h
        · rename_i hphase
          by_cases hid : id = actionId
          · subst hid
            simp only [Function.update_self]
            exact .invoked hchecked (not_not.mp hphase)
          · simp only [Function.update_of_ne hid]
            exact .kept fun _ h => by cases h
  | affirm actionId sig =>
      show Changed ctx sha256 now id (r id) _ (affirm ctx r actionId sig now).1 ((affirm ctx r actionId sig now).2 id)
      unfold affirm
      split
      · exact .kept fun _ _ h => by cases h
      · rename_i entry hentry
        split
        · exact .kept fun _ _ h => by cases h
        · rename_i entry' haffirm
          by_cases hid : id = actionId
          · subst hid
            simp only [Function.update_self]
            exact .affirmed hentry haffirm
          · simp only [Function.update_of_ne hid]
            refine .kept fun sig' h => ?_
            injection h with hid' _
            exact absurd hid'.symm hid
  | tick => exact .tick
  | surface => exact .surface

/-! ## Phases -/

/-- `Pending → Invoked → {Affirmed | Unaffirmed → Surfaced}`. -/
inductive PhaseStep : BreakGlassPhase → BreakGlassPhase → Prop
  | invoke : PhaseStep .pending .invoked
  | affirm : PhaseStep .invoked .affirmed
  | expire : PhaseStep .invoked .unaffirmed
  | surface : PhaseStep .unaffirmed .surfaced

/-- An action without an entry is pending. -/
def phaseOf (entry : Option BreakGlassEntry) : BreakGlassPhase := (entry.map BreakGlassEntry.phase).getD .pending

theorem phaseOf_getD (entry : Option BreakGlassEntry) (id : String) :
    (entry.getD (.new id)).phase = phaseOf entry := by
  cases entry <;> rfl

theorem recordAffirmation_phase (entry : BreakGlassEntry) (signer : Signer) (h : entry.phase = .invoked) :
    (recordAffirmation entry signer).phase = .invoked ∨ (recordAffirmation entry signer).phase = .affirmed := by
  unfold recordAffirmation
  simp only
  split
  · exact .inr rfl
  · exact .inl h

/-- **A call moves a phase one step or not at all.** -/
theorem Changed.phase {now : ℕ} {id : String} {before after : Option BreakGlassEntry} {c : Call}
    {answer : Except BreakGlassError Unit} (h : Changed ctx sha256 now id before c answer after) :
    phaseOf before = phaseOf after ∨ PhaseStep (phaseOf before) (phaseOf after) := by
  cases h with
  | kept _ => exact .inl rfl
  | invoked _ fresh =>
      rw [phaseOf_getD] at fresh
      rw [fresh]
      exact .inr .invoke
  | @affirmed entry entry' sig there checked =>
      obtain ⟨hphase, -, -, -, rfl⟩ := affirmEntry_ok checked
      subst there
      show entry.phase = _ ∨ PhaseStep entry.phase _
      rcases recordAffirmation_phase entry sig.signer hphase with hsame | hdone
      · exact .inl (hphase.trans hsame.symm)
      · right
        show PhaseStep entry.phase (recordAffirmation entry sig.signer).phase
        rw [hphase, hdone]
        exact .affirm
  | tick =>
      cases before with
      | none => exact .inl rfl
      | some entry =>
          show entry.phase = (tickEntry now entry).phase ∨ PhaseStep entry.phase (tickEntry now entry).phase
          unfold tickEntry
          split
          · rename_i hdue
            rw [hdue.1]
            exact .inr .expire
          · exact .inl rfl
  | surface =>
      cases before with
      | none => exact .inl rfl
      | some entry =>
          show entry.phase = (surfaceEntry entry).phase ∨ PhaseStep entry.phase (surfaceEntry entry).phase
          unfold surfaceEntry
          split
          · rename_i hphase
            rw [hphase]
            exact .inr .surface
          · exact .inl rfl
          · exact .inl rfl

/-! ## Calls of a run -/

theorem made_concat {ls : List (ℕ × Call)} {x : ℕ × Call} {t : ℕ} {c : Call} :
    Made ctx sha256 (ls ++ [x]) t c ↔
      Made ctx sha256 ls t c ∨ (c = x.2 ∧ t = (World.run ctx sha256 ls).now + x.1) := by
  constructor
  · rintro ⟨before, d, after, hls, ht⟩
    rcases List.eq_nil_or_concat after with rfl | ⟨after', y, rfl⟩
    · obtain ⟨rfl, hx⟩ := List.append_inj' hls rfl
      obtain rfl : x = (d, c) := by simpa using hx
      exact .inr ⟨rfl, ht⟩
    · left
      refine ⟨before, d, after', ?_, ht⟩
      have hconcat : ls ++ [x] = (before ++ (d, c) :: after') ++ [y] := by
        rw [hls]
        simp
      exact (List.append_inj' hconcat rfl).1
  · rintro (⟨before, d, after, rfl, ht⟩ | ⟨rfl, ht⟩)
    · exact ⟨before, d, after ++ [x], by simp, ht⟩
    · exact ⟨ls, x.1, [], rfl, ht⟩

theorem accepted_concat {ls : List (ℕ × Call)} {x : ℕ × Call} {t : ℕ} {c : Call} :
    Accepted ctx sha256 (ls ++ [x]) t c ↔
      Accepted ctx sha256 ls t c ∨ (c = x.2 ∧ t = (World.run ctx sha256 ls).now + x.1 ∧
        (call ctx sha256 (World.run ctx sha256 ls).registry t c).1 = .ok ()) := by
  constructor
  · rintro ⟨before, d, after, hls, ht, hok⟩
    rcases List.eq_nil_or_concat after with rfl | ⟨after', y, rfl⟩
    · obtain ⟨rfl, hx⟩ := List.append_inj' hls rfl
      obtain rfl : x = (d, c) := by simpa using hx
      exact .inr ⟨rfl, ht, hok⟩
    · left
      refine ⟨before, d, after', ?_, ht, hok⟩
      have hconcat : ls ++ [x] = (before ++ (d, c) :: after') ++ [y] := by
        rw [hls]
        simp
      exact (List.append_inj' hconcat rfl).1
  · rintro (⟨before, d, after, rfl, ht, hok⟩ | ⟨rfl, ht, hok⟩)
    · exact ⟨before, d, after ++ [x], by simp, ht, hok⟩
    · exact ⟨ls, x.1, [], rfl, ht, hok⟩

/-- No call is made later than now. -/
theorem accepted_le {ls : List (ℕ × Call)} {t : ℕ} {c : Call} (h : Accepted ctx sha256 ls t c) :
    t ≤ (World.run ctx sha256 ls).now := by
  induction ls using List.reverseRecOn with
  | nil =>
      obtain ⟨before, d, after, hls, -⟩ := h
      simp at hls
  | append_singleton ls x ih =>
      have hnow : (World.run ctx sha256 (ls ++ [x])).now = (World.run ctx sha256 ls).now + x.1 := by
        rw [World.run, Machine.run_concat]
        rfl
      rw [hnow]
      rcases accepted_concat.mp h with hbefore | ⟨-, ht, -⟩
      · exact (ih hbefore).trans (Nat.le_add_right _ _)
      · exact ht.le

/-! ## The invariant of an entry -/

/-- A call of `invoke`, with its time. -/
structure Invocation where
  time : ℕ
  payload : List UInt8
  attested : Signature
  manifest : Manifest

/-- The affirmation `sig`, accepted at `t`, of the invocation `inv` of `id`. -/
structure Affirmation (ctx : SigningContext) (sha256 : List UInt8 → Digest) (ls : List (ℕ × Call)) (id : String)
    (inv : Invocation) (t : ℕ) (sig : Signature) : Prop where
  accepted : Accepted ctx sha256 ls t (.affirm id sig)
  signed : AffirmedWith ctx sha256 id inv.payload sig
  role : sig.signer.role = .reviewer ∨ sig.signer.role = .complianceOfficer
  notInvoker : sig.signer.id ≠ inv.attested.signer.id
  notBefore : inv.time ≤ t
  inWindow : t ≤ inv.time + affirmationWindow

/-- **What an entry tells.** -/
structure Told (ctx : SigningContext) (sha256 : List UInt8 → Digest) (ls : List (ℕ × Call)) (id : String)
    (inv : Invocation) (e : BreakGlassEntry) : Prop where
  notPending : e.phase ≠ .pending
  accepted : Accepted ctx sha256 ls inv.time (.invoke id inv.payload inv.attested inv.manifest)
  checked : InvokedWith ctx sha256 id inv.payload inv.attested inv.manifest
  invoker : e.invoker = some inv.attested.signer
  invokedAt : e.invokedAt = some inv.time
  payloadHash : e.payloadHash = some (breakglassPayloadHash sha256 inv.payload)
  recorded : ∀ a ∈ e.affirmations, ∃ t sig, Affirmation ctx sha256 ls id inv t sig ∧ a = (sig.signer.role, sig.signer)
  complete : ∀ t sig, Accepted ctx sha256 ls t (.affirm id sig) → (sig.signer.role, sig.signer) ∈ e.affirmations
  distinct : e.affirmations.Pairwise fun a b => a.2.id ≠ b.2.id
  affirmed : e.phase = .affirmed ↔ affirmationQuorum ⊆ (e.affirmations.map Prod.fst).toFinset

/-- An action is told by its entry, or nobody affirmed it. -/
def Tells (ctx : SigningContext) (sha256 : List UInt8 → Digest) (ls : List (ℕ × Call)) (id : String) :
    Option BreakGlassEntry → Prop
  | none => ∀ t sig, ¬ Accepted ctx sha256 ls t (.affirm id sig)
  | some e => ∃ inv, Told ctx sha256 ls id inv e

section

variable {ls : List (ℕ × Call)} {x : ℕ × Call} {id : String} {inv : Invocation} {e : BreakGlassEntry}

theorem Affirmation.concat {t : ℕ} {sig : Signature} (h : Affirmation ctx sha256 ls id inv t sig) (x : ℕ × Call) :
    Affirmation ctx sha256 (ls ++ [x]) id inv t sig :=
  { h with accepted := accepted_concat.mpr (.inl h.accepted) }

/-- A call that accepts no affirmation of the action leaves what is told of an entry with the same people. -/
theorem Told.concat {e' : BreakGlassEntry} (h : Told ctx sha256 ls id inv e)
    (hno : ∀ t sig, Accepted ctx sha256 (ls ++ [x]) t (.affirm id sig) → Accepted ctx sha256 ls t (.affirm id sig))
    (hpeople : e'.invoker = e.invoker ∧ e'.invokedAt = e.invokedAt ∧ e'.payloadHash = e.payloadHash ∧
      e'.affirmations = e.affirmations)
    (hphase : e'.phase ≠ .pending ∧ (e'.phase = .affirmed ↔ e.phase = .affirmed)) :
    Told ctx sha256 (ls ++ [x]) id inv e' := by
  obtain ⟨hinvoker, hat, hhash, haffs⟩ := hpeople
  constructor
  · exact hphase.1
  · exact accepted_concat.mpr (.inl h.accepted)
  · exact h.checked
  · exact hinvoker.trans h.invoker
  · exact hat.trans h.invokedAt
  · exact hhash.trans h.payloadHash
  · intro a ha
    rw [haffs] at ha
    obtain ⟨t, sig, haff, rfl⟩ := h.recorded a ha
    exact ⟨t, sig, haff.concat x, rfl⟩
  · intro t sig hacc
    rw [haffs]
    exact h.complete t sig (hno t sig hacc)
  · rw [haffs]
    exact h.distinct
  · rw [haffs]
    exact hphase.2.trans h.affirmed

theorem tickEntry_told (now : ℕ) (h : Told ctx sha256 ls id inv e)
    (hno : ∀ t sig, Accepted ctx sha256 (ls ++ [x]) t (.affirm id sig) → Accepted ctx sha256 ls t (.affirm id sig)) :
    Told ctx sha256 (ls ++ [x]) id inv (tickEntry now e) := by
  apply h.concat hno
  · unfold tickEntry
    split <;> exact ⟨rfl, rfl, rfl, rfl⟩
  · unfold tickEntry
    split
    · rename_i hdue
      simp [hdue.1]
    · exact ⟨h.notPending, Iff.rfl⟩

theorem surfaceEntry_told (h : Told ctx sha256 ls id inv e)
    (hno : ∀ t sig, Accepted ctx sha256 (ls ++ [x]) t (.affirm id sig) → Accepted ctx sha256 ls t (.affirm id sig)) :
    Told ctx sha256 (ls ++ [x]) id inv (surfaceEntry e) := by
  apply h.concat hno
  · unfold surfaceEntry
    split <;> exact ⟨rfl, rfl, rfl, rfl⟩
  · unfold surfaceEntry
    split
    · rename_i hphase
      simp [hphase]
    · rename_i hphase
      simp [hphase]
    · exact ⟨h.notPending, Iff.rfl⟩

/-- **An accepted affirmation** is told by the entry it leaves. -/
theorem recordAffirmation_told {sig : Signature} {e' : BreakGlassEntry} {now : ℕ}
    (h : Told ctx sha256 ls id inv e) (hle : inv.time ≤ now) (hchecked : affirmEntry ctx e id sig now = .ok e')
    (hacc : Accepted ctx sha256 (ls ++ [x]) now (.affirm id sig))
    (hno : ∀ t sig', Accepted ctx sha256 (ls ++ [x]) t (.affirm id sig') →
      Accepted ctx sha256 ls t (.affirm id sig') ∨ sig' = sig) :
    Told ctx sha256 (ls ++ [x]) id inv e' := by
  obtain ⟨hphase, ⟨hash, hhash, hverify⟩, hroster, haffirmer, rfl⟩ := affirmEntry_ok hchecked
  have hpayload : hash = breakglassPayloadHash sha256 inv.payload := by
    have := hhash.symm.trans h.payloadHash
    exact Option.some.inj this
  rw [hpayload] at hverify
  have hnew : Affirmation ctx sha256 (ls ++ [x]) id inv now sig := by
    refine ⟨hacc, ⟨hverify, hroster⟩, haffirmer.role, ?_, hle, ?_⟩
    · exact (haffirmer.notInvoker _ h.invoker).symm
    · have := haffirmer.inWindow _ h.invokedAt
      omega
  constructor
  · rcases recordAffirmation_phase e sig.signer hphase with hsame | hdone
    · rw [hsame]
      decide
    · rw [hdone]
      decide
  · exact accepted_concat.mpr (.inl h.accepted)
  · exact h.checked
  · exact h.invoker
  · exact h.invokedAt
  · exact h.payloadHash
  · intro a ha
    rcases List.mem_append.mp ha with ha | ha
    · obtain ⟨t, sig', haff, rfl⟩ := h.recorded a ha
      exact ⟨t, sig', haff.concat x, rfl⟩
    · exact ⟨now, sig, hnew, List.mem_singleton.mp ha⟩
  · intro t sig' hacc'
    apply List.mem_append.mpr
    rcases hno t sig' hacc' with hbefore | rfl
    · exact .inl (h.complete t sig' hbefore)
    · exact .inr (List.mem_singleton_self _)
  · apply List.pairwise_append.mpr
    refine ⟨h.distinct, List.pairwise_singleton _ _, ?_⟩
    intro a ha b hb
    obtain rfl := List.mem_singleton.mp hb
    exact haffirmer.newSigner a ha
  · unfold recordAffirmation
    simp only
    split
    · rename_i hsub
      exact iff_of_true rfl hsub
    · rename_i hsub
      refine iff_of_false ?_ hsub
      rw [hphase]
      decide

end

/-! ## Runs -/

/-- **The invariant of every run.** -/
theorem tells (ctx : SigningContext) (sha256 : List UInt8 → Digest) (ls : List (ℕ × Call)) (id : String) :
    Tells ctx sha256 ls id ((World.run ctx sha256 ls).registry id) := by
  induction ls using List.reverseRecOn with
  | nil =>
      rintro t sig ⟨before, d, after, hls, -⟩
      simp at hls
  | append_singleton ls x ih =>
      have hrun : (World.run ctx sha256 (ls ++ [x])).registry =
          (call ctx sha256 (World.run ctx sha256 ls).registry ((World.run ctx sha256 ls).now + x.1) x.2).2 := by
        rw [World.run, Machine.run_concat]
        rfl
      have hlast := @accepted_concat ctx sha256 ls x
      rw [hrun]
      have hchanged := changed ctx sha256 (World.run ctx sha256 ls).registry
        ((World.run ctx sha256 ls).now + x.1) x.2 id
      generalize hafter : (call ctx sha256 (World.run ctx sha256 ls).registry
        ((World.run ctx sha256 ls).now + x.1) x.2).2 id = after at hchanged ⊢
      generalize hanswer : (call ctx sha256 (World.run ctx sha256 ls).registry
        ((World.run ctx sha256 ls).now + x.1) x.2).1 = answer at hchanged
      generalize hbefore : (World.run ctx sha256 ls).registry id = before at ih hchanged
      generalize hc : x.2 = c at hchanged
      -- a call that is no accepted affirmation of the action adds none
      have hnone (hc' : ∀ sig, c = .affirm id sig → answer ≠ .ok ()) (t : ℕ) (sig : Signature)
          (h : Accepted ctx sha256 (ls ++ [x]) t (.affirm id sig)) : Accepted ctx sha256 ls t (.affirm id sig) := by
        rcases hlast.mp h with h | ⟨hsame, ht, hok⟩
        · exact h
        · subst ht
          rw [hsame, hanswer] at hok
          exact absurd hok (hc' sig (hc.symm.trans hsame.symm))
      cases hchanged with
      | kept hc' =>
          cases after with
          | none => exact fun t sig h => ih t sig (hnone hc' t sig h)
          | some e =>
              obtain ⟨inv, htold⟩ := ih
              exact ⟨inv, htold.concat (hnone hc') ⟨rfl, rfl, rfl, rfl⟩ ⟨htold.notPending, Iff.rfl⟩⟩
      | @invoked payload sig manifest checked fresh =>
          have hno := hnone (fun _ h => by cases h)
          cases before with
          | some e =>
              obtain ⟨inv, htold⟩ := ih
              exact absurd fresh htold.notPending
          | none =>
              refine ⟨⟨(World.run ctx sha256 ls).now + x.1, payload, sig, manifest⟩, ?_⟩
              constructor
              · show BreakGlassPhase.invoked ≠ .pending
                decide
              · exact hlast.mpr (.inr ⟨hc.symm, rfl, by rw [← hc]; exact hanswer⟩)
              · exact checked
              · rfl
              · rfl
              · rfl
              · intro a ha
                cases ha
              · intro t sig' h
                exact absurd (hno t sig' h) (ih t sig')
              · exact List.Pairwise.nil
              · show BreakGlassPhase.invoked = .affirmed ↔ affirmationQuorum ⊆ ([] : List Role).toFinset
                decide
      | @affirmed entry entry' sig there checked =>
          subst there
          obtain ⟨inv, htold⟩ := ih
          refine ⟨inv, recordAffirmation_told htold ?_ checked ?_ ?_⟩
          · exact (accepted_le htold.accepted).trans (Nat.le_add_right _ _)
          · exact hlast.mpr (.inr ⟨hc.symm, rfl, by rw [← hc]; exact hanswer⟩)
          · intro t sig' h
            rcases hlast.mp h with h | ⟨hsame, -, -⟩
            · exact .inl h
            · right
              have := hsame.trans hc
              injection this
      | tick =>
          have hno := hnone (fun _ h => by cases h)
          cases before with
          | none => exact fun t sig h => ih t sig (hno t sig h)
          | some e =>
              obtain ⟨inv, htold⟩ := ih
              exact ⟨inv, tickEntry_told _ htold hno⟩
      | surface =>
          have hno := hnone (fun _ h => by cases h)
          cases before with
          | none => exact fun t sig h => ih t sig (hno t sig h)
          | some e =>
              obtain ⟨inv, htold⟩ := ih
              exact ⟨inv, surfaceEntry_told htold hno⟩

theorem changed_concat (ctx : SigningContext) (sha256 : List UInt8 → Digest) (w : World) (x : ℕ × Call) (id : String) :
    phaseOf (w.registry id) = phaseOf ((w.exec ctx sha256 x).registry id) ∨
      PhaseStep (phaseOf (w.registry id)) (phaseOf ((w.exec ctx sha256 x).registry id)) :=
  (changed ctx sha256 w.registry (w.now + x.1) x.2 id).phase

/-- Once its window has run out, an action is not affirmed any more. -/
theorem expired_stays {w : World} {id : String}
    (h : phaseOf (w.registry id) = .unaffirmed ∨ phaseOf (w.registry id) = .surfaced) (x : ℕ × Call) :
    phaseOf ((w.exec ctx sha256 x).registry id) = .unaffirmed ∨
      phaseOf ((w.exec ctx sha256 x).registry id) = .surfaced := by
  rcases changed_concat ctx sha256 w x id with hsame | hstep
  · rwa [hsame] at h
  · rcases h with h | h
    · rw [h] at hstep
      cases hphase : phaseOf ((w.exec ctx sha256 x).registry id) <;> rw [hphase] at hstep <;>
        first | exact .inr rfl | cases hstep
    · rw [h] at hstep
      cases hstep

section

variable {ls : List (ℕ × Call)} {id : String} {inv : Invocation} {e : BreakGlassEntry}

/-- Both roles are among the affirmations when two people affirmed, one in each. -/
theorem Told.quorum_iff (h : Told ctx sha256 ls id inv e) :
    affirmationQuorum ⊆ (e.affirmations.map Prod.fst).toFinset ↔
      ∃ t₁ sig₁ t₂ sig₂, Affirmation ctx sha256 ls id inv t₁ sig₁ ∧ Affirmation ctx sha256 ls id inv t₂ sig₂ ∧
        sig₁.signer.role = .reviewer ∧ sig₂.signer.role = .complianceOfficer ∧
        sig₁.signer.id ≠ sig₂.signer.id := by
  constructor
  · intro hsub
    have hfind (role : Role) (hrole : role ∈ affirmationQuorum) :
        ∃ t sig, Affirmation ctx sha256 ls id inv t sig ∧ sig.signer.role = role ∧
          (role, sig.signer) ∈ e.affirmations := by
      obtain ⟨a, ha, harole⟩ := List.mem_map.mp (List.mem_toFinset.mp (hsub hrole))
      obtain ⟨t, sig, haff, heq⟩ := h.recorded a ha
      rw [heq] at harole ha
      have hrole' : sig.signer.role = role := harole
      rw [hrole'] at ha
      exact ⟨t, sig, haff, hrole', ha⟩
    obtain ⟨t₁, sig₁, haff₁, hrole₁, hmem₁⟩ := hfind .reviewer (by decide)
    obtain ⟨t₂, sig₂, haff₂, hrole₂, hmem₂⟩ := hfind .complianceOfficer (by decide)
    refine ⟨t₁, sig₁, t₂, sig₂, haff₁, haff₂, hrole₁, hrole₂, ?_⟩
    -- one signer affirms once
    have hpair : (Role.reviewer, sig₁.signer) ≠ (Role.complianceOfficer, sig₂.signer) := by
      intro heq
      cases congrArg Prod.fst heq
    have hsymm : Std.Symm fun a b : Role × Signer => a.2.id ≠ b.2.id := ⟨fun _ _ hne => hne.symm⟩
    exact h.distinct.forall hmem₁ hmem₂ hpair
  · rintro ⟨t₁, sig₁, t₂, sig₂, haff₁, haff₂, hrole₁, hrole₂, -⟩ role hrole
    have hmem₁ := h.complete t₁ sig₁ haff₁.accepted
    have hmem₂ := h.complete t₂ sig₂ haff₂.accepted
    rw [hrole₁] at hmem₁
    rw [hrole₂] at hmem₂
    rw [List.mem_toFinset, List.mem_map]
    have hcases : role = .reviewer ∨ role = .complianceOfficer := by
      simpa [affirmationQuorum] using hrole
    rcases hcases with rfl | rfl
    · exact ⟨_, hmem₁, rfl⟩
    · exact ⟨_, hmem₂, rfl⟩

end

/-- **Break-glass.** With a roster, after any run: an entry was invoked by an enrolled Security Officer who signed for
    that action and payload, under an eligible manifest without ITAR; it is affirmed if and only if `affirm` took one
    affirmation of a Reviewer and one of a Compliance Officer, two signers other than the invoker, each over the
    recorded payload and within the window. Phases move one step at a time, and an expired action is never affirmed. -/
theorem break_glass (ed : Ed25519) (fingerprint : PublicKey → String) (roster : SignerRoster) (devAllowed : Bool)
    (sha256 : List UInt8 → Digest) (ls : List (ℕ × Call)) (id : String) :
    let ctx : SigningContext := ⟨ed, fingerprint, some roster, devAllowed⟩
    let w := World.run ctx sha256 ls
    (∀ e ∈ w.registry id, ∃ inv : Invocation,
      Accepted ctx sha256 ls inv.time (.invoke id inv.payload inv.attested inv.manifest) ∧
      InvokedWith ctx sha256 id inv.payload inv.attested inv.manifest ∧
      roster inv.attested.pubkey .securityOfficer = true ∧
      e.invoker = some inv.attested.signer ∧ e.invokedAt = some inv.time ∧
      e.payloadHash = some (breakglassPayloadHash sha256 inv.payload) ∧
      (e.phase = .affirmed ↔ ∃ t₁ sig₁ t₂ sig₂,
        Affirmation ctx sha256 ls id inv t₁ sig₁ ∧ Affirmation ctx sha256 ls id inv t₂ sig₂ ∧
        sig₁.signer.role = .reviewer ∧ sig₂.signer.role = .complianceOfficer ∧
        sig₁.signer.id ≠ sig₂.signer.id)) ∧
    (w.registry id = none → phaseOf (w.registry id) = .pending) ∧
    (∀ x, phaseOf (w.registry id) = phaseOf ((w.exec ctx sha256 x).registry id) ∨
      PhaseStep (phaseOf (w.registry id)) (phaseOf ((w.exec ctx sha256 x).registry id))) ∧
    (∀ ms, phaseOf (w.registry id) = .unaffirmed ∨ phaseOf (w.registry id) = .surfaced →
      phaseOf ((World.run ctx sha256 (ls ++ ms)).registry id) ≠ .affirmed) := by
  intro ctx w
  refine ⟨?_, ?_, fun x => changed_concat ctx sha256 w x id, ?_⟩
  · intro e he
    have htells := tells ctx sha256 ls id
    rw [Option.mem_def.mp he] at htells
    obtain ⟨inv, htold⟩ := htells
    refine ⟨inv, htold.accepted, htold.checked, ?_, htold.invoker, htold.invokedAt, htold.payloadHash, ?_⟩
    · have henrolled := htold.checked.enrolled
      rw [htold.checked.role] at henrolled
      exact henrolled
    · exact htold.affirmed.trans htold.quorum_iff
  · intro hnone
    rw [hnone]
    rfl
  · intro ms hexpired haffirmed
    have hstays := @Machine.stable _ _ (World.exec ctx sha256) (fun w : World => phaseOf (w.registry id) = .unaffirmed ∨
      phaseOf (w.registry id) = .surfaced) .init ls hexpired (fun s l hs => expired_stays hs l) ms
    rw [haffirmed] at hstays
    rcases hstays with h | h <;> cases h

/-! ### A key that holds both roles

A key enrolled in both roles counts in the role it affirmed in first. When its holder has affirmed as the Compliance
Officer, it is refused as the Reviewer, and every other Compliance Officer is refused too. -/

/-- The keys of the Security Officer, of a member in both roles, and of a Compliance Officer. -/
def keyOf (n : ℕ) : PublicKey := Vector.ofFn fun i => if i.val = 0 then UInt8.ofNat n else 0

/-- A scheme with one signature of each message under each key. -/
def plainScheme : Ed25519 where
  Key := PublicKey
  fromBytes k := .ok k
  verify k m s := if s = k.toList ++ (Sha256.hash m).toList then .ok () else .error "signature error"

def plainContext : SigningContext where
  ed := plainScheme
  fingerprint k := hexEncode k
  roster := some fun k r =>
    (k == keyOf 0 && r == .securityOfficer) || (k == keyOf 1 && (r == .reviewer || r == .complianceOfficer)) ||
      (k == keyOf 2 && r == .complianceOfficer)
  devAllowed := false

def signed (n : ℕ) (role : Role) (message : List UInt8) : Signature where
  signer := { id := hexEncode (keyOf n), role }
  signatureBytes := (keyOf n).toList ++ (Sha256.hash message).toList
  pubkey := keyOf n

/-- Signed by the member in both roles, as `role`. -/
def bothRoles (role : Role) : Signature := signed 1 role (affirmPreimage Sha256.hash "a" [])

def otherOfficer : Signature := signed 2 .complianceOfficer (affirmPreimage Sha256.hash "a" [])

def eligible : Manifest where
  dataClass := { reads := [], writes := [], emits := [] }
  risk := { tier := .low, requiredRoles := [], breakGlassEligible := true }

/-- Invoked, affirmed in both roles by one member, then by another Compliance Officer. -/
def bothRolesRun : List (ℕ × Call) :=
  [(0, .invoke "a" [] (signed 0 .securityOfficer (invokePreimage Sha256.hash "a" [])) eligible),
    (1, .affirm "a" (bothRoles .complianceOfficer)), (1, .affirm "a" (bothRoles .reviewer)), (1, .affirm "a" otherOfficer)]

theorem both_roles_not_affirmed :
    phaseOf ((World.run plainContext Sha256.hash bothRolesRun).registry "a") = .invoked ∧
      Made plainContext Sha256.hash bothRolesRun 2 (.affirm "a" (bothRoles .reviewer)) ∧
      Made plainContext Sha256.hash bothRolesRun 3 (.affirm "a" otherOfficer) ∧
      AffirmedWith plainContext Sha256.hash "a" [] (bothRoles .reviewer) ∧
      AffirmedWith plainContext Sha256.hash "a" [] otherOfficer ∧
      (bothRoles .reviewer).signer.id ≠ otherOfficer.signer.id ∧
      (bothRoles .reviewer).signer.id ≠ hexEncode (keyOf 0) ∧ otherOfficer.signer.id ≠ hexEncode (keyOf 0) := by
  refine ⟨by decide +kernel, ⟨bothRolesRun.take 2, 1, bothRolesRun.drop 3, rfl, rfl⟩,
    ⟨bothRolesRun.take 3, 1, [], rfl, rfl⟩, ⟨by decide +kernel, by decide +kernel⟩,
    ⟨by decide +kernel, by decide +kernel⟩, by decide +kernel, by decide +kernel, by decide +kernel⟩

end AgentRuntime.Hitl.BreakGlass
