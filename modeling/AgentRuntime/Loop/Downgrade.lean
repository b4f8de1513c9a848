import AgentRuntime.Loop.Turn

/-!
# `Loop.Downgrade` — the taint downgrade over whole sessions

Every reachable state is a prefix of the log with its last snapshot. `Sound` is what every access keeps: the
taint covers what was ingested since the last clear, it goes away only by a clear, and an ordinary execution
of an effectful tool is written down only while the session is clean. `CallShape` says what the loop writes for
one call: it is refused and reaches no host, runs on the ordinary path, or runs on the explicit one.
-/

namespace AgentRuntime.Loop

/-! ## What the results are stated in -/

/-- Not annotated `effect: none`. A tool the registry does not have is not annotated either. -/
def MayChangeState (spec : Option ToolSpec) : Prop := ∀ sp, spec = some sp → sp.annotations.effect ≠ some .none

/-- The outcome brings outside content in: it is untrusted, or comes from a tool not annotated
    `trust: trusted`. -/
def CarriesOutside (spec : Option ToolSpec) : ToolOutcome → Prop
  | .untrusted _ => True
  | .ok _ | .error _ => ∃ sp, spec = some sp ∧ sp.annotations.trust ≠ some .trusted
  | .vouched _ | .denied _ => False

/-- The dispatched calls that returned since the last clear. -/
def returnedSince (log : Log) : List (ToolCall × Option ToolSpec × ToolOutcome) :=
  log.foldl
    (fun acc x =>
      match x.1 with
      | .clear => []
      | .settled call spec true outcome => acc ++ [(call, spec, outcome)]
      | _ => acc) []

/-- The taint covers every call that brought outside content in since the last clear. -/
def Covered (log : Log) (t : TaintState) : Prop :=
  ∀ c ∈ returnedSince log, CarriesOutside c.2.1 c.2.2 → t.isTainted = true ∧ c.1.name ∈ t.sources

/-- `(a, t')` may follow a state whose taint is `t`. -/
structure Follows (t : TaintState) (a : Action) (t' : TaintState) : Prop where
  /-- Nothing but a clear takes the taint away. -/
  kept : a ≠ .clear → t.isTainted = true → t'.record = t.record ∧ t.sources ⊆ t'.sources
  /-- A tool that may change something runs on the ordinary path only in a clean session. -/
  clean : ∀ k call spec, a = .execute k call spec → MayChangeState spec → t'.isTainted = false

/-- Each entry of a log follows the taint before it, and the taint after it covers what was ingested. -/
def SoundLog (t₀ : TaintState) (log : Log) : Prop :=
  ∀ before a t after, log = before ++ (a, t) :: after →
    Covered (before ++ [(a, t)]) t ∧ Follows ((before.getLast?.map Prod.snd).getD t₀) a t

/-- The session's log is sound and ends in the session's taint. -/
structure Sound (t₀ : TaintState) (s : Session) : Prop where
  log : SoundLog t₀ s.log
  covered : Covered s.log s.taint
  last : (s.log.getLast?.map Prod.snd).getD t₀ = s.taint

theorem returnedSince_concat (log : Log) (a : Action) (t : TaintState) :
    returnedSince (log ++ [(a, t)]) =
      match a with
      | .clear => []
      | .settled call spec true outcome => returnedSince log ++ [(call, spec, outcome)]
      | _ => returnedSince log := by
  unfold returnedSince
  rw [List.foldl_append]
  rfl

theorem SoundLog.concat {t₀ t : TaintState} {log : Log} {a : Action} (h : SoundLog t₀ log)
    (hcovered : Covered (log ++ [(a, t)]) t)
    (hfollows : Follows ((log.getLast?.map Prod.snd).getD t₀) a t) : SoundLog t₀ (log ++ [(a, t)]) := by
  intro before b u after heq
  rcases Log.split_concat heq with ⟨rfl, hx, -⟩ | ⟨after', -, rfl⟩
  · cases hx
    exact ⟨hcovered, hfollows⟩
  · exact h before b u after' rfl

/-- Neither an ordinary execution, nor an outcome taken in, nor a clear. -/
def Action.neutral : Action → Bool
  | .execute _ _ _ | .settled _ _ _ _ | .clear => false
  | _ => true

theorem returnedSince_neutral {a : Action} (ha : a.neutral = true) (log : Log) (t : TaintState) :
    returnedSince (log ++ [(a, t)]) = returnedSince log := by
  rw [returnedSince_concat]
  cases a <;> first | rfl | cases ha

theorem Follows.neutral {a : Action} (ha : a.neutral = true) (t : TaintState) : Follows t a t where
  kept _ _ := ⟨rfl, Finset.Subset.refl _⟩
  clean := by
    rintro k call spec rfl
    cases ha

namespace Sound

variable {t₀ : TaintState} {s : Session}

/-- **One access.** The taint moves to `t` and the action `a` is written down. -/
theorem write (h : Sound t₀ s) {t : TaintState} {a : Action} (hcovered : Covered (s.log ++ [(a, t)]) t)
    (hfollows : Follows s.taint a t) : Sound t₀ ({ s with taint := t }.act a) := by
  refine ⟨h.log.concat hcovered ?_, hcovered, ?_⟩
  · rw [h.last]
    exact hfollows
  · show ((s.log ++ [(a, t)]).getLast?.map Prod.snd).getD t₀ = t
    rw [List.getLast?_concat]
    rfl

theorem act (h : Sound t₀ s) {a : Action} (ha : a.neutral = true) : Sound t₀ (s.act a) := by
  refine h.write ?_ (.neutral ha s.taint)
  intro c hc
  rw [returnedSince_neutral ha] at hc
  exact h.covered c hc

/-- An ordinary execution of what changes nothing, or in a clean session. -/
theorem execute (h : Sound t₀ s) (k : HostKind) (call : ToolCall) {spec : Option ToolSpec}
    (hclean : MayChangeState spec → s.taint.isTainted = false) : Sound t₀ (s.act (.execute k call spec)) := by
  refine h.write ?_ ⟨fun _ _ => ⟨rfl, Finset.Subset.refl _⟩, ?_⟩
  · intro c hc
    rw [returnedSince_concat] at hc
    exact h.covered c hc
  · intro k' call' spec' ha heffect
    cases ha
    exact hclean heffect

/-- An outcome is taken in under a taint that covers it and keeps what was there. -/
theorem settled (h : Sound t₀ s) {t : TaintState} {call : ToolCall} {spec : Option ToolSpec} {ran : Bool}
    {outcome : ToolOutcome} (hkept : s.taint.isTainted = true → t.record = s.taint.record ∧ s.taint.sources ⊆ t.sources)
    (hnew : ran = true → CarriesOutside spec outcome → t.isTainted = true ∧ call.name ∈ t.sources) :
    Sound t₀ ({ s with taint := t }.act (.settled call spec ran outcome)) := by
  refine h.write ?_ ⟨fun _ => hkept, fun _ _ _ ha => by cases ha⟩
  intro c hc hcarries
  have hbefore : c ∈ returnedSince s.log → t.isTainted = true ∧ c.1.name ∈ t.sources := by
    intro hmem
    obtain ⟨htainted, hsource⟩ := h.covered c hmem hcarries
    obtain ⟨hrecord, hsources⟩ := hkept htainted
    refine ⟨?_, hsources hsource⟩
    unfold TaintState.isTainted at htainted ⊢
    rw [hrecord]
    exact htainted
  rw [returnedSince_concat] at hc
  cases ran with
  | false => exact hbefore hc
  | true =>
      rcases List.mem_append.mp hc with hc | hc
      · exact hbefore hc
      · rw [List.mem_singleton] at hc
        subst hc
        exact hnew rfl hcarries

theorem emit (h : Sound t₀ s) (e : Event) : Sound t₀ (s.emit e) := h.act rfl

theorem emitAll (h : Sound t₀ s) (es : List Event) : Sound t₀ (s.emitAll es) := by
  induction es generalizing s with
  | nil => exact h
  | cons e es ih => exact ih (h.emit e)

/-- The transcript is not part of it. -/
theorem push (h : Sound t₀ s) (m : Message) : Sound t₀ (s.push m) := ⟨h.log, h.covered, h.last⟩

theorem clearByMember (h : Sound t₀ s) : Sound t₀ s.clearByMember := by
  refine h.write ?_ ⟨fun hclear => absurd rfl hclear, fun _ _ _ ha => by cases ha⟩
  intro c hc
  rw [returnedSince_concat] at hc
  cases hc

theorem access (h : Sound t₀ s) (env : Env) : Sound t₀ (s.access env) := by
  unfold Session.access
  split
  · exact h.clearByMember
  · exact h

/-- Tainting covers the call that is taken in. -/
theorem ingest (h : Sound t₀ s) (step : ℕ) (call : ToolCall) (spec : Option ToolSpec) (outcome : ToolOutcome) :
    Sound t₀ (s.ingest step call spec outcome) := by
  unfold Session.ingest
  generalize hreason : call.name ++ " returned untrusted content" = reason
  have hwrite : Sound t₀ ({ s with taint := (s.taint.taint call.name reason).2 }.act
      (.settled call spec true outcome)) := by
    apply h.settled
    · intro htainted
      obtain ⟨record, hrecord⟩ := Option.isSome_iff_exists.mp htainted
      rw [TaintState.record_taint hrecord, TaintState.sources_taint, hrecord]
      exact ⟨rfl, Finset.subset_insert _ _⟩
    · intro _ _
      rw [TaintState.isTainted_taint, TaintState.sources_taint]
      exact ⟨rfl, Finset.mem_insert_self _ _⟩
  simp only
  split
  · exact hwrite.emit _
  · exact hwrite

end Sound

/-! ## What the loop writes for one call -/

/-- Neither takes up a call, nor announces one, nor hands one to a host. -/
def Action.quiet : Action → Bool
  | .takes _ _ _ | .beforeAnnounce _ _ | .execute _ _ _ | .executeWithExplicitApproval _ _ _ => false
  | .event (.toolCall _ _ _ _ _) => false
  | _ => true

def Quiet (log : Log) : Prop := ∀ x ∈ log, x.1.quiet = true

theorem Quiet.nil : Quiet [] := fun _ hx => by cases hx

theorem Quiet.append {l m : Log} (hl : Quiet l) (hm : Quiet m) : Quiet (l ++ m) := by
  intro x hx
  exact (List.mem_append.mp hx).elim (hl x) (hm x)

theorem Quiet.singleton {a : Action} {t : TaintState} (h : a.quiet = true) : Quiet [(a, t)] := by
  intro x hx
  rw [List.mem_singleton.mp hx]
  exact h

/-- The three ways a call goes. `seg` is what is written for it after it was taken up. -/
inductive CallShape (step : ℕ) (call : ToolCall) (spec : Option ToolSpec) : Log → Prop where
  /-- It reaches no host, and its announcement names none. -/
  | refused {q₁ q₂ : Log} {hic reason : Option String} {t : TaintState} (before : Quiet q₁) (after : Quiet q₂) :
      CallShape step call spec (q₁ ++ (.event (.toolCall step call none hic reason), t) :: q₂)
  /-- It runs on the ordinary path; in a tainted session it changes nothing. -/
  | ordinary {q₁ q₂ : Log} {k : HostKind} {t : TaintState} (before : Quiet q₁) (after : Quiet q₂)
      (clean : MayChangeState spec → t.isTainted = false) :
      CallShape step call spec (q₁ ++ (.beforeAnnounce k call, t)
        :: (.event (.toolCall step call (some k) none none), t) :: (.execute k call spec, t) :: q₂)
  /-- It runs on the explicit path, on a host that honours it. -/
  | explicit {q₁ q₂ : Log} {k : HostKind} {reason : String} {t t' : TaintState} (before : Quiet q₁)
      (after : Quiet q₂) (honors : (.honorsExplicitApproval k true, t') ∈ q₁) :
      CallShape step call spec (q₁ ++ (.beforeAnnounce k call, t)
        :: (.event (.toolCall step call (some k) (some "required") (some reason)), t)
        :: (.executeWithExplicitApproval k call reason, t) :: q₂)

/-- A log that is, call by call, one of the three ways, with nothing but quiet entries in between. -/
inductive CallByCall : Log → Prop where
  | nil : CallByCall []
  | quiet {log : Log} {a : Action} {t : TaintState} (h : CallByCall log) (ha : a.quiet = true) :
      CallByCall (log ++ [(a, t)])
  | call {log seg : Log} {step : ℕ} {call : ToolCall} {spec : Option ToolSpec} {t : TaintState}
      (h : CallByCall log) (hseg : CallShape step call spec seg) :
      CallByCall (log ++ (.takes step call spec, t) :: seg)

/-- The session goes from `s` to `s'` writing `seg`. -/
def Writes (s s' : Session) (seg : Log) : Prop := s'.log = s.log ++ seg

theorem Writes.refl (s : Session) : Writes s s [] := (List.append_nil _).symm

theorem Writes.trans {s s' s'' : Session} {l m : Log} (h : Writes s s' l) (h' : Writes s' s'' m) :
    Writes s s'' (l ++ m) := by
  unfold Writes at h h' ⊢
  rw [h', h, List.append_assoc]

theorem Session.act_writes (s : Session) (a : Action) : Writes s (s.act a) [(a, s.taint)] := rfl

theorem Session.access_writes (env : Env) (s : Session) : ∃ q, Writes s (s.access env) q ∧ Quiet q := by
  unfold Session.access
  split
  · exact ⟨_, rfl, .singleton rfl⟩
  · exact ⟨[], .refl s, .nil⟩

section

variable {env : Env} {turn : Turn} {t₀ : TaintState} {s : Session}

/-! ### Deciding -/

theorem hicReasonOf_sound (h : Sound t₀ s) (spec : Option ToolSpec) (refusal declined : Option String) :
    Sound t₀ (hicReasonOf env spec refusal declined s).2 := by
  unfold hicReasonOf
  split
  · split
    · exact h.access env
    · exact h
  · exact h

theorem hicReasonOf_writes (env : Env) (spec : Option ToolSpec) (refusal declined : Option String) (s : Session) :
    ∃ q, Writes s (hicReasonOf env spec refusal declined s).2 q ∧ Quiet q := by
  unfold hicReasonOf
  split
  · split
    · exact s.access_writes env
    · exact ⟨[], .refl s, .nil⟩
  · exact ⟨[], .refl s, .nil⟩

/-- A call that nothing stops and that may change something is asked about exactly in a tainted session. -/
theorem hicReasonOf_none {sp : ToolSpec} (heffect : MayChangeState (some sp))
    (hnone : (hicReasonOf env (some sp) none none s).1 = none) :
    (hicReasonOf env (some sp) none none s).2.taint.isTainted = false := by
  have heffectful : sp.annotations.isEffectful = true := bne_iff_ne.mpr (heffect sp rfl)
  unfold hicReasonOf at hnone ⊢
  simp only [heffectful, Option.isNone_none, Bool.and_self, if_true, Option.map_eq_none_iff] at hnone ⊢
  unfold TaintState.isTainted
  rw [hnone]
  rfl

theorem refusedHicOf_sound (h : Sound t₀ s) (spec : Option ToolSpec) (hicReason : Option String) :
    Sound t₀ (refusedHicOf turn spec hicReason s).2 := by
  unfold refusedHicOf
  split
  · exact h.act rfl
  · exact h

/-- The host is asked without touching the taint; it is dispatched to only when it said yes. -/
theorem refusedHicOf_writes (turn : Turn) (spec : Option ToolSpec) (hicReason : Option String) (s : Session) :
    ∃ q, Writes s (refusedHicOf turn spec hicReason s).2 q ∧ Quiet q ∧
      (refusedHicOf turn spec hicReason s).2.taint = s.taint ∧
      ∀ sp h, spec = some sp → hostOf turn spec = some h → hicReason.isSome = true →
        (refusedHicOf turn spec hicReason s).1 = false → (.honorsExplicitApproval sp.host true, s.taint) ∈ q := by
  unfold refusedHicOf
  split
  · rename_i reason sp h hhost
    refine ⟨_, rfl, .singleton rfl, rfl, ?_⟩
    rintro sp' h' hsp - - hanswer
    cases hsp
    have hhonors : h.honorsExplicitApproval s.log = true := by
      simpa using hanswer
    rw [hhonors]
    exact List.mem_singleton_self _
  · rename_i hother
    refine ⟨[], .refl s, .nil, rfl, ?_⟩
    rintro sp h rfl hhost hsome
    obtain ⟨reason, rfl⟩ := Option.isSome_iff_exists.mp hsome
    exact absurd hhost (hother reason sp h rfl rfl)

/-- A call is dispatched when nothing stopped it. -/
theorem dispatchOf_eq_some {spec : Option ToolSpec} {refusal declined : Option String} {refusedHic : Bool}
    {k : HostKind} {h : ToolHost} (hdispatch : dispatchOf turn spec refusal declined refusedHic = some (k, h)) :
    refusal = none ∧ declined = none ∧ refusedHic = false ∧
      ∃ sp, spec = some sp ∧ hostOf turn spec = some h ∧ k = sp.host := by
  unfold dispatchOf at hdispatch
  split at hdispatch
  · rename_i sp h' hhost
    split at hdispatch
    · rename_i hfree
      obtain ⟨hrefused, hdeclined⟩ := Bool.and_eq_true_iff.mp hfree
      cases hdispatch
      refine ⟨rfl, Option.isNone_iff_eq_none.mp hdeclined, by simpa using hrefused, sp, rfl, hhost, rfl⟩
    · cases hdispatch
  · cases hdispatch

/-- What a decision says, and what was written to reach it. -/
structure Decided (turn : Turn) (call : ToolCall) (d : Decision) (s' : Session) (q : Log) : Prop where
  spec : d.spec = turn.tools.spec call.name
  quiet : Quiet q
  /-- The ordinary path is taken by what changes nothing, or in a clean session. -/
  clean : d.dispatch.isSome = true → d.hicReason = none → MayChangeState d.spec → s'.taint.isTainted = false
  /-- The explicit path is taken on a host that honours it. -/
  honors : ∀ k h, d.dispatch = some (k, h) → d.hicReason.isSome = true →
    ∃ t, (.honorsExplicitApproval k true, t) ∈ q

theorem decideCall_sound (h : Sound t₀ s) (i : ℕ) (call : ToolCall) :
    Sound t₀ (decideCall env turn i call s).2 := by
  unfold decideCall
  exact refusedHicOf_sound (hicReasonOf_sound h _ _ _) _ _

theorem decideCall_writes (env : Env) (turn : Turn) (i : ℕ) (call : ToolCall) (s : Session) :
    ∃ q, Writes s (decideCall env turn i call s).2 q ∧
      Decided turn call (decideCall env turn i call s).1 (decideCall env turn i call s).2 q := by
  unfold decideCall
  simp only
  generalize hspec : turn.tools.spec call.name = spec
  generalize refusalOf env turn i call spec = refusal
  generalize hdeclined : (if refusal.isNone = true then turn.tools.declined s.log call else none) = declined
  obtain ⟨q₁, hwrites₁, hquiet₁⟩ := hicReasonOf_writes env spec refusal declined s
  obtain ⟨q₂, hwrites₂, hquiet₂, htaint, hhonors⟩ := refusedHicOf_writes turn spec
    (hicReasonOf env spec refusal declined s).1 (hicReasonOf env spec refusal declined s).2
  refine ⟨q₁ ++ q₂, hwrites₁.trans hwrites₂, hspec.symm, hquiet₁.append hquiet₂, ?_, ?_⟩
  · intro hdispatch hnone heffect
    obtain ⟨⟨k, h⟩, hdispatch⟩ := Option.isSome_iff_exists.mp hdispatch
    obtain ⟨rfl, rfl, -, sp, rfl, -⟩ := dispatchOf_eq_some hdispatch
    rw [htaint]
    exact hicReasonOf_none heffect hnone
  · intro k h hdispatch hsome
    obtain ⟨-, -, hanswer, sp, rfl, hhost, rfl⟩ := dispatchOf_eq_some hdispatch
    exact ⟨_, List.mem_append_right _ (hhonors sp h rfl hhost hsome hanswer)⟩

/-! ### Announcing, running and settling -/

theorem announce_sound (h : Sound t₀ s) (step : ℕ) (call : ToolCall) (d : Decision) :
    Sound t₀ (announce step call d s) := by
  unfold announce
  split
  · apply Sound.emit
    exact h.act rfl
  · exact h.emit _

theorem announce_taint (step : ℕ) (call : ToolCall) (d : Decision) (s : Session) :
    (announce step call d s).taint = s.taint := by
  unfold announce
  split
  · rfl
  · rfl

theorem runCall_sound (h : Sound t₀ s) (call : ToolCall) {d : Decision}
    (hclean : d.dispatch.isSome = true → d.hicReason = none → MayChangeState d.spec →
      s.taint.isTainted = false) : Sound t₀ (runCall env call d s).2 := by
  unfold runCall
  split
  · rename_i k host hdispatch
    split
    · rename_i reason _
      show Sound t₀ (s.act (.executeWithExplicitApproval k call reason))
      exact h.act rfl
    · rename_i hnone
      show Sound t₀ (s.act (.execute k call d.spec))
      apply h.execute
      exact hclean (by rw [hdispatch]; rfl) hnone
  · exact h
  · split
    · exact h
    · split
      · exact h.access env
      · exact h

theorem ingestsUntrusted_of_carries {spec : Option ToolSpec} {outcome : ToolOutcome}
    (h : CarriesOutside spec outcome) : ingestsUntrusted spec true outcome = true := by
  have hany : (∃ sp, spec = some sp ∧ sp.annotations.trust ≠ some .trusted) →
      (spec.any fun sp => sp.annotations.outputUntrusted) = true := by
    rintro ⟨sp, rfl, htrust⟩
    exact bne_iff_ne.mpr htrust
  cases outcome with
  | ok output => exact hany h
  | untrusted output => rfl
  | vouched output => exact h.elim
  | denied why => exact h.elim
  | error e => exact hany h

theorem settle_sound (h : Sound t₀ s) (step : ℕ) (call : ToolCall) (spec : Option ToolSpec) (ran : Bool)
    (outcome : ToolOutcome) : Sound t₀ (settle env step call spec ran outcome s) := by
  have hreported := h.emit (.toolResult step call.id outcome.status outcome.toContent)
  unfold settle
  simp only
  split
  · exact ((hreported.access env).ingest step call spec outcome).push _
  · rename_i hingests
    apply Sound.push
    apply hreported.settled
    · exact fun _ => ⟨rfl, Finset.Subset.refl _⟩
    · rintro rfl hcarries
      exact absurd (ingestsUntrusted_of_carries hcarries) hingests

theorem ingest_writes (step : ℕ) (call : ToolCall) (spec : Option ToolSpec) (outcome : ToolOutcome) (s : Session) :
    ∃ q, Writes s (s.ingest step call spec outcome) q ∧ Quiet q := by
  unfold Session.ingest
  generalize call.name ++ " returned untrusted content" = reason
  generalize hsettled : ({ s with taint := (s.taint.taint call.name reason).2 } : Session).act
    (.settled call spec true outcome) = s'
  have hwrites : Writes s s' [(.settled call spec true outcome, s'.taint)] := by
    rw [← hsettled]
    rfl
  simp only [hsettled]
  split
  · refine ⟨_, hwrites.trans (s'.act_writes (.event (.tainted step call.name reason))), ?_⟩
    apply Quiet.append
    · exact .singleton rfl
    · exact .singleton rfl
  · exact ⟨_, hwrites, .singleton rfl⟩

theorem settle_writes (env : Env) (step : ℕ) (call : ToolCall) (spec : Option ToolSpec) (ran : Bool)
    (outcome : ToolOutcome) (s : Session) :
    ∃ q, Writes s (settle env step call spec ran outcome s) q ∧ Quiet q := by
  generalize hreported : s.emit (.toolResult step call.id outcome.status outcome.toContent) = s'
  have hwrites : Writes s s' [(.event (.toolResult step call.id outcome.status outcome.toContent), s.taint)] := by
    rw [← hreported]
    rfl
  have hquiet : Quiet [(.event (.toolResult step call.id outcome.status outcome.toContent), s.taint)] :=
    .singleton rfl
  unfold settle
  simp only [hreported]
  split
  · obtain ⟨q₁, hwrites₁, hquiet₁⟩ := s'.access_writes env
    obtain ⟨q₂, hwrites₂, hquiet₂⟩ := ingest_writes step call spec outcome (s'.access env)
    exact ⟨_, (hwrites.trans hwrites₁).trans hwrites₂, (hquiet.append hquiet₁).append hquiet₂⟩
  · exact ⟨_, hwrites.trans rfl, hquiet.append (.singleton rfl)⟩

/-- Nothing is run for a call that is not dispatched. -/
theorem runCall_writes_none (env : Env) (call : ToolCall) {d : Decision} (hdispatch : d.dispatch = none)
    (s : Session) : ∃ q, Writes s (runCall env call d s).2 q ∧ Quiet q := by
  unfold runCall
  simp only [hdispatch]
  split
  · rename_i hsome
    cases hsome
  · exact ⟨[], .refl s, .nil⟩
  · split
    · exact ⟨[], .refl s, .nil⟩
    · split
      · exact s.access_writes env
      · exact ⟨[], .refl s, .nil⟩

/-- Deciding wrote `q`; announcing, running and settling write the rest of the call. -/
theorem runCall_writes (env : Env) (step : ℕ) {call : ToolCall} {d : Decision} {s : Session} {q : Log}
    (hdecided : Decided turn call d s q) :
    ∃ seg, Writes s (runCall env call d (announce step call d s)).2 seg ∧
      ∀ after, Quiet after → CallShape step call d.spec (q ++ (seg ++ after)) := by
  rcases hd : d.dispatch with - | ⟨k, host⟩
  · obtain ⟨q', hwrites, hquiet⟩ := runCall_writes_none env call hd (announce step call d s)
    have hannounced : Writes s (announce step call d s)
        [(.event (.toolCall step call none (d.hicReason.map fun _ => "required") d.hicReason), s.taint)] := by
      unfold announce
      rw [hd]
      rfl
    refine ⟨_, hannounced.trans hwrites, ?_⟩
    intro after hafter
    exact .refused hdecided.quiet (hquiet.append hafter)
  · cases hhic : d.hicReason with
    | none =>
        have hwrites : Writes s (runCall env call d (announce step call d s)).2
            [(.beforeAnnounce k call, s.taint), (.event (.toolCall step call (some k) none none), s.taint),
              (.execute k call d.spec, s.taint)] := by
          unfold runCall announce Writes
          simp only [hd, hhic, Session.emit, Session.act, List.append_assoc]
          rfl
        refine ⟨_, hwrites, ?_⟩
        intro after hafter
        exact .ordinary hdecided.quiet hafter (hdecided.clean (by rw [hd]; rfl) hhic)
    | some reason =>
        have hwrites : Writes s (runCall env call d (announce step call d s)).2
            [(.beforeAnnounce k call, s.taint),
              (.event (.toolCall step call (some k) (some "required") (some reason)), s.taint),
              (.executeWithExplicitApproval k call reason, s.taint)] := by
          unfold runCall announce Writes
          simp only [hd, hhic, Session.emit, Session.act, List.append_assoc]
          rfl
        refine ⟨_, hwrites, ?_⟩
        intro after hafter
        obtain ⟨t, hhonors⟩ := hdecided.honors k host hd (by rw [hhic]; rfl)
        exact .explicit hdecided.quiet hafter hhonors

/-! ### One call -/

theorem processCall_sound (h : Sound t₀ s) (step i : ℕ) (call : ToolCall) :
    Sound t₀ (processCall env turn step i call s) := by
  unfold processCall
  simp only
  generalize hs₁ : s.act (.takes step call (turn.tools.spec call.name)) = s₁
  have h₁ : Sound t₀ s₁ := by
    rw [← hs₁]
    exact h.act rfl
  obtain ⟨q, -, hdecided⟩ := decideCall_writes env turn i call s₁
  apply settle_sound
  apply runCall_sound (announce_sound (decideCall_sound h₁ i call) step call _)
  rw [announce_taint]
  exact hdecided.clean

/-- **One call.** It is refused, runs on the ordinary path, or runs on the explicit one. -/
theorem processCall_writes (env : Env) (turn : Turn) (step i : ℕ) (call : ToolCall) (s : Session) :
    ∃ seg, Writes s (processCall env turn step i call s)
        ((.takes step call (turn.tools.spec call.name), s.taint) :: seg) ∧
      CallShape step call (turn.tools.spec call.name) seg := by
  unfold processCall
  simp only
  generalize hs₁ : s.act (.takes step call (turn.tools.spec call.name)) = s₁
  have hwrites₁ : Writes s s₁ [(.takes step call (turn.tools.spec call.name), s.taint)] := by
    rw [← hs₁]
    rfl
  obtain ⟨q₁, hwrites₂, hdecided⟩ := decideCall_writes env turn i call s₁
  generalize (decideCall env turn i call s₁).2 = s₂ at hwrites₂ hdecided ⊢
  generalize (decideCall env turn i call s₁).1 = d at hdecided ⊢
  obtain ⟨q₂, hwrites₃, hshape⟩ := runCall_writes env step hdecided
  generalize runCall env call d (announce step call d s₂) = run at hwrites₃ ⊢
  obtain ⟨q₃, hwrites₄, hquiet⟩ := settle_writes env step call d.spec run.1.1 run.1.2 run.2
  refine ⟨q₁ ++ (q₂ ++ q₃), hwrites₁.trans (hwrites₂.trans (hwrites₃.trans hwrites₄)), ?_⟩
  rw [← hdecided.spec]
  exact hshape q₃ hquiet

end

/-! ## Whole turns -/

/-- What holds of the session between two calls. -/
structure Downgraded (t₀ : TaintState) (s : Session) : Prop where
  sound : Sound t₀ s
  calls : CallByCall s.log

section

variable {env : Env} {turn : Turn} {t₀ : TaintState} {s : Session}

namespace Downgraded

theorem act (h : Downgraded t₀ s) {a : Action} (hneutral : a.neutral = true) (hquiet : a.quiet = true) :
    Downgraded t₀ (s.act a) := ⟨h.sound.act hneutral, h.calls.quiet hquiet⟩

theorem push (h : Downgraded t₀ s) (m : Message) : Downgraded t₀ (s.push m) := ⟨h.sound.push m, h.calls⟩

theorem clearByMember (h : Downgraded t₀ s) : Downgraded t₀ s.clearByMember :=
  ⟨h.sound.clearByMember, h.calls.quiet rfl⟩

/-- Any event but a call's announcement. -/
theorem emit (h : Downgraded t₀ s) {e : Event} (he : (Action.event e).quiet = true) : Downgraded t₀ (s.emit e) :=
  h.act rfl he

theorem emitAll (h : Downgraded t₀ s) {es : List Event} (hes : ∀ e ∈ es, (Action.event e).quiet = true) :
    Downgraded t₀ (s.emitAll es) := by
  induction es generalizing s with
  | nil => exact h
  | cons e es ih =>
      refine ih (h.emit (hes e (List.mem_cons_self ..))) ?_
      intro e' he'
      exact hes e' (List.mem_cons_of_mem _ he')

end Downgraded

variable (env turn)

theorem processCalls_downgraded (h : Downgraded t₀ s) (step i : ℕ) (calls : List ToolCall) :
    Downgraded t₀ (processCalls env turn step i calls s).2 := by
  induction calls generalizing i s with
  | nil => exact h
  | cons call calls ih =>
      unfold processCalls
      split
      · exact h
      · apply ih
        obtain ⟨seg, hwrites, hshape⟩ := processCall_writes env turn step i call s
        refine ⟨processCall_sound h.sound step i call, ?_⟩
        rw [hwrites]
        exact h.calls.call hshape

theorem coalesce_quiet (step : ℕ) (buf : String) (deltas : List (String × Bool)) :
    ∀ e ∈ coalesce step buf deltas, (Action.event e).quiet = true := by
  induction deltas generalizing buf with
  | nil =>
      unfold coalesce
      split
      · intro e he
        cases he
      · intro e he
        rw [List.mem_singleton.mp he]
        rfl
  | cons delta deltas ih =>
      obtain ⟨text, waited⟩ := delta
      unfold coalesce
      split
      · exact ih buf
      · split
        · intro e he
          rcases List.mem_cons.mp he with rfl | he
          · rfl
          · exact ih "" e he
        · exact ih _

theorem report_downgraded (h : Downgraded t₀ s) (step : ℕ) (streamed : Streamed) :
    Downgraded t₀ (report step streamed s) := by
  have hdeltas := h.emitAll (coalesce_quiet step "" streamed.deltas)
  unfold report
  simp only
  split
  · exact hdeltas.emit rfl
  · exact hdeltas

theorem runStep_downgraded (h : Downgraded t₀ s) (systemPrompt : String) (step : ℕ) :
    Downgraded t₀ (runStep env turn systemPrompt step s).2 := by
  unfold runStep
  split
  · exact h
  · have hstarted := h.emit (e := .stepStart step) rfl
    simp only
    split
    · exact hstarted.emit rfl
    · rename_i req _
      have hreported := report_downgraded (hstarted.act (a := .complete req) rfl rfl) step
        (turn.llm (s.emit (.stepStart step)).log req)
      split
      · exact hreported.emit rfl
      · rename_i reply usage _
        have hpushed := (hreported.act (a := .replied reply) rfl rfl).push
          (.assistant reply.content reply.toolCalls)
        split
        · exact hpushed.emit rfl
        · have hcalls := processCalls_downgraded env turn hpushed step 0 reply.toolCalls
          split
          · rename_i heq
            rw [heq] at hcalls
            exact hcalls
          · rename_i heq
            rw [heq] at hcalls
            exact hcalls.emit rfl

theorem runSteps_downgraded (systemPrompt : String) (left step : ℕ) (h : Downgraded t₀ s) :
    Downgraded t₀ (runSteps env turn systemPrompt left step s).2 := by
  induction left generalizing step s with
  | zero => exact h.emit rfl
  | succ left ih =>
      have hstep := runStep_downgraded env turn h systemPrompt step
      unfold runSteps
      split
      · rename_i heq
        rw [heq] at hstep
        exact hstep
      · rename_i heq
        rw [heq] at hstep
        exact ih _ hstep

theorem runTurnWith_downgraded (h : Downgraded t₀ s) : Downgraded t₀ (runTurnWith env turn s).2 := by
  unfold runTurnWith
  exact (runSteps_downgraded env turn _ _ _ (h.push _)).emit rfl

end

/-! ## Whole sessions -/

/-- What is done to a shared taint: a turn over some transcript, or a member's clear. -/
inductive SessionOp where
  | turn (turn : Turn) (history : List Message)
  | clear

def SessionOp.run (env : Env) (s : Session) : SessionOp → Session
  | .turn t history => (runTurnWith env t { s with history := history }).2
  | .clear => s.clearByMember

/-- The session after `ops`, from a taint that is clean. -/
def runOps (env : Env) (ops : List SessionOp) : Session :=
  ops.foldl (SessionOp.run env) { history := [], taint := .clean, log := [] }

theorem runOps_downgraded (env : Env) (ops : List SessionOp) : Downgraded .clean (runOps env ops) := by
  have hrun : ∀ s, Downgraded .clean s → Downgraded .clean (ops.foldl (SessionOp.run env) s) := by
    induction ops with
    | nil => exact fun _ h => h
    | cons op ops ih =>
        intro s h
        apply ih
        cases op with
        | turn turn history => exact runTurnWith_downgraded env turn ⟨⟨h.sound.log, h.sound.covered, h.sound.last⟩, h.calls⟩
        | clear => exact h.clearByMember
  apply hrun
  refine ⟨⟨?_, (fun _ hc => by cases hc), rfl⟩, .nil⟩
  intro before a t after heq
  have hlength := congrArg List.length heq
  rw [List.length_append] at hlength
  cases hlength

/-- **The taint downgrade.** In every state any session reaches, the taint covers what was ingested since the
    last clear, it goes away only by a clear, and no tool that may change something runs on the ordinary path
    while it is there. Every call is refused, reaching no host and announcing none, runs on the ordinary path in
    a session clean enough for it, or runs on the explicit path on a host that honours it. -/
theorem taint_downgrade (env : Env) (ops : List SessionOp) :
    SoundLog .clean (runOps env ops).log ∧ CallByCall (runOps env ops).log := by
  have h := runOps_downgraded env ops
  exact ⟨h.sound.log, h.calls⟩

end AgentRuntime.Loop
