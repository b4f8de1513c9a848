import AgentRuntime.Loop.Downgrade

/-!
# `Loop.Dispatch` — the event stream and the dispatched calls

`itemsOf` is what a run's log says about asking the model, taking calls up, announcing them, handing them to a host
and reporting their results. A run is a list of rounds, one for each time the model was asked, and each call taken up
writes one of two blocks (`told`): it is announced with the host that is told before and gets it after, or with none.
`Goes` is the relation every function of the loop is in, from the session before it to the session after it.
-/

namespace AgentRuntime.Loop

open Words

/-! ## What is told -/

inductive Item where
  | asked (req : CompletionRequest)
  | replied (reply : AssistantTurn)
  | taken (call : ToolCall)
  /-- `before_announce` reached a host of this kind. -/
  | registered (k : HostKind) (call : ToolCall)
  /-- The `tool_call` event. -/
  | announced (host : Option HostKind) (call : ToolCall)
  /-- `execute` or `execute_with_explicit_approval` reached a host of this kind. -/
  | dispatched (k : HostKind) (call : ToolCall)
  /-- The `tool_result` event. -/
  | result (callId : String)
  | done (label : String)
deriving DecidableEq

def Action.item : Action → Option Item
  | .complete req => some (.asked req)
  | .replied reply => some (.replied reply)
  | .takes _ call _ => some (.taken call)
  | .beforeAnnounce k call => some (.registered k call)
  | .event (.toolCall _ call host _ _) => some (.announced host call)
  | .execute k call _ => some (.dispatched k call)
  | .executeWithExplicitApproval k call _ => some (.dispatched k call)
  | .event (.toolResult _ callId _ _) => some (.result callId)
  | .event (.done label) => some (.done label)
  | _ => none

def itemsOf (log : Log) : List Item := log.filterMap fun x => x.1.item

@[simp] theorem itemsOf_nil : itemsOf [] = [] := rfl

@[simp] theorem itemsOf_append (l m : Log) : itemsOf (l ++ m) = itemsOf l ++ itemsOf m := List.filterMap_append

@[simp] theorem itemsOf_singleton (a : Action) (t : TaintState) : itemsOf [(a, t)] = a.item.toList := by
  unfold itemsOf
  cases h : a.item with
  | none => simp [h]
  | some item => simp [h]

/-- What is told of a call that was taken up, with the host it was announced for. -/
def told (call : ToolCall) : Option HostKind → List Item
  | some k => [.taken call, .registered k call, .announced (some k) call, .dispatched k call, .result call.id]
  | none => [.taken call, .announced none call, .result call.id]

/-- The model was asked once; the calls of its reply that were taken up, with the host of each. -/
structure Round where
  request : CompletionRequest
  reply : Option AssistantTurn
  calls : List (ToolCall × Option HostKind)

def Round.items (r : Round) : List Item :=
  .asked r.request :: (r.reply.toList.map .replied ++ r.calls.flatMap fun c => told c.1 c.2)

/-- The calls taken up are the first ones of the reply. -/
def Round.Fits (r : Round) : Prop :=
  match r.reply with
  | some reply => r.calls.map Prod.fst <+: reply.toolCalls
  | none => r.calls = []

def dispatchedOf (calls : List (ToolCall × Option HostKind)) : ℕ := calls.countP fun c => c.2.isSome

/-! ## The stop flag -/

/-- Written right after the stop flag was read clear: a step starts, or a call is taken up. -/
def Action.goesOn : Action → Bool
  | .event (.stepStart _) | .takes _ _ _ => true
  | _ => false

/-- Behind `before`, the loop goes on only where the stop flag is clear. -/
def FlagClear (turn : Turn) (before seg : Log) : Prop :=
  ∀ p a t rest, seg = p ++ (a, t) :: rest → a.goesOn = true → turn.stop (before ++ p) = false

section

variable {turn : Turn}

theorem FlagClear.nil (before : Log) : FlagClear turn before [] := by
  intro p a t rest heq
  cases p <;> cases heq

theorem FlagClear.append {before l m : Log} (hl : FlagClear turn before l) (hm : FlagClear turn (before ++ l) m) :
    FlagClear turn before (l ++ m) := by
  intro p a t rest heq hgoes
  rcases List.append_eq_append_iff.mp heq with ⟨q, rfl, hm'⟩ | ⟨q, rfl, hq⟩
  · rw [← List.append_assoc]
    exact hm q a t rest hm' hgoes
  · cases q with
    | nil =>
        have hfirst := hm [] a t rest hq.symm hgoes
        simpa using hfirst
    | cons x q =>
        obtain ⟨rfl, rfl⟩ := List.cons.inj hq
        exact hl p a t q rfl hgoes

theorem FlagClear.singleton {before : Log} {a : Action} {t : TaintState}
    (h : a.goesOn = true → turn.stop before = false) : FlagClear turn before [(a, t)] := by
  intro p b u rest heq hgoes
  cases p with
  | nil =>
      cases heq
      simpa using h hgoes
  | cons x p =>
      obtain ⟨-, hnil⟩ := List.cons.inj heq
      cases p <;> cases hnil

/-! ## From one session to the next -/

/-- Written in a turn, not by the workflow around it. -/
def Action.ofTurn : Action → Bool
  | .attempt _ _ | .review _ | .verify _ => false
  | .event (.plan _) | .event (.verifier _ _ _ _) | .event (.selfReview _ _ _ _) => false
  | _ => true

/-- Written in a turn, and not right after the stop flag was read. -/
def Action.inTurn (a : Action) : Bool := !a.goesOn && a.ofTurn

/-- The loop goes from `s` to `s'` and tells `items`. -/
def Goes (turn : Turn) (s s' : Session) (items : List Item) : Prop :=
  ∃ seg, Writes s s' seg ∧ itemsOf seg = items ∧ FlagClear turn s.log seg ∧ ∀ x ∈ seg, x.1.ofTurn = true

namespace Goes

variable {s s' s'' : Session} {l m : List Item}

theorem refl (s : Session) : Goes turn s s [] := ⟨[], .refl s, rfl, .nil _, by simp⟩

theorem trans (h : Goes turn s s' l) (h' : Goes turn s' s'' m) : Goes turn s s'' (l ++ m) := by
  obtain ⟨seg, hwrites, rfl, hclear, hturn⟩ := h
  obtain ⟨seg', hwrites', rfl, hclear', hturn'⟩ := h'
  refine ⟨seg ++ seg', hwrites.trans hwrites', itemsOf_append seg seg', hclear.append ?_, ?_⟩
  · rw [← hwrites]
    exact hclear'
  · intro x hx
    exact (List.mem_append.mp hx).elim (hturn x) (hturn' x)

/-- An action right after the stop flag was read clear. -/
theorem goOn (s : Session) {a : Action} (h : turn.stop s.log = false) (hturn : a.ofTurn = true) :
    Goes turn s (s.act a) a.item.toList :=
  ⟨[(a, s.taint)], s.act_writes a, itemsOf_singleton a s.taint, .singleton fun _ => h, by simpa using hturn⟩

/-- An action that follows no reading of the stop flag. -/
theorem act (s : Session) {a : Action} (h : a.inTurn = true) : Goes turn s (s.act a) a.item.toList := by
  obtain ⟨hgoes, hturn⟩ := Bool.and_eq_true_iff.mp h
  refine ⟨[(a, s.taint)], s.act_writes a, itemsOf_singleton a s.taint, .singleton ?_, by simpa using hturn⟩
  intro hgoes'
  rw [hgoes'] at hgoes
  cases hgoes

/-- What is not in the log changes nothing. -/
theorem of_log (h : Goes turn s s' l) {u : Session} (hlog : u.log = s'.log) : Goes turn s u l := by
  obtain ⟨seg, hwrites, hrest⟩ := h
  exact ⟨seg, hlog.trans hwrites, hrest⟩

theorem access (env : Env) (s : Session) : Goes turn s (s.access env) [] := by
  unfold Session.access
  split
  · exact act { s with taint := s.taint.clearByMember } rfl
  · exact refl s

theorem emitAll (s : Session) {es : List Event} (h : ∀ e ∈ es, (Action.event e).item = none ∧
    (Action.event e).inTurn = true) : Goes turn s (s.emitAll es) [] := by
  induction es generalizing s with
  | nil => exact refl s
  | cons e es ih =>
      obtain ⟨hitem, hgoes⟩ := h e (List.mem_cons_self ..)
      have hfirst : Goes turn s (s.act (.event e)) (Action.event e).item.toList := act s hgoes
      rw [hitem] at hfirst
      exact hfirst.trans (ih _ fun e' he' => h e' (List.mem_cons_of_mem _ he'))

end Goes

end

/-! ## One call -/

section

variable (env : Env) (turn : Turn)

theorem decideCall_goes (i : ℕ) (call : ToolCall) (s : Session) :
    Goes turn s (decideCall env turn i call s).2 [] := by
  have hreason : ∀ (spec : Option ToolSpec) (refusal declined : Option String),
      Goes turn s (hicReasonOf env spec refusal declined s).2 [] := by
    intro spec refusal declined
    unfold hicReasonOf
    split
    · split
      · exact .access env s
      · exact .refl s
    · exact .refl s
  have hasked : ∀ (spec : Option ToolSpec) (reason : Option String) (s : Session),
      Goes turn s (refusedHicOf turn spec reason s).2 [] := by
    intro spec reason s
    unfold refusedHicOf
    split
    · exact .act s rfl
    · exact .refl s
  unfold decideCall
  exact (hreason _ _ _).trans (hasked _ _ _)

/-- A call past the cap is refused, as far as the index is seen. -/
theorem decideCall_dispatch_lt {i : ℕ} {call : ToolCall} {s : Session}
    (h : (decideCall env turn i call s).1.dispatch.isSome = true) : i % u32Bound < turn.cfg.maxToolCallsPerStep := by
  obtain ⟨⟨k, host⟩, hdispatch⟩ := Option.isSome_iff_exists.mp h
  obtain ⟨hrefusal, -⟩ := dispatchOf_eq_some hdispatch
  by_contra hcap
  unfold refusalOf at hrefusal
  rw [if_pos (not_lt.mp hcap)] at hrefusal
  cases hrefusal

theorem announce_goes (step : ℕ) (call : ToolCall) (d : Decision) (s : Session) :
    Goes turn s (announce step call d s)
      (d.dispatch.toList.map (fun kh => .registered kh.1 call) ++ [.announced (d.dispatch.map Prod.fst) call]) := by
  unfold announce
  cases d.dispatch with
  | none => exact .act s rfl
  | some kh =>
      have htold : Goes turn s (s.act (.beforeAnnounce kh.1 call)) [.registered kh.1 call] := .act s rfl
      exact htold.trans (.act _ rfl)

theorem runCall_goes (call : ToolCall) (d : Decision) (s : Session) :
    Goes turn s (runCall env call d s).2 (d.dispatch.toList.map fun kh => .dispatched kh.1 call) := by
  unfold runCall
  cases d.dispatch with
  | some kh =>
      simp only
      split
      · exact .act s rfl
      · exact .act s rfl
  | none =>
      cases d.refusal with
      | some why => exact .refl s
      | none =>
          simp only
          split
          · exact .refl s
          · split
            · exact .access env s
            · exact .refl s

theorem ingest_goes (step : ℕ) (call : ToolCall) (spec : Option ToolSpec) (outcome : ToolOutcome) (s : Session) :
    Goes turn s (s.ingest step call spec outcome) [] := by
  unfold Session.ingest
  simp only
  have hsettled : ∀ t, Goes turn s ({ s with taint := t }.act (.settled call spec true outcome)) [] := by
    intro t
    exact .act { s with taint := t } rfl
  split
  · exact (hsettled _).trans (.act _ rfl)
  · exact hsettled _

theorem settle_goes (step : ℕ) (call : ToolCall) (spec : Option ToolSpec) (ran : Bool) (outcome : ToolOutcome)
    (s : Session) : Goes turn s (settle env step call spec ran outcome s) [.result call.id] := by
  have hreported : Goes turn s (s.emit (.toolResult step call.id outcome.status outcome.toContent))
      [.result call.id] := .act s rfl
  unfold settle
  simp only
  split
  · exact (hreported.trans ((Goes.access env _).trans (ingest_goes turn step call spec outcome _))).of_log rfl
  · have hsettled := hreported.trans (.act _ (a := .settled call spec ran outcome) rfl)
    exact hsettled.of_log rfl

/-- The host a call is announced for, when the loop decides about it. -/
def hostAnnounced (step i : ℕ) (call : ToolCall) (s : Session) : Option HostKind :=
  (decideCall env turn i call (s.act (.takes step call (turn.tools.spec call.name)))).1.dispatch.map Prod.fst

/-- **One call.** It is announced with the host that is told before and gets it after, or with none. -/
theorem processCall_goes (step i : ℕ) (call : ToolCall) {s : Session} (hclear : turn.stop s.log = false) :
    Goes turn s (processCall env turn step i call s) (told call (hostAnnounced env turn step i call s)) := by
  unfold processCall hostAnnounced
  simp only
  generalize hs₁ : s.act (.takes step call (turn.tools.spec call.name)) = s₁
  have htaken : Goes turn s s₁ [.taken call] := by
    rw [← hs₁]
    exact .goOn s hclear rfl
  have hdecided := decideCall_goes env turn i call s₁
  generalize (decideCall env turn i call s₁).2 = s₂ at hdecided ⊢
  generalize (decideCall env turn i call s₁).1 = d
  have hannounced := announce_goes turn step call d s₂
  have hran := runCall_goes env turn call d (announce step call d s₂)
  generalize runCall env call d (announce step call d s₂) = run at hran ⊢
  have hsettled := settle_goes env turn step call d.spec run.1.1 run.1.2 run.2
  have hall := htaken.trans (hdecided.trans (hannounced.trans (hran.trans hsettled)))
  cases hd : d.dispatch with
  | none =>
      rw [hd] at hall
      exact hall
  | some kh =>
      rw [hd] at hall
      exact hall

/-- Only a call below the cap has a host, as far as its index is seen. -/
theorem hostAnnounced_lt {step i : ℕ} {call : ToolCall} {s : Session}
    (h : (hostAnnounced env turn step i call s).isSome = true) :
    i % u32Bound < turn.cfg.maxToolCallsPerStep := by
  apply decideCall_dispatch_lt env turn
  simpa [hostAnnounced] using h

/-- The indices below `i + n` that are seen below the cap. -/
def seenBelowCap (i n : ℕ) : ℕ :=
  (List.range' i n).countP fun j => decide (j % u32Bound < turn.cfg.maxToolCallsPerStep)

theorem seenBelowCap_succ (i n : ℕ) :
    seenBelowCap turn i (n + 1) =
      seenBelowCap turn (i + 1) n + if i % u32Bound < turn.cfg.maxToolCallsPerStep then 1 else 0 := by
  unfold seenBelowCap
  rw [List.range'_succ, List.countP_cons]
  simp

/-- An index that fits 32 bits is seen as it is. -/
theorem seenBelowCap_le {n : ℕ} (h : n ≤ u32Bound) : seenBelowCap turn 0 n ≤ turn.cfg.maxToolCallsPerStep := by
  have hmin : ∀ m ≤ n, seenBelowCap turn 0 m ≤ min m turn.cfg.maxToolCallsPerStep := by
    intro m hm
    induction m with
    | zero => exact Nat.zero_le _
    | succ m ih =>
        have hrest := ih (Nat.le_of_succ_le hm)
        have hseen : m % u32Bound = m := Nat.mod_eq_of_lt (by omega)
        unfold seenBelowCap at hrest ⊢
        rw [List.range'_concat, List.countP_append]
        simp only [Nat.one_mul, Nat.zero_add, List.countP_singleton, hseen, decide_eq_true_eq]
        split
        · omega
        · omega
  exact (hmin n le_rfl).trans (Nat.min_le_right _ _)

/-- How far the calls of a reply were taken up. -/
structure TakenUp (i : ℕ) (calls : List ToolCall) (taken : List (ToolCall × Option HostKind))
    (run : Option Unit × Session) : Prop where
  first : ∃ rest, taken.map Prod.fst ++ rest = calls ∧ (run.1 = none ↔ rest ≠ [])
  /-- The turn ends with calls to go where the stop flag was read set. -/
  stopped : run.1 = none → turn.stop run.2.log = true
  capped : dispatchedOf taken ≤ seenBelowCap turn i calls.length

theorem processCalls_goes (step i : ℕ) (calls : List ToolCall) (s : Session) :
    ∃ taken, Goes turn s (processCalls env turn step i calls s).2 (taken.flatMap fun c => told c.1 c.2) ∧
      TakenUp turn i calls taken (processCalls env turn step i calls s) := by
  induction calls generalizing i s with
  | nil =>
      refine ⟨[], .refl s, ⟨[], rfl, ?_⟩, ?_, Nat.zero_le _⟩
      · exact ⟨fun h => (by cases h), fun h => absurd rfl h⟩
      · intro h
        cases h
  | cons call calls ih =>
      unfold processCalls
      split
      · rename_i hstop
        exact ⟨[], .refl s, ⟨call :: calls, rfl, iff_of_true rfl (List.cons_ne_nil _ _)⟩, fun _ => hstop, Nat.zero_le _⟩
      · rename_i hclear
        have hcall := processCall_goes env turn step i call (eq_false_of_ne_true hclear)
        obtain ⟨taken, hgoes, ⟨⟨rest, hfirst, hrest⟩, hstopped, hcapped⟩⟩ :=
          ih (i + 1) (processCall env turn step i call s)
        refine ⟨(call, hostAnnounced env turn step i call s) :: taken, hcall.trans hgoes, ⟨rest, ?_, hrest⟩, hstopped, ?_⟩
        · rw [List.map_cons, List.cons_append, hfirst]
        · unfold dispatchedOf at hcapped ⊢
          rw [List.countP_cons, List.length_cons, seenBelowCap_succ]
          apply Nat.add_le_add hcapped
          split
          · rename_i hsome
            rw [if_pos (hostAnnounced_lt env turn hsome)]
          · exact Nat.zero_le _

/-! ## Steps and turns -/

theorem report_goes (step : ℕ) (streamed : Streamed) (s : Session) : Goes turn s (report step streamed s) [] := by
  have hdeltas : ∀ buf deltas, ∀ e ∈ coalesce step buf deltas,
      (Action.event e).item = none ∧ (Action.event e).inTurn = true := by
    intro buf deltas
    induction deltas generalizing buf with
    | nil =>
        unfold coalesce
        split
        · simp
        · simp [Action.item, Action.inTurn, Action.goesOn, Action.ofTurn]
    | cons delta deltas ih =>
        obtain ⟨text, waited⟩ := delta
        unfold coalesce
        split
        · exact ih buf
        · split
          · intro e he
            rcases List.mem_cons.mp he with rfl | he
            · exact ⟨rfl, rfl⟩
            · exact ih "" e he
          · exact ih _
  have hemitted : Goes turn s (s.emitAll (coalesce step "" streamed.deltas)) [] := .emitAll s (hdeltas "" streamed.deltas)
  unfold report
  simp only
  split
  · exact hemitted.trans (.act _ rfl)
  · exact hemitted

/-- A round that respects the cap, as far as the indices of its calls fit 32 bits. -/
structure Round.Told (r : Round) : Prop where
  fits : r.Fits
  capped : ∀ reply, r.reply = some reply → reply.toolCalls.length ≤ u32Bound →
    dispatchedOf r.calls ≤ turn.cfg.maxToolCallsPerStep

/-- The outcome is `stopped` only where the stop flag was read set. -/
def StoppedByFlag (outcome : RunOutcome) (s : Session) : Prop := outcome = .stopped → turn.stop s.log = true

theorem runStep_goes (systemPrompt : String) (step : ℕ) (s : Session) :
    ∃ rounds : List Round, rounds.length ≤ 1 ∧ (∀ r ∈ rounds, r.Told turn) ∧
      Goes turn s (runStep env turn systemPrompt step s).2 (rounds.flatMap Round.items) ∧
      ∀ outcome, (runStep env turn systemPrompt step s).1 = .finished outcome →
        StoppedByFlag turn outcome (runStep env turn systemPrompt step s).2 := by
  unfold runStep
  split
  · rename_i hstop
    refine ⟨[], Nat.zero_le _, by simp, .refl s, ?_⟩
    intro outcome _ _
    exact hstop
  · rename_i hclear
    have hstarted : Goes turn s (s.emit (.stepStart step)) [] := .goOn s (eq_false_of_ne_true hclear) rfl
    simp only
    split
    · refine ⟨[], Nat.zero_le _, by simp, hstarted.trans (.act _ rfl), ?_⟩
      intro outcome heq hstopped
      cases heq
      cases hstopped
    · rename_i req _
      have hasked : Goes turn s ((s.emit (.stepStart step)).act (.complete req)) [.asked req] :=
        hstarted.trans (.act _ rfl)
      have hreported := hasked.trans (report_goes turn step (turn.llm (s.emit (.stepStart step)).log req) _)
      generalize report step (turn.llm (s.emit (.stepStart step)).log req)
        ((s.emit (.stepStart step)).act (.complete req)) = s₂ at hreported ⊢
      split
      · refine ⟨[⟨req, none, []⟩], le_rfl, ?_, hreported.trans (.act _ rfl), ?_⟩
        · simp only [List.mem_singleton, forall_eq]
          refine ⟨rfl, ?_⟩
          intro reply heq
          cases heq
        · intro outcome heq hstopped
          cases heq
          cases hstopped
      · rename_i reply usage _
        have hreplied : Goes turn s (s₂.act (.replied reply)) [.asked req, .replied reply] :=
          hreported.trans (.act s₂ rfl)
        have hpushed := hreplied.of_log
          (u := (s₂.act (.replied reply)).push (.assistant reply.content reply.toolCalls)) rfl
        split
        · refine ⟨[⟨req, some reply, []⟩], le_rfl, ?_, ?_, ?_⟩
          · simp only [List.mem_singleton, forall_eq]
            exact ⟨List.nil_prefix, fun _ _ _ => Nat.zero_le _⟩
          · exact hpushed.trans (.act _ rfl)
          · intro outcome heq hstopped
            cases heq
            cases hstopped
        · obtain ⟨taken, hgoes, ⟨⟨rest, hfirst, hrest⟩, hstopped, hcapped⟩⟩ :=
            processCalls_goes env turn step 0 reply.toolCalls
              ((s₂.act (.replied reply)).push (.assistant reply.content reply.toolCalls))
          have htold : Round.Told turn ⟨req, some reply, taken⟩ := by
            refine ⟨⟨rest, hfirst⟩, ?_⟩
            intro reply' heq hlength
            cases heq
            exact hcapped.trans (seenBelowCap_le turn hlength)
          have hall := hpushed.trans hgoes
          refine ⟨[⟨req, some reply, taken⟩], le_rfl, ?_, ?_, ?_⟩
          · simp only [List.mem_singleton, forall_eq]
            exact htold
          · split
            · rename_i heq
              rw [heq] at hall
              simpa [Round.items] using hall
            · rename_i s₃ heq
              rw [heq] at hall
              have hended : Goes turn s₃ (s₃.emit (.stepEnd step)) [] := .act s₃ rfl
              simpa [Round.items] using hall.trans hended
          · intro outcome heq
            split at heq
            · rename_i hnone
              cases heq
              intro _
              have hflag := hstopped (by rw [hnone])
              rw [hnone] at hflag
              exact hflag
            · cases heq

theorem runSteps_goes (systemPrompt : String) (left step : ℕ) (s : Session) :
    ∃ rounds : List Round, rounds.length ≤ left ∧ (∀ r ∈ rounds, r.Told turn) ∧
      Goes turn s (runSteps env turn systemPrompt left step s).2 (rounds.flatMap Round.items) ∧
      StoppedByFlag turn (runSteps env turn systemPrompt left step s).1 (runSteps env turn systemPrompt left step s).2 := by
  induction left generalizing step s with
  | zero =>
      refine ⟨[], le_rfl, by simp, .act s rfl, ?_⟩
      intro hstopped
      cases hstopped
  | succ left ih =>
      obtain ⟨rounds, hlength, htold, hgoes, hstopped⟩ := runStep_goes env turn systemPrompt step s
      unfold runSteps
      split
      · rename_i outcome s' heq
        rw [heq] at hgoes hstopped
        exact ⟨rounds, hlength.trans (Nat.succ_le_succ (Nat.zero_le _)), htold, hgoes, hstopped outcome rfl⟩
      · rename_i s' heq
        rw [heq] at hgoes
        obtain ⟨rounds', hlength', htold', hgoes', hstopped'⟩ := ih (step + 1) s'
        refine ⟨rounds ++ rounds', ?_, ?_, ?_, hstopped'⟩
        · rw [List.length_append]
          omega
        · intro r hr
          exact (List.mem_append.mp hr).elim (htold r) (htold' r)
        · rw [List.flatMap_append]
          exact hgoes.trans hgoes'

/-- A turn up to its `done` event. -/
theorem runTurnWith_goes (s : Session) :
    ∃ (rounds : List Round) (s' : Session), (runTurnWith env turn s).2 = s'.emit (.done (runTurnWith env turn s).1.label) ∧
      rounds.length ≤ turn.cfg.maxSteps ∧ (∀ r ∈ rounds, r.Told turn) ∧ Goes turn s s' (rounds.flatMap Round.items) ∧
      StoppedByFlag turn (runTurnWith env turn s).1 s' := by
  obtain ⟨rounds, hlength, htold, hgoes, hstopped⟩ :=
    runSteps_goes env turn (turnSystemPrompt turn s) turn.cfg.maxSteps 1 (s.push (.user turn.user))
  exact ⟨rounds, _, rfl, hlength, htold, hgoes, hstopped⟩

end

/-- **What the events tell.** A turn asks the model at most `max_steps` times and ends with its only `done` event, which
    names the outcome. In each round the calls taken up are the first ones of the reply; each is announced with the
    host that is told right before and gets it right after, or with none and reaches none, and its result comes before
    anything else is taken up. Where the indices of a reply's calls fit 32 bits, at most
    `max_tool_calls_per_step` of them are dispatched. The loop goes on only where the stop flag is read clear, and
    it stops where the flag is set. -/
theorem turn_tells_dispatch (env : Env) (turn : Turn) (history : List Message) (taint : TaintState) :
    ∃ (seg : Log) (t : TaintState) (rounds : List Round),
      (runTurnWith env turn { history, taint, log := [] }).2.log =
        seg ++ [(.event (.done (runTurnWith env turn { history, taint, log := [] }).1.label), t)] ∧
      itemsOf seg = rounds.flatMap Round.items ∧
      rounds.length ≤ turn.cfg.maxSteps ∧
      (∀ r ∈ rounds, r.Told turn) ∧
      FlagClear turn [] seg ∧
      ((runTurnWith env turn { history, taint, log := [] }).1 = .stopped → turn.stop seg = true) := by
  obtain ⟨rounds, s', hdone, hlength, htold, ⟨seg, hwrites, hitems, hclear, -⟩, hstopped⟩ :=
    runTurnWith_goes env turn { history, taint, log := [] }
  have hlog : s'.log = seg := hwrites
  refine ⟨seg, s'.taint, rounds, ?_, hitems, hlength, htold, hclear, ?_⟩
  · rw [hdone]
    show s'.log ++ _ = _
    rw [hlog]
  · rw [← hlog]
    exact hstopped

/-! ## A reply of more than 2^32 calls -/

namespace WrappedIndex

def call : ToolCall where
  id := "1"
  name := "list"
  arguments := ""

def host : ToolHost where
  execute _ _ := .ok "done"
  honorsExplicitApproval _ := false
  executeWithExplicitApproval _ _ _ := .ok "done"

/-- One call a step is allowed, and the model asks `n` times for the same. -/
def turn (n : ℕ) : Turn where
  cfg := { model := "", systemPrompt := "", maxSteps := 1, maxToolCallsPerStep := 1, maxTokens := 1 }
  opts :=
    { maxToolsPerRequest := none, budget := none, pinnedTools := [], turnContext := [], selector := none,
      maxToolsTotal := none }
  llm _ _ := { deltas := [], reply := .ok (⟨"", List.replicate n call⟩, none) }
  tools :=
    { specs := [⟨"list", "", .core, { effect := some .none, trust := some .trusted }⟩]
      host := fun _ => some host
      policies := [] }
  stop _ := false
  user := ""

def env : Env where
  clears _ := false
  parsesJson _ := true
  toolsJson _ := ""
  toLowercase text := text

def isDispatched : Item → Bool
  | .dispatched _ _ => true
  | _ => false

def isReply : Item → Bool
  | .replied _ => true
  | _ => false

theorem hostAnnounced_eq (n step i : ℕ) (s : Session) :
    hostAnnounced env (turn n) step i call s = if i % u32Bound < 1 then some .core else none := by
  have hspec : (turn n).tools.spec call.name =
      some ⟨"list", "", .core, { effect := some .none, trust := some .trusted }⟩ := rfl
  unfold hostAnnounced decideCall
  simp only [hspec]
  by_cases hi : i % u32Bound < 1
  · have hrefusal : ∀ spec, spec = (turn n).tools.spec call.name → refusalOf env (turn n) i call spec = none := by
      rintro spec rfl
      unfold refusalOf
      rw [if_neg (show ¬ i % u32Bound ≥ (turn n).cfg.maxToolCallsPerStep from not_le.mpr hi)]
      rfl
    rw [hrefusal _ hspec.symm, if_pos hi]
    rfl
  · have hrefusal : ∀ spec, refusalOf env (turn n) i call spec = some (skippedText 1) := by
      intro spec
      unfold refusalOf
      rw [if_pos (show i % u32Bound ≥ (turn n).cfg.maxToolCallsPerStep from not_lt.mp hi)]
      rfl
    rw [hrefusal, if_neg hi]
    rfl

/-- Every call that is seen below the cap is dispatched. -/
theorem processCalls_dispatched (n step i m : ℕ) (s : Session) :
    ∃ taken s', processCalls env (turn n) step i (List.replicate m call) s = (some (), s') ∧
      Goes (turn n) s s' (taken.flatMap fun c => told c.1 c.2) ∧ dispatchedOf taken = seenBelowCap (turn n) i m := by
  induction m generalizing i s with
  | zero => exact ⟨[], s, rfl, .refl s, rfl⟩
  | succ m ih =>
      obtain ⟨taken, s', hrun, hgoes, hdispatched⟩ := ih (i + 1) (processCall env (turn n) step i call s)
      have hcall := processCall_goes env (turn n) step i call (s := s) rfl
      refine ⟨(call, hostAnnounced env (turn n) step i call s) :: taken, s', hrun, hcall.trans hgoes, ?_⟩
      rw [seenBelowCap_succ, ← hdispatched]
      unfold dispatchedOf
      rw [List.countP_cons, hostAnnounced_eq]
      show _ = _ + if i % u32Bound < 1 then 1 else 0
      by_cases hi : i % u32Bound < 1
      · simp [hi]
      · simp [hi]

theorem countP_told (taken : List (ToolCall × Option HostKind)) :
    (taken.flatMap fun c => told c.1 c.2).countP isDispatched = dispatchedOf taken ∧
      (taken.flatMap fun c => told c.1 c.2).countP isReply = 0 := by
  induction taken with
  | nil => exact ⟨rfl, rfl⟩
  | cons c taken ih =>
      obtain ⟨call, host⟩ := c
      obtain ⟨hdispatched, hreply⟩ := ih
      rw [List.flatMap_cons, List.countP_append, List.countP_append, hdispatched, hreply]
      unfold dispatchedOf
      rw [List.countP_cons]
      cases host with
      | none => simp [told, isDispatched, isReply]
      | some k => simp [told, isDispatched, isReply, List.countP_cons, Nat.add_comm]

/-- The one step of the turn. -/
theorem runStep_dispatched (m : ℕ) (systemPrompt : String) (s : Session) :
    ∃ taken s' req, runStep env (turn (m + 1)) systemPrompt 1 s = (.next, s'.emit (.stepEnd 1)) ∧
      Goes (turn (m + 1)) s s' (.asked req :: .replied ⟨"", List.replicate (m + 1) call⟩ ::
        taken.flatMap fun c => told c.1 c.2) ∧
      dispatchedOf taken = seenBelowCap (turn (m + 1)) 0 (m + 1) := by
  obtain ⟨req, hreq⟩ : ∃ req, requestOf env (turn (m + 1)) systemPrompt (s.emit (.stepStart 1)) = .ok req :=
    ⟨_, rfl⟩
  have hstarted : Goes (turn (m + 1)) s (s.emit (.stepStart 1)) [] := .goOn s rfl rfl
  have hasked : Goes (turn (m + 1)) s ((s.emit (.stepStart 1)).act (.complete req)) [.asked req] :=
    hstarted.trans (.act _ rfl)
  generalize hs₂ : (s.emit (.stepStart 1)).act (.complete req) = s₂ at hasked
  have hreplied : Goes (turn (m + 1)) s (s₂.act (.replied ⟨"", List.replicate (m + 1) call⟩))
      [.asked req, .replied ⟨"", List.replicate (m + 1) call⟩] := hasked.trans (.act s₂ rfl)
  have hpushed := hreplied.of_log (u := (s₂.act (.replied ⟨"", List.replicate (m + 1) call⟩)).push
    (.assistant "" (List.replicate (m + 1) call))) rfl
  obtain ⟨taken, s', hrun, hgoes, hdispatched⟩ := processCalls_dispatched (m + 1) 1 0 (m + 1)
    ((s₂.act (.replied ⟨"", List.replicate (m + 1) call⟩)).push (.assistant "" (List.replicate (m + 1) call)))
  refine ⟨taken, s', req, ?_, hpushed.trans hgoes, hdispatched⟩
  have hreport : report 1 ((turn (m + 1)).llm (s.emit (.stepStart 1)).log req)
      ((s.emit (.stepStart 1)).act (.complete req)) = s₂ := hs₂
  have hreply : ((turn (m + 1)).llm (s.emit (.stepStart 1)).log req).reply =
      .ok (⟨"", List.replicate (m + 1) call⟩, none) := rfl
  unfold runStep
  simp only [hreq, hreport, hreply, hrun]
  rfl

/-- Index `2^32` is seen as `0`: one reply, and two of its calls are dispatched where one is allowed. -/
theorem dispatched_twice :
    (turn (u32Bound + 1)).cfg.maxToolCallsPerStep = 1 ∧
      (itemsOf (runTurnWith env (turn (u32Bound + 1)) { history := [], taint := .clean, log := [] }).2.log).countP
        isReply = 1 ∧
      2 ≤ (itemsOf (runTurnWith env (turn (u32Bound + 1)) { history := [], taint := .clean, log := [] }).2.log).countP
        isDispatched := by
  -- From here on the reply is of any length.
  have hrun : ∀ m, ∃ taken req, itemsOf (runTurnWith env (turn (m + 1)) { history := [], taint := .clean, log := [] }).2.log =
      .asked req :: .replied ⟨"", List.replicate (m + 1) call⟩ :: (taken.flatMap fun c => told c.1 c.2) ++
        [.done "step_limit"] ∧ dispatchedOf taken = seenBelowCap (turn (m + 1)) 0 (m + 1) := by
    intro m
    obtain ⟨taken, s', req, hstep, ⟨seg, hwrites, hitems, -, -⟩, hdispatched⟩ :=
      runStep_dispatched m ""
        (Session.push { history := [], taint := .clean, log := [] } (.user (turn (m + 1)).user))
    refine ⟨taken, req, ?_, hdispatched⟩
    have hsteps : runTurnWith env (turn (m + 1)) { history := [], taint := .clean, log := [] } =
        (.stepLimit, ((s'.emit (.stepEnd 1)).emit (.error ("step budget of " ++ toString 1 ++ " exhausted"))).emit
          (.done "step_limit")) := by
      unfold runTurnWith
      show finish (runSteps env (turn (m + 1)) "" 1 1 _).1 (runSteps env (turn (m + 1)) "" 1 1 _).2 = _
      unfold runSteps
      rw [hstep]
      rfl
    rw [hsteps]
    show itemsOf (((s'.log ++ [_]) ++ [_]) ++ [_]) = _
    rw [hwrites]
    simp only [itemsOf_append, itemsOf_singleton, hitems]
    show (([] : List Item) ++ _ ++ [] ++ []) ++ [_] = _
    simp only [List.nil_append, List.append_nil]
  have htwice : ∀ m, (m + 1) % u32Bound < 1 → 2 ≤ seenBelowCap (turn (m + 1 + 1)) 0 (m + 1 + 1) := by
    intro m hm
    unfold seenBelowCap
    rw [List.range'_concat, List.range'_succ, List.countP_append, List.countP_cons]
    have hfirst : decide (0 % u32Bound < (turn (m + 1 + 1)).cfg.maxToolCallsPerStep) = true := by
      rw [Nat.zero_mod]
      rfl
    have hlast : decide ((0 + 1 * (m + 1)) % u32Bound < (turn (m + 1 + 1)).cfg.maxToolCallsPerStep) = true := by
      rw [Nat.one_mul, Nat.zero_add]
      exact decide_eq_true hm
    rw [if_pos hfirst, List.countP_singleton, if_pos hlast]
    omega
  obtain ⟨m, hm⟩ : ∃ m, u32Bound = m + 1 := ⟨u32Bound - 1, rfl⟩
  have hwraps : (m + 1) % u32Bound < 1 := by
    rw [hm, Nat.mod_self]
    exact Nat.one_pos
  obtain ⟨taken, req, hitems, hdispatched⟩ := hrun (m + 1)
  obtain ⟨hcount, hreply⟩ := countP_told taken
  rw [hm, hitems]
  refine ⟨rfl, ?_, ?_⟩
  · simp [hreply, isReply, List.countP_cons]
  · have htold := htwice m hwraps
    simp [hcount, hdispatched, isDispatched]
    exact htold

end WrappedIndex

end AgentRuntime.Loop
