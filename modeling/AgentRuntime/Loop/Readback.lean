import AgentRuntime.Loop.Workflow

/-!
# `Loop.Readback` — what the verifiers see of an attempt

`processed` are the calls the loop processed in the attempt at hand, taken from the log; `recordsSince` reads
them back from the transcript. It finds a call by the id the model chose and its status by how its result
begins. `ReadBack` is the invariant of an attempt: the records are the processed calls as `readBack` sees them.
-/

namespace AgentRuntime.Loop

/-! ## The calls of the attempt at hand -/

/-- A call the loop took the outcome of in, with the calls of its reply. -/
structure Processed where
  reply : List ToolCall
  call : ToolCall
  outcome : ToolOutcome

/-- The calls of the last reply, and those processed since the attempt began. -/
def attemptStep (st : List ToolCall × List Processed) : Action → List ToolCall × List Processed
  | .attempt _ _ => ([], [])
  | .replied reply => (reply.toolCalls, st.2)
  | .settled call _ _ outcome => (st.1, st.2 ++ [{ reply := st.1, call, outcome }])
  | _ => st

def attemptState (log : Log) : List ToolCall × List Processed :=
  log.foldl (fun st x => attemptStep st x.1) ([], [])

def processed (log : Log) : List Processed := (attemptState log).2

/-- The call of a reply that has this id; the last one, when the model repeats it. -/
def lastOf (reply : List ToolCall) (id : String) : Option ToolCall := reply.reverse.find? fun c => c.id == id

namespace Processed

/-- The record of the call itself. -/
def record (p : Processed) : ToolRecord where
  name := p.call.name
  arguments := p.call.arguments
  content := p.outcome.toContent
  status := p.outcome.status

/-- The record read back for it. -/
def readBack (p : Processed) : ToolRecord where
  name := ((lastOf p.reply p.call.id).getD p.call).name
  arguments := ((lastOf p.reply p.call.id).getD p.call).arguments
  content := p.outcome.toContent
  status := contentStatus p.outcome.toContent

/-- The call can be told from its result: the last call of its reply with its id asks for the same, and no output
    of a host that says ok begins like a refusal or an error. -/
structure Recoverable (p : Processed) : Prop where
  same : ∀ c, lastOf p.reply p.call.id = some c → c.name = p.call.name ∧ c.arguments = p.call.arguments
  plain : p.outcome.status = "ok" →
    startsWith p.outcome.toContent "declined:" = false ∧ startsWith p.outcome.toContent "tool error:" = false

end Processed

theorem attemptState_concat (log : Log) (a : Action) (t : TaintState) :
    attemptState (log ++ [(a, t)]) = attemptStep (attemptState log) a := by
  unfold attemptState
  rw [List.foldl_append]
  rfl

theorem startsWith_append (start text : String) : startsWith (start ++ text) start = true := by
  unfold startsWith
  rw [String.toList_append, List.isPrefixOf_iff_prefix]
  exact List.prefix_append _ _

theorem contentStatus_denied (why : String) : contentStatus (ToolOutcome.denied why).toContent = "denied" := by
  have hstart : (ToolOutcome.denied why).toContent = "declined:" ++ (" " ++ (why ++ ". Nothing was done.")) := by
    show "declined: " ++ why ++ ". Nothing was done." = _
    rw [← String.append_assoc, String.append_assoc]
    rfl
  unfold contentStatus
  rw [hstart, startsWith_append, if_pos rfl]

theorem contentStatus_error (e : String) : contentStatus (ToolOutcome.error e).toContent = "error" := by
  have hstart : (ToolOutcome.error e).toContent = "tool error:" ++ (" " ++ e) := by
    show "tool error: " ++ e = _
    rw [← String.append_assoc]
    rfl
  have hother : startsWith ("tool error:" ++ (" " ++ e)) "declined:" = false := by
    unfold startsWith
    rw [String.toList_append]
    rfl
  unfold contentStatus
  rw [hstart, hother, startsWith_append]
  rfl

theorem contentStatus_ok (content : String) :
    contentStatus content = "ok" ↔ startsWith content "declined:" = false ∧ startsWith content "tool error:" = false := by
  unfold contentStatus
  cases startsWith content "declined:" with
  | true => simp
  | false => cases startsWith content "tool error:" <;> simp

/-- The status is read back unless an output that is ok begins like a refusal or an error. -/
theorem contentStatus_toContent (outcome : ToolOutcome) :
    contentStatus outcome.toContent = outcome.status ↔
      (outcome.status = "ok" → startsWith outcome.toContent "declined:" = false ∧
        startsWith outcome.toContent "tool error:" = false) := by
  by_cases hok : outcome.status = "ok"
  · rw [hok, contentStatus_ok]
    exact ⟨fun h _ => h, fun h => h rfl⟩
  · refine iff_of_true ?_ fun h => absurd h hok
    cases outcome with
    | ok output => exact absurd rfl hok
    | untrusted output => exact absurd rfl hok
    | vouched output => exact absurd rfl hok
    | denied why => exact contentStatus_denied why
    | error e => exact contentStatus_error e

theorem lastOf_of_mem {reply : List ToolCall} {c : ToolCall} (hc : c ∈ reply) :
    ∃ last, lastOf reply c.id = some last := by
  rw [← Option.isSome_iff_exists]
  unfold lastOf
  rw [List.find?_isSome]
  exact ⟨c, List.mem_reverse.mpr hc, beq_self_eq_true _⟩

theorem Processed.readBack_eq_record {p : Processed} (hp : p.call ∈ p.reply) :
    p.readBack = p.record ↔ p.Recoverable := by
  obtain ⟨c, hc⟩ := lastOf_of_mem hp
  unfold readBack record
  rw [hc, ToolRecord.mk.injEq]
  show c.name = p.call.name ∧ c.arguments = p.call.arguments ∧ _ ∧ contentStatus _ = _ ↔ _
  rw [contentStatus_toContent]
  constructor
  · rintro ⟨hname, harguments, -, hplain⟩
    refine ⟨?_, hplain⟩
    intro c' hc'
    rw [hc] at hc'
    cases hc'
    exact ⟨hname, harguments⟩
  · rintro ⟨hsame, hplain⟩
    exact ⟨(hsame c hc).1, (hsame c hc).2, rfl, hplain⟩

/-! ## Reading the transcript -/

/-- The calls known and the records read from the messages after the first `start`. -/
def readFrom (start : ℕ) (history : List Message) : KnownCalls × List ToolRecord :=
  (history.drop start).foldl recordStep ([], [])

theorem readFrom_concat {start : ℕ} {history : List Message} (h : start ≤ history.length) (m : Message) :
    readFrom start (history ++ [m]) = recordStep (readFrom start history) m := by
  unfold readFrom
  rw [List.drop_append_of_le_length h, List.foldl_append]
  rfl

/-- A message that holds no call and no result is not read. -/
theorem recordStep_plain {m : Message} (hcalls : m.toolCalls = []) (hrole : m.role ≠ .tool)
    (st : KnownCalls × List ToolRecord) : recordStep st m = st := by
  unfold recordStep
  simp only [hcalls, if_neg hrole]
  rfl

theorem recordStep_toolResult {known : KnownCalls} {id name arguments : String}
    (h : known.lookup id = some (name, arguments)) (records : List ToolRecord) (content : String) :
    recordStep (known, records) (.toolResult id content) =
      (known, records ++ [{ name, arguments, content, status := contentStatus content }]) := by
  unfold recordStep
  have hlookup : (known.insertAll (Message.toolResult id content).toolCalls).lookup id = some (name, arguments) := h
  simp only [Message.toolResult, if_true, Option.bind_some] at hlookup ⊢
  rw [hlookup]
  rfl

theorem lookup_insertAll (known : KnownCalls) (calls : List ToolCall) (id : String) :
    (known.insertAll calls).lookup id =
      match lastOf calls id with
      | some c => some (c.name, c.arguments)
      | none => known.lookup id := by
  unfold KnownCalls.insertAll lastOf
  induction calls using List.reverseRecOn with
  | nil => rfl
  | append_singleton calls c ih =>
      rw [List.foldl_append, List.reverse_append]
      show List.lookup id ((c.id, c.name, c.arguments) :: _) = match List.find? _ (c :: calls.reverse) with
        | some c => some (c.name, c.arguments)
        | none => known.lookup id
      rw [List.lookup_cons, List.find?_cons]
      by_cases hid : c.id = id
      · subst hid
        simp
      · rw [beq_false_of_ne hid, beq_false_of_ne (Ne.symm hid)]
        exact ih

/-- A verifier is given what is read back of the attempt. -/
def JudgedOnReadBack (log : Log) : Prop :=
  ∀ before ctx t after, log = before ++ (.verify ctx, t) :: after →
    ctx.tools = (processed before).map Processed.readBack ∧ ∀ p ∈ processed before, p.call ∈ p.reply

theorem JudgedOnReadBack.concat {log : Log} (h : JudgedOnReadBack log) {a : Action} {t : TaintState}
    (hverify : ∀ ctx, a = .verify ctx →
      ctx.tools = (processed log).map Processed.readBack ∧ ∀ p ∈ processed log, p.call ∈ p.reply) :
    JudgedOnReadBack (log ++ [(a, t)]) := by
  intro before ctx u after heq
  rcases Log.split_concat heq with ⟨rfl, hx, -⟩ | ⟨after', -, rfl⟩
  · cases hx
    exact hverify ctx rfl
  · exact h before ctx u after' rfl

/-- The messages after the first `start` are those of the attempt the log is in, whose last reply made the calls
    `reply`. -/
structure ReadBack (start : ℕ) (reply : List ToolCall) (s : Session) : Prop where
  begun : start ≤ s.history.length
  asked : (attemptState s.log).1 = reply
  records : (readFrom start s.history).2 = (processed s.log).map Processed.readBack
  known : ∀ c ∈ reply, (readFrom start s.history).1.lookup c.id =
    (lastOf reply c.id).map fun last => (last.name, last.arguments)
  own : ∀ p ∈ processed s.log, p.call ∈ p.reply
  judged : JudgedOnReadBack s.log

/-- Neither begins an attempt, nor is a reply, nor takes an outcome in, nor asks a verifier. -/
def Action.aside : Action → Bool
  | .attempt _ _ | .replied _ | .settled _ _ _ _ | .verify _ => false
  | _ => true

theorem attemptStep_aside {a : Action} (ha : a.aside = true) (st : List ToolCall × List Processed) :
    attemptStep st a = st := by
  cases a <;> first | rfl | cases ha

namespace ReadBack

variable {start : ℕ} {reply : List ToolCall} {s : Session}

/-- An action that leaves the attempt's calls alone; the taint is free. -/
theorem keep (h : ReadBack start reply s) {a : Action} (t : TaintState)
    (hstep : attemptStep (attemptState s.log) a = attemptState s.log)
    (hverify : ∀ ctx, a = .verify ctx →
      ctx.tools = (processed s.log).map Processed.readBack) :
    ReadBack start reply ({ s with taint := t }.act a) := by
  have hstate : attemptState ({ s with taint := t }.act a).log = attemptState s.log := by
    show attemptState (s.log ++ [(a, t)]) = _
    rw [attemptState_concat, hstep]
  refine ⟨h.begun, ?_, ?_, h.known, ?_, ?_⟩
  · rw [hstate]
    exact h.asked
  · unfold processed
    rw [hstate]
    exact h.records
  · unfold processed
    rw [hstate]
    exact h.own
  · apply h.judged.concat
    intro ctx heq
    exact ⟨hverify ctx heq, h.own⟩

theorem aside (h : ReadBack start reply s) {a : Action} (ha : a.aside = true) (t : TaintState) :
    ReadBack start reply ({ s with taint := t }.act a) := by
  apply h.keep t (attemptStep_aside ha _)
  rintro ctx rfl
  cases ha

theorem act (h : ReadBack start reply s) {a : Action} (ha : a.aside = true) : ReadBack start reply (s.act a) :=
  h.aside ha s.taint

theorem emit (h : ReadBack start reply s) (e : Event) : ReadBack start reply (s.emit e) := h.act rfl

theorem emitAll (h : ReadBack start reply s) (es : List Event) : ReadBack start reply (s.emitAll es) := by
  induction es generalizing s with
  | nil => exact h
  | cons e es ih => exact ih (h.emit e)

theorem access (h : ReadBack start reply s) (env : Env) : ReadBack start reply (s.access env) := by
  unfold Session.access
  split
  · exact h.aside rfl .clean
  · exact h

/-- A verifier is asked about the records read now. -/
theorem verify (h : ReadBack start reply s) {ctx : VerifyContext}
    (htools : ctx.tools = (readFrom start s.history).2) : ReadBack start reply (s.act (.verify ctx)) := by
  apply h.keep s.taint rfl
  intro ctx' heq
  cases heq
  exact htools.trans h.records

theorem push (h : ReadBack start reply s) {m : Message} (hcalls : m.toolCalls = []) (hrole : m.role ≠ .tool) :
    ReadBack start reply (s.push m) := by
  have hread : readFrom start (s.history ++ [m]) = readFrom start s.history := by
    rw [readFrom_concat h.begun, recordStep_plain hcalls hrole]
  refine ⟨?_, h.asked, ?_, ?_, h.own, h.judged⟩
  · show start ≤ (s.history ++ [m]).length
    rw [List.length_append]
    exact Nat.le_add_right_of_le h.begun
  · show (readFrom start (s.history ++ [m])).2 = _
    rw [hread]
    exact h.records
  · intro c hc
    show (readFrom start (s.history ++ [m])).1.lookup c.id = _
    rw [hread]
    exact h.known c hc

/-- **A reply.** Its calls are the ones known by their ids from now on. -/
theorem replied (h : ReadBack start reply s) (turn : AssistantTurn) :
    ReadBack start turn.toolCalls ((s.act (.replied turn)).push (.assistant turn.content turn.toolCalls)) := by
  have hstate : attemptState (s.log ++ [(.replied turn, s.taint)]) = (turn.toolCalls, processed s.log) := by
    rw [attemptState_concat]
    rfl
  have hread : readFrom start (s.history ++ [.assistant turn.content turn.toolCalls]) =
      ((readFrom start s.history).1.insertAll turn.toolCalls, (readFrom start s.history).2) := by
    rw [readFrom_concat h.begun]
    rfl
  refine ⟨?_, ?_, ?_, ?_, ?_, ?_⟩
  · show start ≤ (s.history ++ [_]).length
    rw [List.length_append]
    exact Nat.le_add_right_of_le h.begun
  · show (attemptState (s.log ++ [_])).1 = _
    rw [hstate]
  · show (readFrom start (s.history ++ [_])).2 = (attemptState (s.log ++ [_])).2.map _
    rw [hread, hstate]
    exact h.records
  · intro c hc
    show (readFrom start (s.history ++ [_])).1.lookup c.id = _
    obtain ⟨last, hlast⟩ := lastOf_of_mem hc
    rw [hread, lookup_insertAll, hlast]
    rfl
  · show ∀ p ∈ (attemptState (s.log ++ [_])).2, _
    rw [hstate]
    exact h.own
  · exact h.judged.concat (fun ctx heq => by cases heq)

/-- **A call.** Its outcome is taken in and its result is appended; its record is read back. -/
theorem settled (h : ReadBack start reply s) {call : ToolCall} (hcall : call ∈ reply)
    (spec : Option ToolSpec) (ran : Bool) (outcome : ToolOutcome) (t : TaintState) :
    ReadBack start reply (({ s with taint := t }.act (.settled call spec ran outcome)).push
      (.toolResult call.id outcome.toContent)) := by
  have hstate : attemptState (s.log ++ [(.settled call spec ran outcome, t)]) =
      (reply, processed s.log ++ [⟨reply, call, outcome⟩]) := by
    rw [attemptState_concat, ← h.asked]
    rfl
  obtain ⟨last, hlast⟩ := lastOf_of_mem hcall
  have hlookup : (readFrom start s.history).1.lookup call.id = some (last.name, last.arguments) := by
    rw [h.known call hcall, hlast]
    rfl
  have hread : readFrom start (s.history ++ [.toolResult call.id outcome.toContent]) =
      ((readFrom start s.history).1, (readFrom start s.history).2 ++
        [Processed.readBack ⟨reply, call, outcome⟩]) := by
    rw [readFrom_concat h.begun]
    show recordStep ((readFrom start s.history).1, _) _ = _
    rw [recordStep_toolResult hlookup]
    unfold Processed.readBack
    rw [hlast]
    rfl
  refine ⟨?_, ?_, ?_, ?_, ?_, ?_⟩
  · show start ≤ (s.history ++ [_]).length
    rw [List.length_append]
    exact Nat.le_add_right_of_le h.begun
  · show (attemptState (s.log ++ [_])).1 = _
    rw [hstate]
  · show (readFrom start (s.history ++ [_])).2 = (attemptState (s.log ++ [_])).2.map _
    rw [hread, hstate, List.map_append, ← h.records]
    rfl
  · intro c hc
    show (readFrom start (s.history ++ [_])).1.lookup c.id = _
    rw [hread]
    exact h.known c hc
  · show ∀ p ∈ (attemptState (s.log ++ [_])).2, _
    rw [hstate]
    intro p hp
    rcases List.mem_append.mp hp with hp | hp
    · exact h.own p hp
    · rw [List.mem_singleton.mp hp]
      exact hcall
  · exact h.judged.concat (fun ctx heq => by cases heq)

/-- **An attempt begins.** Nothing of it is in the transcript yet. -/
theorem begin (hjudged : JudgedOnReadBack s.log) (step : String) (n : ℕ) :
    ReadBack s.history.length [] (s.act (.attempt step n)) := by
  have hstate : attemptState (s.log ++ [(.attempt step n, s.taint)]) = ([], []) := by
    rw [attemptState_concat]
    rfl
  have hread : readFrom s.history.length s.history = ([], []) := by
    unfold readFrom
    rw [List.drop_length]
    rfl
  refine ⟨le_rfl, ?_, ?_, ?_, ?_, ?_⟩
  · show (attemptState (s.log ++ [_])).1 = _
    rw [hstate]
  · show (readFrom s.history.length s.history).2 = (attemptState (s.log ++ [_])).2.map _
    rw [hread, hstate]
    rfl
  · intro c hc
    cases hc
  · show ∀ p ∈ (attemptState (s.log ++ [_])).2, _
    rw [hstate]
    intro p hp
    cases hp
  · exact hjudged.concat (fun ctx heq => by cases heq)

end ReadBack

/-! ## A turn -/

section

variable {env : Env} {turn : Turn} {start : ℕ} {reply : List ToolCall} {s : Session}

theorem hicReasonOf_readBack (h : ReadBack start reply s) (spec : Option ToolSpec)
    (refusal declined : Option String) : ReadBack start reply (hicReasonOf env spec refusal declined s).2 := by
  unfold hicReasonOf
  split
  · split
    · exact h.access env
    · exact h
  · exact h

theorem refusedHicOf_readBack (h : ReadBack start reply s) (spec : Option ToolSpec) (hicReason : Option String) :
    ReadBack start reply (refusedHicOf turn spec hicReason s).2 := by
  unfold refusedHicOf
  split
  · exact h.act rfl
  · exact h

theorem decideCall_readBack (h : ReadBack start reply s) (i : ℕ) (call : ToolCall) :
    ReadBack start reply (decideCall env turn i call s).2 := by
  unfold decideCall
  exact refusedHicOf_readBack (hicReasonOf_readBack h _ _ _) _ _

theorem announce_readBack (h : ReadBack start reply s) (step : ℕ) (call : ToolCall) (d : Decision) :
    ReadBack start reply (announce step call d s) := by
  unfold announce
  split
  · apply ReadBack.emit
    exact h.act rfl
  · exact h.emit _

theorem runCall_readBack (h : ReadBack start reply s) (call : ToolCall) (d : Decision) :
    ReadBack start reply (runCall env call d s).2 := by
  unfold runCall
  split
  · rename_i k host _
    split
    · rename_i reason _
      show ReadBack start reply (s.act (.executeWithExplicitApproval k call reason))
      exact h.act rfl
    · show ReadBack start reply (s.act (.execute k call d.spec))
      exact h.act rfl
  · exact h
  · split
    · exact h
    · split
      · exact h.access env
      · exact h

theorem settle_readBack (h : ReadBack start reply s) (step : ℕ) {call : ToolCall} (hcall : call ∈ reply)
    (spec : Option ToolSpec) (ran : Bool) (outcome : ToolOutcome) :
    ReadBack start reply (settle env step call spec ran outcome s) := by
  have hreported := h.emit (.toolResult step call.id outcome.status outcome.toContent)
  unfold settle
  simp only
  split
  · have haccess := hreported.access env
    generalize (s.emit (.toolResult step call.id outcome.status outcome.toContent)).access env = s' at haccess
    unfold Session.ingest
    generalize call.name ++ " returned untrusted content" = reason
    have hsettled := haccess.settled hcall spec true outcome (s'.taint.taint call.name reason).2
    simp only
    split
    · -- The event between the outcome and the result is not read.
      exact hsettled.emit (.tainted step call.name reason)
    · exact hsettled
  · exact hreported.settled hcall spec ran outcome _

theorem processCall_readBack (h : ReadBack start reply s) (step i : ℕ) {call : ToolCall} (hcall : call ∈ reply) :
    ReadBack start reply (processCall env turn step i call s) := by
  unfold processCall
  simp only
  apply settle_readBack _ step hcall
  apply runCall_readBack
  apply announce_readBack
  apply decideCall_readBack
  exact h.act rfl

variable (env turn)

theorem processCalls_readBack (h : ReadBack start reply s) (step i : ℕ) {calls : List ToolCall}
    (hcalls : ∀ c ∈ calls, c ∈ reply) : ReadBack start reply (processCalls env turn step i calls s).2 := by
  induction calls generalizing i s with
  | nil => exact h
  | cons call calls ih =>
      unfold processCalls
      split
      · exact h
      · apply ih (processCall_readBack h step i (hcalls call (List.mem_cons_self ..)))
        intro c hc
        exact hcalls c (List.mem_cons_of_mem _ hc)

theorem report_readBack (h : ReadBack start reply s) (step : ℕ) (streamed : Streamed) :
    ReadBack start reply (report step streamed s) := by
  have hdeltas := h.emitAll (coalesce step "" streamed.deltas)
  unfold report
  simp only
  split
  · exact hdeltas.emit _
  · exact hdeltas

/-- The last reply is whichever the step ended with. -/
theorem runStep_readBack (h : ReadBack start reply s) (systemPrompt : String) (step : ℕ) :
    ∃ reply', ReadBack start reply' (runStep env turn systemPrompt step s).2 := by
  unfold runStep
  split
  · exact ⟨reply, h⟩
  · have hstarted := h.emit (.stepStart step)
    simp only
    split
    · exact ⟨reply, hstarted.emit _⟩
    · rename_i req _
      have hreported := report_readBack (hstarted.act (a := .complete req) rfl) step
        (turn.llm (s.emit (.stepStart step)).log req)
      split
      · exact ⟨reply, hreported.emit _⟩
      · rename_i answer usage _
        have hreplied := hreported.replied answer
        split
        · exact ⟨_, hreplied.emit _⟩
        · have hcalls := processCalls_readBack env turn hreplied step 0 (fun c hc => hc)
          split
          · rename_i heq
            rw [heq] at hcalls
            exact ⟨_, hcalls⟩
          · rename_i heq
            rw [heq] at hcalls
            exact ⟨_, hcalls.emit _⟩

theorem runSteps_readBack (systemPrompt : String) (left step : ℕ) (h : ReadBack start reply s) :
    ∃ reply', ReadBack start reply' (runSteps env turn systemPrompt left step s).2 := by
  induction left generalizing step reply s with
  | zero => exact ⟨reply, h.emit _⟩
  | succ left ih =>
      obtain ⟨reply', hstep⟩ := runStep_readBack env turn h systemPrompt step
      unfold runSteps
      split
      · rename_i heq
        rw [heq] at hstep
        exact ⟨reply', hstep⟩
      · rename_i heq
        rw [heq] at hstep
        exact ih _ hstep

theorem runTurnWith_readBack (h : ReadBack start reply s) :
    ∃ reply', ReadBack start reply' (runTurnWith env turn s).2 := by
  unfold runTurnWith
  obtain ⟨reply', hsteps⟩ := runSteps_readBack env turn (turnSystemPrompt turn s)
    turn.cfg.maxSteps 1 (h.push (m := .user turn.user) rfl (fun hrole => by cases hrole))
  exact ⟨reply', hsteps.emit _⟩

/-! ## A workflow -/

variable (reviewer : Option SelfReviewer)

theorem askReviewer_readBack (h : ReadBack start reply s) (st : Step) (attempt : ℕ) (answer : String) :
    ReadBack start reply (askReviewer turn reviewer st attempt answer s) := by
  unfold askReviewer
  split
  · exact h
  · split
    · exact h
    · apply ReadBack.emit
      exact h.act rfl

theorem judgeAll_readBack (st : Step) (ctx : VerifyContext) (vs : List Verifier) (feedback : List String)
    (h : ReadBack start reply s) (htools : ctx.tools = (readFrom start s.history).2) :
    ReadBack start reply (judgeAll st ctx vs feedback s).2 := by
  induction vs generalizing feedback s with
  | nil => exact h
  | cons v vs ih =>
      unfold judgeAll judge
      exact ih _ ((h.verify htools).emit _) htools

theorem runAttempt_judged (h : JudgedOnReadBack s.log) (st : Step) (attempt : ℕ) (feedback : List String) :
    JudgedOnReadBack (runAttempt env turn reviewer st attempt feedback s).2.log := by
  obtain ⟨reply, hturn⟩ := runTurnWith_readBack env { turn with user := st.prompt feedback }
    (ReadBack.begin h st.id attempt)
  unfold runAttempt
  simp only
  split
  · rename_i heq
    rw [heq] at hturn
    exact hturn.judged
  · rename_i heq
    rw [heq] at hturn
    exact hturn.judged
  · rename_i heq
    rw [heq] at hturn
    exact hturn.judged
  · rename_i answer s' heq
    rw [heq] at hturn
    have hasked := askReviewer_readBack turn reviewer hturn st attempt answer
    generalize askReviewer turn reviewer st attempt answer s' = s'' at hasked ⊢
    have hjudged := judgeAll_readBack st ⟨st.id, answer, recordsSince (s''.history.drop s.history.length)⟩ st.verifiers
      [] hasked rfl
    split
    · rename_i heq'
      rw [heq'] at hjudged
      exact hjudged.judged
    · rename_i heq'
      rw [heq'] at hjudged
      exact hjudged.judged

theorem runAttempts_judged (st : Step) (left attempt : ℕ) (feedback : List String)
    (h : JudgedOnReadBack s.log) : JudgedOnReadBack (runAttempts env turn reviewer st left attempt feedback s).2.log := by
  induction left generalizing attempt feedback s with
  | zero => exact h
  | succ left ih =>
      have hattempt := runAttempt_judged env turn reviewer h st attempt feedback
      unfold runAttempts
      split
      · exact h
      · split
        · rename_i heq
          rw [heq] at hattempt
          exact ih _ _ hattempt
        · exact hattempt

theorem runWorkflowSteps_judged (steps : List Step) (answers : List String) (h : JudgedOnReadBack s.log) :
    JudgedOnReadBack (runWorkflowSteps env turn reviewer steps answers s).2.log := by
  induction steps generalizing answers s with
  | nil => exact h
  | cons st steps ih =>
      have hattempts := runAttempts_judged env turn reviewer st st.maxAttempts 1 [] h
      unfold runWorkflowSteps
      split
      · rename_i heq
        rw [heq] at hattempts
        exact hattempts
      · rename_i heq
        rw [heq] at hattempts
        exact hattempts
      · rename_i heq
        rw [heq] at hattempts
        exact ih _ hattempts

end

/-! ## The result -/

/-- **What the verifiers see.** In every run of a workflow, the records a verifier is given are the calls processed in
    its attempt exactly when each of them is recoverable; then a tool that is seen to have succeeded has. -/
theorem verifiers_see_what_happened (env : Env) (turn : Turn) (reviewer : Option SelfReviewer) (wf : Workflow)
    (history : List Message) (taint : TaintState) :
    ∀ before ctx t after,
      (runWorkflowReviewed env turn reviewer wf { history, taint, log := [] }).2.log =
        before ++ (.verify ctx, t) :: after →
      (ctx.tools = (processed before).map Processed.record ↔ ∀ p ∈ processed before, p.Recoverable) ∧
        ((∀ p ∈ processed before, p.Recoverable) → ∀ tool log, (toolSucceeded tool).verify log ctx = .pass →
          ∃ p ∈ processed before, p.call.name = tool ∧ p.outcome.status = "ok") := by
  intro before ctx t after hlog
  have hjudged : JudgedOnReadBack (runWorkflowReviewed env turn reviewer wf { history, taint, log := [] }).2.log := by
    apply runWorkflowSteps_judged
    apply JudgedOnReadBack.concat
    · intro before' ctx' t' after' heq
      have hlength := congrArg List.length heq
      rw [List.length_append] at hlength
      cases hlength
    · intro ctx' heq
      cases heq
  obtain ⟨htools, hown⟩ := hjudged before ctx t after hlog
  have hiff : ctx.tools = (processed before).map Processed.record ↔ ∀ p ∈ processed before, p.Recoverable := by
    rw [htools, List.map_inj_left]
    exact forall₂_congr fun p hp => Processed.readBack_eq_record (hown p hp)
  refine ⟨hiff, ?_⟩
  intro hrecoverable tool log hpass
  have hany : (ctx.tools.any fun r => r.name == tool && r.status == "ok") = true := by
    unfold toolSucceeded at hpass
    simp only at hpass
    by_contra hnone
    rw [if_neg hnone] at hpass
    split at hpass
    · cases hpass
    · cases hpass
  rw [hiff.mpr hrecoverable, List.any_map, List.any_eq_true] at hany
  obtain ⟨p, hp, hok⟩ := hany
  obtain ⟨hname, hstatus⟩ := Bool.and_eq_true_iff.mp hok
  exact ⟨p, hp, eq_of_beq hname, eq_of_beq hstatus⟩

/-! ## A model that repeats an id -/

namespace RepeatedId

def tool (name : String) : ToolSpec where
  name := name
  description := ""
  host := .core
  annotations := { effect := some .none, trust := some .trusted }

def host : ToolHost where
  execute _ _ := .ok "done"
  honorsExplicitApproval _ := false
  executeWithExplicitApproval _ _ _ := .ok "done"

/-- One reply with two calls of the same id: a refused deploy, and a listing. -/
def reply : AssistantTurn where
  content := ""
  toolCalls := [⟨"1", "list", ""⟩, ⟨"1", "deploy", ""⟩]

def turn : Turn where
  cfg := { model := "", systemPrompt := "", maxSteps := 2, maxToolCallsPerStep := 2, maxTokens := 1 }
  opts :=
    { maxToolsPerRequest := none, budget := none, pinnedTools := [], turnContext := [], selector := none,
      maxToolsTotal := none }
  llm log _ :=
    { deltas := []
      reply := .ok (if log.any fun x => x.1 = .replied reply then ⟨"deployed", []⟩ else reply, none) }
  tools :=
    { specs := [tool "list", tool "deploy"], host := fun _ => some host
      policies := [fun _ call => if call.name = "deploy" then some "not now" else none] }
  stop _ := false
  user := ""

def env : Env where
  clears _ := false
  parsesJson _ := true
  toolsJson _ := ""
  toLowercase text := text

def workflow : Workflow where
  id := "deploy"
  steps := [{ id := "deploy", instruction := "deploy", verifiers := [toolSucceeded "deploy"], maxAttempts := 1 }]

def log : Log := (runWorkflowReviewed env turn none workflow { history := [], taint := .clean, log := [] }).2.log

def ctx : VerifyContext where
  step := "deploy"
  answer := "deployed"
  tools := [⟨"deploy", "", "done", "ok"⟩, ⟨"deploy", "", "declined: not now. Nothing was done.", "denied"⟩]

/-- The deploy is seen to have succeeded, and it was refused. -/
theorem refused_deploy_seen_to_succeed :
    ∃ before after, log = before ++ (.verify ctx, .clean) :: after ∧
      ctx.tools ≠ (processed before).map Processed.record ∧
      (toolSucceeded "deploy").verify before ctx = .pass ∧
      ∀ p ∈ processed before, p.call.name = "deploy" → p.outcome.status ≠ "ok" := by
  refine ⟨log.take 21, log.drop 22, ?_, ?_, ?_, ?_⟩
  · decide
  · decide
  · decide
  · decide

/-- Not every call of that attempt is recoverable. -/
theorem refused_deploy_not_recoverable : ¬ ∀ p ∈ processed (log.take 21), p.Recoverable := by
  have hlog : log = log.take 21 ++ (.verify ctx, .clean) :: log.drop 22 := by
    decide
  have hread := verifiers_see_what_happened env turn none workflow [] .clean _ _ _ _ hlog
  rw [← hread.1]
  decide

end RepeatedId

end AgentRuntime.Loop
