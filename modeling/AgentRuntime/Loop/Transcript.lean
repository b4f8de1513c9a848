import AgentRuntime.Loop.Dispatch
import AgentRuntime.Lib.Acceptor

/-!
# `Loop.Transcript` — well-formed histories

A history is read from the left; the state is the calls of the last assistant message that are still to be answered.
`unansweredIn` reads the same off what the loop told, so the two go together through a turn (`Kept`): a turn leaves the
history well-formed unless it ends between the calls of a reply. Every request is well-formed, a compacted one too.
-/

namespace AgentRuntime.Loop

/-! ## Reading a history -/

/-- The state is the calls still to be answered, in order. -/
def transcript : Acceptor (List ToolCall) Message where
  admits
    | call :: _, m => m.role = .tool ∧ m.toolCallId = some call.id
    | [], m => m.role ≠ .tool
  after
    | _ :: calls, _ => calls
    | [], m => if m.role = .assistant then m.toolCalls else []

/-- Every call of every assistant message is answered before any other message, in order and under its id, and there
    are no other tool messages. -/
structure WellFormed (history : List Message) : Prop where
  accepts : transcript.Accepts [] history
  answered : transcript.afterAll [] history = []

theorem wellFormed_nil : WellFormed [] := ⟨trivial, rfl⟩

/-- A message that is no result and makes no calls. -/
theorem WellFormed.plain {m : Message} {history : List Message} (h : WellFormed history) (hrole : m.role ≠ .tool)
    (hcalls : m.role = .assistant → m.toolCalls = []) : WellFormed (m :: history) := by
  have hafter : transcript.after [] m = [] := by
    show (if m.role = .assistant then m.toolCalls else []) = []
    split
    · rename_i hassistant
      exact hcalls hassistant
    · rfl
  refine ⟨⟨hrole, ?_⟩, ?_⟩
  · rw [hafter]
    exact h.accepts
  · rw [Acceptor.afterAll_cons, hafter]
    exact h.answered

/-- The user speaks next. -/
theorem WellFormed.concat_user {history : List Message} (h : WellFormed history) (text : String) :
    WellFormed (history ++ [.user text]) := by
  refine ⟨?_, ?_⟩
  · rw [Acceptor.accepts_concat, h.answered]
    exact ⟨h.accepts, by rintro ⟨⟩⟩
  · rw [Acceptor.afterAll_concat, h.answered]
    rfl

/-- A tool message that answers a call. -/
def Answers (call : ToolCall) (m : Message) : Prop := m.role = .tool ∧ m.toolCallId = some call.id

/-- The messages that answer the calls to go come first. -/
theorem answers_first {calls : List ToolCall} {history : List Message} (h : transcript.Accepts calls history)
    (hend : transcript.afterAll calls history = []) :
    ∃ results rest, history = results ++ rest ∧ List.Forall₂ Answers calls results ∧ WellFormed rest := by
  induction calls generalizing history with
  | nil => exact ⟨[], history, rfl, .nil, h, hend⟩
  | cons call calls ih =>
      cases history with
      | nil => cases hend
      | cons m history =>
          obtain ⟨hadmits, h⟩ := h
          obtain ⟨results, rest, rfl, hresults, hrest⟩ := ih h hend
          exact ⟨m :: results, rest, rfl, .cons hadmits hresults, hrest⟩

/-- **What well-formed says.** Behind an assistant message there is one tool message per call, in order, each with its
    call's id, and then a well-formed history again. -/
theorem WellFormed.batch {before after : List Message} {m : Message} (h : WellFormed (before ++ m :: after))
    (hrole : m.role = .assistant) :
    ∃ results rest, after = results ++ rest ∧ List.Forall₂ Answers m.toolCalls results ∧ WellFormed rest := by
  have haccepts := h.accepts
  have hend := h.answered
  rw [Acceptor.accepts_append] at haccepts
  rw [Acceptor.afterAll_append] at hend
  obtain ⟨-, hadmits, hafter⟩ := haccepts
  rw [Acceptor.afterAll_cons] at hend
  cases hstate : transcript.afterAll [] before with
  | cons call calls =>
      rw [hstate] at hadmits
      have htool : m.role = .tool := hadmits.1
      rw [hrole] at htool
      cases htool
  | nil =>
      have hcalls : transcript.after [] m = m.toolCalls := if_pos hrole
      rw [hstate, hcalls] at hafter hend
      exact answers_first hafter hend

/-! ## Compaction -/

/-- What a history is read for: the texts do not matter. -/
def Message.shape (m : Message) : Message := { m with content := "" }

theorem accepts_shape (calls : List ToolCall) (history : List Message) :
    (transcript.Accepts calls (history.map Message.shape) ↔ transcript.Accepts calls history) ∧
      transcript.afterAll calls (history.map Message.shape) = transcript.afterAll calls history := by
  induction history generalizing calls with
  | nil => exact ⟨Iff.rfl, rfl⟩
  | cons m history ih =>
      have hadmits : transcript.admits calls m.shape ↔ transcript.admits calls m := by
        cases calls <;> exact Iff.rfl
      have hafter : transcript.after calls m.shape = transcript.after calls m := by
        cases calls <;> rfl
      obtain ⟨haccepts, hend⟩ := ih (transcript.after calls m)
      rw [List.map_cons, Acceptor.accepts_cons, Acceptor.accepts_cons, Acceptor.afterAll_cons, Acceptor.afterAll_cons,
        hadmits, hafter, haccepts, hend]
      exact ⟨Iff.rfl, rfl⟩

theorem WellFormed.of_shape {history history' : List Message} (h : WellFormed history)
    (hshape : history'.map Message.shape = history.map Message.shape) : WellFormed history' := by
  obtain ⟨haccepts, hend⟩ := accepts_shape [] history
  obtain ⟨haccepts', hend'⟩ := accepts_shape [] history'
  rw [hshape] at haccepts' hend'
  exact ⟨haccepts'.mp (haccepts.mpr h.accepts), hend'.symm.trans (hend.trans h.answered)⟩

theorem elide_shape (fits : List Message → Bool) (indices : List ℕ) (out : List Message) :
    (elide fits indices out).map Message.shape = out.map Message.shape := by
  induction indices generalizing out with
  | nil => rfl
  | cons i indices ih =>
      unfold elide
      split
      · exact ih out
      · rename_i m hm
        split
        · have hset : ∀ content, (out.set i { m with content }).map Message.shape = out.map Message.shape := by
            intro content
            obtain ⟨hi, rfl⟩ := List.getElem?_eq_some_iff.mp hm
            have hi' : i < (out.map Message.shape).length := by
              rw [List.length_map]
              exact hi
            have hsame : Message.shape { out[i] with content } = (out.map Message.shape)[i] := by
              rw [List.getElem_map]
              rfl
            rw [List.map_set, hsame, List.set_getElem_self]
          simp only
          split
          · exact hset _
          · exact (ih _).trans (hset _)
        · exact ih out

/-- Below the last user message the results of a dropped message are dropped, and nothing else. -/
theorem dropResults_wellFormed {calls : List ToolCall} {history : List Message}
    (h : transcript.Accepts calls history) (hend : transcript.afterAll calls history = [])
    (huser : ∃ m ∈ history, m.role = .user) : WellFormed (dropResults history) := by
  induction history using dropResults.induct generalizing calls with
  | case1 m m' history htool ih =>
      rw [dropResults, if_pos htool]
      obtain ⟨-, h⟩ := h
      apply ih h hend
      obtain ⟨u, hu, hrole⟩ := huser
      rcases List.mem_cons.mp hu with rfl | hu
      · rw [htool] at hrole
        cases hrole
      · exact ⟨u, hu, hrole⟩
  | case2 m m' history htool =>
      rw [dropResults, if_neg htool]
      cases calls with
      | nil => exact ⟨h, hend⟩
      | cons call calls => exact absurd h.1.1 htool
  | case3 history hshort =>
      -- At most one message is left, and it is the user's.
      obtain ⟨u, hu, hrole⟩ := huser
      cases history with
      | nil => cases hu
      | cons m history =>
          cases history with
          | cons m' history => exact absurd rfl (hshort _ _ _)
          | nil =>
              rw [List.mem_singleton] at hu
              subst hu
              cases calls with
              | nil => exact ⟨h, hend⟩
              | cons call calls =>
                  have htool : u.role = .tool := h.1.1
                  rw [hrole] at htool
                  cases htool

theorem lastUser_mem {first m : Message} {rest : List Message}
    (h : 1 < (lastUser (first :: m :: rest)).getD 0) : ∃ u ∈ rest, u.role = .user := by
  unfold lastUser at h
  cases hfind : (first :: m :: rest).reverse.findIdx? fun m => decide (m.role = .user) with
  | none =>
      rw [hfind] at h
      cases h
  | some i =>
      rw [hfind] at h
      obtain ⟨hi, hrole, -⟩ := List.findIdx?_eq_some_iff_getElem.mp hfind
      have hlt : i < rest.reverse.length := by
        simp only [Option.map_some, Option.getD_some, List.length_cons] at h
        rw [List.length_reverse]
        omega
      have hget : (first :: m :: rest).reverse[i] = rest.reverse[i] := by
        simp only [List.reverse_cons, List.append_assoc]
        exact List.getElem_append_left hlt
      refine ⟨rest.reverse[i], List.mem_reverse.mp (List.getElem_mem hlt), ?_⟩
      rw [hget] at hrole
      exact of_decide_eq_true hrole

/-- A message list behind a system prompt. -/
def Prompted (messages : List Message) : Prop :=
  ∃ text history, messages = Message.system text :: history ∧ WellFormed history

theorem Prompted.wellFormed {messages : List Message} (h : Prompted messages) : WellFormed messages := by
  obtain ⟨text, history, rfl, hhistory⟩ := h
  exact hhistory.plain (by rintro ⟨⟩) (by rintro ⟨⟩)

theorem elide_prompted (fits : List Message → Bool) (indices : List ℕ) {out : List Message} (h : Prompted out) :
    Prompted (elide fits indices out) := by
  have hshape := elide_shape fits indices out
  obtain ⟨text, history, rfl, hhistory⟩ := h
  cases helided : elide fits indices (Message.system text :: history) with
  | nil =>
      rw [helided] at hshape
      cases hshape
  | cons m history' =>
      rw [helided] at hshape
      obtain ⟨hm, hrest⟩ := List.cons.inj hshape
      refine ⟨m.content, history', ?_, hhistory.of_shape hrest⟩
      obtain ⟨role, content, toolCalls, toolCallId⟩ := m
      cases hm
      rfl

theorem shrink_prompted (fits : List Message → Bool) {out : List Message} (h : Prompted out) :
    Prompted (shrink fits out) := by
  induction out using shrink.induct fits with
  | case1 out hfits =>
      rw [shrink, if_pos hfits]
      exact h
  | case2 out hfits hshort =>
      rw [shrink, if_neg hfits, dif_pos hshort]
      exact h
  | case3 out hfits hlong ih =>
      rw [shrink, if_neg hfits, dif_neg hlong]
      apply ih
      obtain ⟨huser, hlength⟩ := not_or.mp hlong
      obtain ⟨text, history, rfl, hhistory⟩ := h
      cases history with
      | nil => exact absurd (Nat.le_succ 1) hlength
      | cons m rest =>
          obtain ⟨hadmits, haccepts⟩ := hhistory.accepts
          exact ⟨text, dropResults rest, rfl,
            dropResults_wellFormed haccepts hhistory.answered (lastUser_mem (not_le.mp huser))⟩

theorem compactToBudget_prompted {messages out : List Message} {budget : ContextBudget} {counter : TokenCounter}
    (h : Prompted messages) (hout : compactToBudget messages budget counter = .ok out) : Prompted out := by
  unfold compactToBudget at hout
  simp only at hout
  split at hout
  · cases hout
    exact h
  · split at hout
    · cases hout
    · cases hout
      apply shrink_prompted
      exact elide_prompted _ _ h

theorem compactToBudget_wellFormed {messages out : List Message} {budget : ContextBudget} {counter : TokenCounter}
    (h : Prompted messages) (hout : compactToBudget messages budget counter = .ok out) : WellFormed out :=
  (compactToBudget_prompted h hout).wellFormed

/-! ## Through a turn -/

/-- The calls of the last reply that no result was reported for. -/
def unansweredIn (items : List Item) : List ToolCall :=
  items.foldl
    (fun calls item =>
      match item with
      | .replied reply => reply.toolCalls
      | .result _ => calls.tail
      | _ => calls) []

theorem unansweredIn_told (items : List Item) (call : ToolCall) (host : Option HostKind) :
    unansweredIn (items ++ told call host) = (unansweredIn items).tail := by
  unfold unansweredIn
  rw [List.foldl_append]
  cases host <;> rfl

section

variable (env : Env) (turn : Turn)

/-- The turn came from `s₀` to `s`: the calls its history leaves unanswered are those no result was told for, and every
    request it told was well-formed. -/
def Kept (s₀ s : Session) : Prop :=
  ∃ items, Goes turn s₀ s items ∧ transcript.Accepts [] s.history ∧
    transcript.afterAll [] s.history = unansweredIn items ∧ (∀ req, .asked req ∈ items → WellFormed req.messages) ∧
    ∀ label, .done label ∉ items

/-- Nothing is left unanswered. -/
def Settled (s₀ s : Session) : Prop := Kept turn s₀ s ∧ WellFormed s.history

variable {env turn} {s₀ s s' : Session}

theorem Kept.of_history (h : Kept turn s₀ s) (hgoes : Goes turn s s' []) (hhistory : s'.history = s.history) :
    Kept turn s₀ s' := by
  obtain ⟨items, hall, haccepts, hunanswered, hasked, hdone⟩ := h
  refine ⟨items, ?_, ?_, ?_, hasked, hdone⟩
  · simpa using hall.trans hgoes
  · rw [hhistory]
    exact haccepts
  · rw [hhistory]
    exact hunanswered

theorem Settled.of_history (h : Settled turn s₀ s) (hgoes : Goes turn s s' []) (hhistory : s'.history = s.history) :
    Settled turn s₀ s' := by
  refine ⟨h.1.of_history hgoes hhistory, ?_⟩
  rw [hhistory]
  exact h.2

variable (env turn)

theorem report_history (step : ℕ) (streamed : Streamed) (s : Session) : (report step streamed s).history = s.history := by
  have hemitted : ∀ (es : List Event) (s : Session), (s.emitAll es).history = s.history := by
    intro es
    induction es with
    | nil => exact fun _ => rfl
    | cons e es ih => exact fun s => ih (s.emit e)
  unfold report
  simp only
  split
  · exact hemitted _ _
  · exact hemitted _ _

@[simp] theorem access_history (s : Session) : (s.access env).history = s.history := by
  unfold Session.access
  split
  · rfl
  · rfl

@[simp] theorem decideCall_history (i : ℕ) (call : ToolCall) (s : Session) :
    (decideCall env turn i call s).2.history = s.history := by
  have hreason : ∀ spec refusal declined, (hicReasonOf env spec refusal declined s).2.history = s.history := by
    intro spec refusal declined
    unfold hicReasonOf
    split
    · split
      · exact access_history env s
      · rfl
    · rfl
  have hasked : ∀ spec reason (s : Session), (refusedHicOf turn spec reason s).2.history = s.history := by
    intro spec reason s
    unfold refusedHicOf
    split
    · rfl
    · rfl
  unfold decideCall
  exact (hasked _ _ _).trans (hreason _ _ _)

@[simp] theorem announce_history (step : ℕ) (call : ToolCall) (d : Decision) (s : Session) :
    (announce step call d s).history = s.history := by
  unfold announce
  split
  · rfl
  · rfl

@[simp] theorem runCall_history (call : ToolCall) (d : Decision) (s : Session) :
    (runCall env call d s).2.history = s.history := by
  unfold runCall
  split
  · split
    · rfl
    · rfl
  · rfl
  · split
    · rfl
    · split
      · exact access_history env s
      · rfl

theorem settle_history (step : ℕ) (call : ToolCall) (spec : Option ToolSpec) (ran : Bool) (outcome : ToolOutcome)
    (s : Session) :
    (settle env step call spec ran outcome s).history = s.history ++ [.toolResult call.id outcome.toContent] := by
  have hingest : ∀ s : Session, (s.ingest step call spec outcome).history = s.history := by
    intro s
    unfold Session.ingest
    simp only
    split
    · rfl
    · rfl
  unfold settle
  simp only
  split
  · show (((s.emit _).access env).ingest step call spec outcome).history ++ _ = _
    rw [hingest, access_history]
    rfl
  · rfl

/-- A call adds its result to the history. -/
theorem processCall_history (step i : ℕ) (call : ToolCall) (s : Session) :
    ∃ content, (processCall env turn step i call s).history = s.history ++ [.toolResult call.id content] := by
  unfold processCall
  simp only
  rw [settle_history, runCall_history, announce_history, decideCall_history]
  exact ⟨_, rfl⟩

variable {turn}

theorem processCall_kept {call : ToolCall} {calls : List ToolCall} (h : Kept turn s₀ s)
    (hcalls : transcript.afterAll [] s.history = call :: calls) (hclear : turn.stop s.log = false) (step i : ℕ) :
    Kept turn s₀ (processCall env turn step i call s) ∧
      transcript.afterAll [] (processCall env turn step i call s).history = calls := by
  obtain ⟨items, hall, haccepts, hunanswered, hasked, hdone⟩ := h
  obtain ⟨content, hhistory⟩ := processCall_history env turn step i call s
  have hcall := processCall_goes env turn step i call hclear
  have hafter : transcript.afterAll [] (processCall env turn step i call s).history = calls := by
    rw [hhistory, Acceptor.afterAll_concat, hcalls]
    rfl
  refine ⟨⟨_, hall.trans hcall, ?_, ?_, ?_, ?_⟩, hafter⟩
  · rw [hhistory, Acceptor.accepts_concat, hcalls]
    exact ⟨haccepts, rfl, rfl⟩
  · rw [hafter, unansweredIn_told, ← hunanswered, hcalls]
    rfl
  · intro req hreq
    rcases List.mem_append.mp hreq with hreq | hreq
    · exact hasked req hreq
    · cases hhost : hostAnnounced env turn step i call s with
      | none => simp [told, hhost] at hreq
      | some k => simp [told, hhost] at hreq
  · intro label hlabel
    rcases List.mem_append.mp hlabel with hlabel | hlabel
    · exact hdone label hlabel
    · cases hhost : hostAnnounced env turn step i call s with
      | none => simp [told, hhost] at hlabel
      | some k => simp [told, hhost] at hlabel

/-- All calls are answered, unless the stop flag ends the turn before one of them. -/
theorem processCalls_kept {calls : List ToolCall} (h : Kept turn s₀ s)
    (hcalls : transcript.afterAll [] s.history = calls) (step i : ℕ) :
    Kept turn s₀ (processCalls env turn step i calls s).2 ∧
      ((processCalls env turn step i calls s).1 = some () →
        transcript.afterAll [] (processCalls env turn step i calls s).2.history = []) := by
  induction calls generalizing i s with
  | nil => exact ⟨h, fun _ => hcalls⟩
  | cons call calls ih =>
      unfold processCalls
      split
      · exact ⟨h, by rintro ⟨⟩⟩
      · rename_i hclear
        obtain ⟨hkept, hafter⟩ := processCall_kept env h hcalls (eq_false_of_ne_true hclear) step i
        exact ih hkept hafter (i + 1)

theorem requestOf_wellFormed {systemPrompt : String} {req : CompletionRequest} (h : WellFormed s.history)
    (hreq : requestOf env turn systemPrompt s = .ok req) : WellFormed req.messages := by
  have hprompted : Prompted (Message.system systemPrompt :: s.history) := ⟨systemPrompt, s.history, rfl, h⟩
  unfold requestOf at hreq
  simp only at hreq
  cases hbudget : turn.opts.budget with
  | none =>
      rw [hbudget] at hreq
      cases hreq
      exact hprompted.wellFormed
  | some limits =>
      rw [hbudget] at hreq
      simp only at hreq
      generalize hfitted : compactToBudget _ _ _ = fitted at hreq
      cases fitted with
      | error e => cases hreq
      | ok messages =>
          cases hreq
          exact compactToBudget_wellFormed hprompted hfitted

/-- An event of the turn that tells of no call. -/
theorem Settled.emit (h : Settled turn s₀ s) {e : Event} (hitem : (Action.event e).item = none)
    (hgoes : (Action.event e).inTurn = true) : Settled turn s₀ (s.emit e) := by
  have hemitted : Goes turn s (s.emit e) (Action.event e).item.toList := .act s hgoes
  rw [hitem] at hemitted
  exact h.of_history hemitted rfl

theorem Settled.asked (h : Settled turn s₀ s) {req : CompletionRequest} (hreq : WellFormed req.messages) :
    Settled turn s₀ (s.act (.complete req)) := by
  obtain ⟨⟨items, hall, haccepts, hunanswered, hasked, hdone⟩, hwell⟩ := h
  refine ⟨⟨items ++ [.asked req], hall.trans (.act s rfl), haccepts, ?_, ?_, ?_⟩, hwell⟩
  · unfold unansweredIn at hunanswered ⊢
    rw [List.foldl_append]
    exact hunanswered
  · intro req' hreq'
    rcases List.mem_append.mp hreq' with hreq' | hreq'
    · exact hasked req' hreq'
    · cases List.mem_singleton.mp hreq'
      exact hreq
  · intro label hlabel
    rcases List.mem_append.mp hlabel with hlabel | hlabel
    · exact hdone label hlabel
    · cases List.mem_singleton.mp hlabel

/-- A reply's calls are the ones to answer. -/
theorem Settled.replied (h : Settled turn s₀ s) (reply : AssistantTurn) :
    Kept turn s₀ ((s.act (.replied reply)).push (.assistant reply.content reply.toolCalls)) ∧
      transcript.afterAll [] ((s.act (.replied reply)).push (.assistant reply.content reply.toolCalls)).history =
        reply.toolCalls := by
  obtain ⟨⟨items, hall, haccepts, -, hasked, hdone⟩, hwell⟩ := h
  have hgoes : Goes turn s₀ (s.act (.replied reply)) (items ++ [.replied reply]) := hall.trans (.act s rfl)
  have hafter : transcript.afterAll [] (s.history ++ [.assistant reply.content reply.toolCalls]) = reply.toolCalls := by
    rw [Acceptor.afterAll_concat, hwell.answered]
    rfl
  have hpushed := hgoes.of_log
    (u := (s.act (.replied reply)).push (.assistant reply.content reply.toolCalls)) rfl
  refine ⟨⟨items ++ [.replied reply], hpushed, ?_, hafter.trans ?_, ?_, ?_⟩, hafter⟩
  · show transcript.Accepts [] (s.history ++ [_])
    rw [Acceptor.accepts_concat, hwell.answered]
    exact ⟨haccepts, by rintro ⟨⟩⟩
  · unfold unansweredIn
    rw [List.foldl_append]
    rfl
  · intro req hreq
    rcases List.mem_append.mp hreq with hreq | hreq
    · exact hasked req hreq
    · cases List.mem_singleton.mp hreq
  · intro label hlabel
    rcases List.mem_append.mp hlabel with hlabel | hlabel
    · exact hdone label hlabel
    · cases List.mem_singleton.mp hlabel

theorem Kept.wellFormed (h : Kept turn s₀ s) (hanswered : transcript.afterAll [] s.history = []) :
    WellFormed s.history := by
  obtain ⟨items, -, haccepts, -⟩ := h
  exact ⟨haccepts, hanswered⟩

/-- One step: nothing is left unanswered behind it, unless the stop flag ends the turn in it. -/
theorem runStep_kept (h : Settled turn s₀ s) (systemPrompt : String) (step : ℕ) :
    Kept turn s₀ (runStep env turn systemPrompt step s).2 ∧
      ((runStep env turn systemPrompt step s).1 ≠ .finished .stopped →
        WellFormed (runStep env turn systemPrompt step s).2.history) := by
  unfold runStep
  split
  · exact ⟨h.1, fun _ => h.2⟩
  · rename_i hclear
    have hstarted : Settled turn s₀ (s.emit (.stepStart step)) :=
      h.of_history (.goOn s (eq_false_of_ne_true hclear) rfl) rfl
    simp only
    split
    · rename_i e _
      have hfailed := hstarted.emit (e := .error e) rfl rfl
      exact ⟨hfailed.1, fun _ => hfailed.2⟩
    · rename_i req hreq
      have hasked := hstarted.asked (requestOf_wellFormed env hstarted.2 hreq)
      have hreported := hasked.of_history (report_goes turn step (turn.llm (s.emit (.stepStart step)).log req) _)
        (report_history step _ _)
      generalize report step (turn.llm (s.emit (.stepStart step)).log req)
        ((s.emit (.stepStart step)).act (.complete req)) = s₂ at hreported ⊢
      split
      · rename_i e _
        have hfailed := hreported.emit (e := .error e.toText) rfl rfl
        exact ⟨hfailed.1, fun _ => hfailed.2⟩
      · rename_i reply usage _
        obtain ⟨hreplied, hcalls⟩ := hreported.replied reply
        generalize (s₂.act (.replied reply)).push (.assistant reply.content reply.toolCalls) = s₃ at hreplied hcalls ⊢
        split
        · rename_i hnone
          have hanswered : Settled turn s₀ s₃ := ⟨hreplied, hreplied.wellFormed (hcalls.trans hnone)⟩
          have hfinal := hanswered.emit (e := .final reply.content) rfl rfl
          exact ⟨hfinal.1, fun _ => hfinal.2⟩
        · obtain ⟨hkept, hall⟩ := processCalls_kept env hreplied hcalls step 0
          split
          · rename_i heq
            rw [heq] at hkept
            exact ⟨hkept, fun h => absurd rfl h⟩
          · rename_i s₄ heq
            rw [heq] at hkept hall
            have hanswered : Settled turn s₀ s₄ := ⟨hkept, hkept.wellFormed (hall rfl)⟩
            have hended := hanswered.emit (e := .stepEnd step) rfl rfl
            exact ⟨hended.1, fun _ => hended.2⟩

theorem runSteps_kept (h : Settled turn s₀ s) (systemPrompt : String) (left step : ℕ) :
    Kept turn s₀ (runSteps env turn systemPrompt left step s).2 ∧
      ((runSteps env turn systemPrompt left step s).1 ≠ .stopped →
        WellFormed (runSteps env turn systemPrompt left step s).2.history) := by
  induction left generalizing step s with
  | zero =>
      have hlimit := h.emit (e := .error ("step budget of " ++ toString turn.cfg.maxSteps ++ " exhausted")) rfl rfl
      exact ⟨hlimit.1, fun _ => hlimit.2⟩
  | succ left ih =>
      obtain ⟨hkept, hwell⟩ := runStep_kept env h systemPrompt step
      unfold runSteps
      split
      · rename_i outcome s' heq
        rw [heq] at hkept hwell
        refine ⟨hkept, ?_⟩
        intro hstopped
        apply hwell
        rintro ⟨⟩
        exact hstopped rfl
      · rename_i s' heq
        rw [heq] at hkept hwell
        exact ih ⟨hkept, hwell (by rintro ⟨⟩)⟩ (step + 1)

end

/-! ## The result -/

/-- Right before `a` the stop flag was read, with a call of the reply to go. -/
def ReadBeforeCall (before : Log) (a : Action) : Prop :=
  (∃ step call spec, a = .takes step call spec) ∨
    (a = .event (.done RunOutcome.stopped.label) ∧ unansweredIn (itemsOf before) ≠ [])

/-- **Transcripts stay well-formed.** A turn leaves a well-formed history well-formed exactly when the stop flag is clear
    wherever it is read before a call of a reply; and every request of the turn is well-formed. -/
theorem transcript_wellFormed_iff (env : Env) (turn : Turn) (history : List Message) (taint : TaintState)
    (h : WellFormed history) :
    (WellFormed (runTurnWith env turn { history, taint, log := [] }).2.history ↔
      ∀ before a t after, (runTurnWith env turn { history, taint, log := [] }).2.log = before ++ (a, t) :: after →
        ReadBeforeCall before a → turn.stop before = false) ∧
      ∀ before req t after,
        (runTurnWith env turn { history, taint, log := [] }).2.log = before ++ (.complete req, t) :: after →
          WellFormed req.messages := by
  have hasked : Settled turn { history, taint, log := [] }
      (Session.push { history, taint, log := [] } (.user turn.user)) := by
    have hpushed : WellFormed (history ++ [.user turn.user]) := h.concat_user turn.user
    have hgoes : Goes turn { history, taint, log := [] }
        (Session.push { history, taint, log := [] } (.user turn.user)) [] := (Goes.refl _).of_log rfl
    exact ⟨⟨[], hgoes, hpushed.accepts, hpushed.answered, by simp, by simp⟩, hpushed⟩
  obtain ⟨⟨items, ⟨seg, hwrites, rfl, hclear, -⟩, haccepts, hunanswered, hrequests, hdone⟩, hwell⟩ :=
    runSteps_kept env hasked (turnSystemPrompt turn { history, taint, log := [] }) turn.cfg.maxSteps 1
  obtain ⟨-, -, -, -, hstopped⟩ :=
    runSteps_goes env turn (turnSystemPrompt turn { history, taint, log := [] }) turn.cfg.maxSteps 1
      (Session.push { history, taint, log := [] } (.user turn.user))
  have hrun : runTurnWith env turn { history, taint, log := [] } =
      finish (runSteps env turn (turnSystemPrompt turn { history, taint, log := [] }) turn.cfg.maxSteps 1
        (Session.push { history, taint, log := [] } (.user turn.user))).1
        (runSteps env turn (turnSystemPrompt turn { history, taint, log := [] }) turn.cfg.maxSteps 1
        (Session.push { history, taint, log := [] } (.user turn.user))).2 := rfl
  rw [hrun]
  generalize runSteps env turn (turnSystemPrompt turn { history, taint, log := [] }) turn.cfg.maxSteps 1
    (Session.push { history, taint, log := [] } (.user turn.user)) = run at *
  have hlog : run.2.log = seg := hwrites
  have hfinal : (finish run.1 run.2).2.log = seg ++ [(.event (.done run.1.label), run.2.taint)] := by
    rw [← hlog]
    rfl
  refine ⟨⟨?_, ?_⟩, ?_⟩
  · intro hanswered before a t after heq hread
    rw [hfinal] at heq
    rcases Log.split_concat heq with ⟨rfl, hdone, -⟩ | ⟨after', -, hinside⟩
    · cases hdone
      rcases hread with ⟨step, call, spec, htakes⟩ | ⟨-, hpending⟩
      · cases htakes
      · exact absurd (hunanswered.symm.trans hanswered.answered) hpending
    · rcases hread with ⟨step, call, spec, rfl⟩ | ⟨rfl, -⟩
      · have hflag := hclear before _ t after' hinside rfl
        simpa using hflag
      · refine absurd ?_ (hdone RunOutcome.stopped.label)
        rw [hinside]
        simp [itemsOf, Action.item]
  · intro hflags
    by_cases houtcome : run.1 = .stopped
    · -- The flag was set where the turn ended, so no call was to go there.
      refine ⟨haccepts, ?_⟩
      by_contra hpending
      have hread : ReadBeforeCall seg (.event (.done run.1.label)) := by
        right
        rw [houtcome]
        exact ⟨rfl, fun hnil => hpending (hunanswered.trans hnil)⟩
      have hflag := hflags seg _ _ [] hfinal hread
      have hset := hstopped houtcome
      rw [hlog, hflag] at hset
      cases hset
    · exact hwell houtcome
  · intro before req t after heq
    rw [hfinal] at heq
    apply hrequests
    rcases Log.split_concat heq with ⟨-, hdone, -⟩ | ⟨after', -, hinside⟩
    · cases hdone
    · rw [hinside]
      simp [itemsOf, Action.item]

/-! ## A turn stopped before a call -/

namespace StoppedTurn

def call : ToolCall where
  id := "1"
  name := "list"
  arguments := ""

/-- The member stops the turn when the model has replied. -/
def turn : Turn where
  cfg := { model := "", systemPrompt := "", maxSteps := 1, maxToolCallsPerStep := 1, maxTokens := 1 }
  opts :=
    { maxToolsPerRequest := none, budget := none, pinnedTools := [], turnContext := [], selector := none,
      maxToolsTotal := none }
  llm _ _ := { deltas := [], reply := .ok (⟨"", [call]⟩, none) }
  tools := { specs := [], host := fun _ => none, policies := [] }
  stop log := log.any fun x => x.1 = .replied ⟨"", [call]⟩
  user := "list"

def env : Env where
  clears _ := false
  parsesJson _ := true
  toolsJson _ := ""
  toLowercase text := text

theorem history_eq :
    (runTurnWith env turn { history := [], taint := .clean, log := [] }).2.history =
      [.user "list", .assistant "" [call]] := by
  decide

/-- The call is left unanswered. -/
theorem stopped_leaves_unanswered :
    (runTurnWith env turn { history := [], taint := .clean, log := [] }).1 = .stopped ∧
      ¬ WellFormed (runTurnWith env turn { history := [], taint := .clean, log := [] }).2.history := by
  refine ⟨by decide, ?_⟩
  rw [history_eq]
  rintro ⟨-, hanswered⟩
  cases hanswered

/-- The flag is seen set before that call. -/
theorem stopped_at_set_flag :
    ¬ ∀ before a t after,
      (runTurnWith env turn { history := [], taint := .clean, log := [] }).2.log = before ++ (a, t) :: after →
        ReadBeforeCall before a → turn.stop before = false := by
  rw [← (transcript_wellFormed_iff env turn [] .clean wellFormed_nil).1, history_eq]
  rintro ⟨-, hanswered⟩
  cases hanswered

end StoppedTurn

end AgentRuntime.Loop
