import AgentRuntime.Learn.Evidence
import AgentRuntime.Loop.Readback
import AgentRuntime.Loop.Dispatch

/-!
# `Learn.Attempts` — the attempts of a workflow run

`attemptsOf` splits the log of a run at the points where an attempt began. The runner itself keeps no such list; the
results here say what the attempts of a run are: each step is judged by all of its verifiers or by none, and a step is
left behind only by an attempt that every verifier passed on its own answer and records.
-/

namespace AgentRuntime.Learn

open Loop Words

/-! ## What the log tells of an attempt -/

structure Attempt where
  /-- The log up to where it began. -/
  begun : Log
  step : String
  n : ℕ
  /-- What was written in it. -/
  log : Log

def begins : Action → Bool
  | .attempt _ _ => true
  | _ => false

def finalOf : Action → Option String
  | .event (.final content) => some content
  | _ => none

def finals (log : Log) : List String := log.filterMap fun x => finalOf x.1

/-- The attempts begun in a log, behind `before`. -/
def attemptsFrom (before : Log) : Log → List Attempt
  | [] => []
  | (.attempt step n, t) :: rest =>
      { begun := before ++ [(.attempt step n, t)], step, n, log := rest.takeWhile fun x => !begins x.1 } ::
        attemptsFrom (before ++ [(.attempt step n, t)]) rest
  | x :: rest => attemptsFrom (before ++ [x]) rest

def attemptsOf (log : Log) : List Attempt := attemptsFrom [] log

namespace Attempt

variable (a : Attempt)

def verdicts : List VerifierVerdict := recorded a.log

/-- The answer of its turn. -/
def answer : Option String := (finals a.log).getLast?

/-- The records of its own calls. -/
def records : List ToolRecord := (processed (a.begun ++ a.log)).map Processed.readBack

def isJudged : Bool := !a.verdicts.isEmpty

/-- The verifier was asked about the attempt's own answer and records, and passed it. -/
def PassedBy (v : Verifier) : Prop :=
  ∃ answer before t after, a.answer = some answer ∧
    a.log = before ++ (.verify ⟨a.step, answer, a.records⟩, t) :: after ∧
    v.verify (a.begun ++ before) ⟨a.step, answer, a.records⟩ = .pass

end Attempt

/-- Its name does not depend on when it is asked for it. -/
def Stable (v : Verifier) : Prop := ∀ log log', v.name log = v.name log'

/-- The verdict of a verifier that passes an attempt of the step. -/
def passing (st : Step) (v : Verifier) : VerifierVerdict where
  step := st.id
  name := v.name []
  passed := true
  detail := ""

/-- An attempt of the step: its verifiers all judged it, or none did. -/
structure AttemptOf (st : Step) (a : Attempt) : Prop where
  step : a.step = st.id
  named : ∀ w ∈ a.verdicts, w.step = st.id
  whole : a.verdicts = [] ∨ a.verdicts.length = st.verifiers.length

/-- Every verifier of the step, in order, passed the attempt. -/
structure Passed (st : Step) (a : Attempt) : Prop where
  verdicts : a.verdicts = st.verifiers.map (passing st)
  judged : ∀ v ∈ st.verifiers, a.PassedBy v

/-- The attempts at a step of a run that goes on behind it. -/
structure StepRun (st : Step) (group : List Attempt) : Prop where
  each : ∀ a ∈ group, AttemptOf st a
  numbered : group.map Attempt.n = List.range' 1 group.length
  final : ∃ a, group.getLast? = some a ∧ Passed st a

/-! ## Splitting a log -/

/-- Nothing in it begins an attempt. -/
def Within (seg : Log) : Prop := ∀ x ∈ seg, begins x.1 = false

/-- It is empty, or an attempt begins it. -/
def Opens (seg : Log) : Prop := ∀ x ∈ seg.head?, begins x.1 = true

@[simp] theorem recorded_nil : recorded [] = [] := rfl

@[simp] theorem recorded_append (l m : Log) : recorded (l ++ m) = recorded l ++ recorded m := List.filterMap_append

theorem attemptsFrom_cons_within {x : Action × TaintState} (h : begins x.1 = false) (before rest : Log) :
    attemptsFrom before (x :: rest) = attemptsFrom (before ++ [x]) rest := by
  obtain ⟨a, t⟩ := x
  cases a with
  | attempt step n => cases h
  | _ => rfl

theorem attemptsFrom_within {seg : Log} (h : Within seg) (before : Log) : attemptsFrom before seg = [] := by
  induction seg generalizing before with
  | nil => rfl
  | cons x seg ih =>
      rw [attemptsFrom_cons_within (h x (List.mem_cons_self ..))]
      exact ih (fun y hy => h y (List.mem_cons_of_mem _ hy)) _

theorem takeWhile_within {seg : Log} (h : Within seg) {rest : Log} (hrest : Opens rest) :
    (seg ++ rest).takeWhile (fun x => !begins x.1) = seg := by
  have hnone : rest.takeWhile (fun x => !begins x.1) = [] := by
    cases rest with
    | nil => rfl
    | cons x rest =>
        have hx : begins x.1 = true := hrest x rfl
        simp [hx]
  rw [List.takeWhile_append_of_pos, hnone, List.append_nil]
  intro x hx
  simp [h x hx]

/-- Where an attempt begins, the ones before it are over. -/
theorem attemptsFrom_append {m : Log} (hm : Opens m) (before l : Log) :
    attemptsFrom before (l ++ m) = attemptsFrom before l ++ attemptsFrom (before ++ l) m := by
  have hnone : m.takeWhile (fun x => !begins x.1) = [] := @takeWhile_within [] (by simp [Within]) m hm
  induction l generalizing before with
  | nil => simp [attemptsFrom]
  | cons x l ih =>
      have hassoc : before ++ x :: l = (before ++ [x]) ++ l := by simp
      rw [hassoc]
      by_cases hx : begins x.1 = true
      · obtain ⟨a, t⟩ := x
        cases a with
        | attempt step n =>
            have htake : (l ++ m).takeWhile (fun x => !begins x.1) = l.takeWhile (fun x => !begins x.1) := by
              rw [List.takeWhile_append, hnone]
              split
              · rename_i hall
                rw [List.append_nil, (List.takeWhile_sublist _).eq_of_length hall]
              · simp
            show Attempt.mk _ _ _ ((l ++ m).takeWhile _) :: attemptsFrom _ (l ++ m) = Attempt.mk _ _ _ _ :: (_ ++ _)
            rw [htake, ih]
        | _ => cases hx
      · have hx' := eq_false_of_ne_true hx
        rw [List.cons_append, attemptsFrom_cons_within hx', attemptsFrom_cons_within hx', ih]

/-- From `s` to `s'` these attempts were made, and nothing was written outside them. -/
def Makes (s s' : Session) (as : List Attempt) : Prop :=
  ∃ seg, Writes s s' seg ∧ Opens seg ∧ attemptsFrom s.log seg = as ∧ recorded seg = as.flatMap Attempt.verdicts

namespace Makes

variable {s s' s'' : Session} {as bs : List Attempt}

theorem refl (s : Session) : Makes s s [] := ⟨[], .refl s, by simp [Opens], rfl, rfl⟩

theorem trans (h : Makes s s' as) (h' : Makes s' s'' bs) : Makes s s'' (as ++ bs) := by
  obtain ⟨l, hwrites, hopens, rfl, htold⟩ := h
  obtain ⟨m, hwrites', hopens', rfl, htold'⟩ := h'
  refine ⟨l ++ m, hwrites.trans hwrites', ?_, ?_, ?_⟩
  · cases l with
    | nil => exact hopens'
    | cons x l => exact hopens
  · rw [attemptsFrom_append hopens', hwrites]
  · rw [recorded_append, htold, htold', List.flatMap_append]

/-- One attempt is made. -/
theorem single {step : String} {n : ℕ} {seg : Log} (hseg : Within seg)
    (h : Writes (s.act (.attempt step n)) s' seg) :
    Makes s s' [⟨s.log ++ [(.attempt step n, s.taint)], step, n, seg⟩] := by
  refine ⟨(.attempt step n, s.taint) :: seg, ?_, ?_, ?_, ?_⟩
  · show s'.log = s.log ++ _
    rw [h]
    simp [Session.act]
  · simp [Opens, begins]
  · have htake := @takeWhile_within seg hseg [] (by simp [Opens])
    rw [List.append_nil] at htake
    show Attempt.mk _ _ _ (seg.takeWhile _) :: attemptsFrom _ seg = _
    rw [htake, attemptsFrom_within hseg]
  · rw [List.flatMap_singleton]
    rfl

end Makes

/-! ## What is written when -/

/-- Written when the reviewer is asked. -/
def opining : Action → Bool
  | .review _ | .event (.selfReview _ _ _ _) => true
  | _ => false

/-- Written when a verifier judges. -/
def judging : Action → Bool
  | .verify _ | .event (.verifier _ _ _ _) => true
  | _ => false

theorem ofTurn_spec {a : Action} (h : a.ofTurn = true) : begins a = false ∧ verdictOf a = none := by
  cases a with
  | event e => cases e <;> first | exact ⟨rfl, rfl⟩ | cases h
  | _ => first | exact ⟨rfl, rfl⟩ | cases h

theorem opining_spec {a : Action} (h : opining a = true) :
    begins a = false ∧ verdictOf a = none ∧ finalOf a = none ∧ ∀ st, attemptStep st a = st := by
  cases a with
  | event e => cases e <;> first | exact ⟨rfl, rfl, rfl, fun _ => rfl⟩ | cases h
  | _ => first | exact ⟨rfl, rfl, rfl, fun _ => rfl⟩ | cases h

theorem judging_spec {a : Action} (h : judging a = true) :
    begins a = false ∧ finalOf a = none ∧ ∀ st, attemptStep st a = st := by
  cases a with
  | event e => cases e <;> first | exact ⟨rfl, rfl, fun _ => rfl⟩ | cases h
  | _ => first | exact ⟨rfl, rfl, fun _ => rfl⟩ | cases h

theorem recorded_eq_nil {seg : Log} (h : ∀ x ∈ seg, verdictOf x.1 = none) : recorded seg = [] :=
  List.filterMap_eq_nil_iff.mpr h

theorem finals_eq_nil {seg : Log} (h : ∀ x ∈ seg, finalOf x.1 = none) : finals seg = [] :=
  List.filterMap_eq_nil_iff.mpr h

@[simp] theorem finals_append (l m : Log) : finals (l ++ m) = finals l ++ finals m := List.filterMap_append

/-- What leaves the calls of the attempt alone can be written behind them. -/
theorem processed_append {seg : Log} (h : ∀ x ∈ seg, ∀ st, attemptStep st x.1 = st) (log : Log) :
    processed (log ++ seg) = processed log := by
  have hfold : ∀ st, seg.foldl (fun st x => attemptStep st x.1) st = st := by
    intro st
    induction seg with
    | nil => rfl
    | cons x seg ih =>
        rw [List.foldl_cons, h x (List.mem_cons_self ..)]
        exact ih fun y hy => h y (List.mem_cons_of_mem _ hy)
  unfold processed attemptState
  rw [List.foldl_append, hfold]

/-! ## A turn -/

section

variable (env : Env) (turn : Turn)

/-- A turn that answered wrote `final` last. -/
def Answers (s s' : Session) (content : String) : Prop :=
  ∃ seg t, Writes s s' (seg ++ [(.event (.final content), t)])

theorem runStep_answers {systemPrompt : String} {step : ℕ} {s s' : Session} {content : String}
    (h : runStep env turn systemPrompt step s = (.finished (.answered content), s')) : Answers s s' content := by
  unfold runStep at h
  split at h
  · cases h
  · simp only at h
    split at h
    · cases h
    · rename_i req _
      obtain ⟨seg, hreported, -⟩ := report_goes turn step (turn.llm (s.emit (.stepStart step)).log req)
        ((s.emit (.stepStart step)).act (.complete req))
      generalize report step (turn.llm (s.emit (.stepStart step)).log req)
        ((s.emit (.stepStart step)).act (.complete req)) = s₂ at hreported h
      split at h
      · cases h
      · rename_i reply usage _
        have hreplied : Writes s (s₂.act (.replied reply)) _ :=
          (((s.act_writes (.event (.stepStart step))).trans (Session.act_writes _ _)).trans hreported).trans
            (Session.act_writes _ _)
        split at h
        · cases h
          refine ⟨_, s₂.taint, Writes.trans hreplied ?_⟩
          rfl
        · split at h
          · cases h
          · cases h

theorem runSteps_answers (systemPrompt : String) (left step : ℕ) {s : Session} {content : String}
    (h : (runSteps env turn systemPrompt left step s).1 = .answered content) :
    Answers s (runSteps env turn systemPrompt left step s).2 content := by
  induction left generalizing step s with
  | zero => cases h
  | succ left ih =>
      obtain ⟨-, -, -, ⟨first, hfirst, -⟩, -⟩ := runStep_goes env turn systemPrompt step s
      unfold runSteps at h ⊢
      split at h
      · rename_i outcome s' heq
        cases h
        exact runStep_answers env turn heq
      · rename_i s' heq
        rw [heq] at hfirst
        obtain ⟨seg, t, hseg⟩ := ih (step + 1) h
        refine ⟨first ++ seg, t, ?_⟩
        rw [List.append_assoc]
        exact hfirst.trans hseg

/-- **A turn.** It begins no attempt, gives no verdict, and its last `final` event is its answer. -/
theorem runTurnWith_told (s : Session) :
    ∃ seg, Writes s (runTurnWith env turn s).2 seg ∧ (∀ x ∈ seg, x.1.ofTurn = true) ∧
      ∀ content, (runTurnWith env turn s).1 = .answered content → (finals seg).getLast? = some content := by
  obtain ⟨-, -, -, ⟨seg, hwrites, -, -, hturn⟩, -⟩ :=
    runSteps_goes env turn (turnSystemPrompt turn s) turn.cfg.maxSteps 1 (s.push (.user turn.user))
  have hanswers := fun content => @runSteps_answers env turn (turnSystemPrompt turn s) turn.cfg.maxSteps 1
    (s.push (.user turn.user)) content
  generalize hrun : runSteps env turn (turnSystemPrompt turn s) turn.cfg.maxSteps 1 (s.push (.user turn.user)) = run
    at hwrites hanswers
  refine ⟨seg ++ [(.event (.done run.1.label), run.2.taint)], ?_, ?_, ?_⟩
  · unfold runTurnWith
    simp only [hrun]
    exact @Writes.trans _ run.2 _ _ _ hwrites rfl
  · intro x hx
    rcases List.mem_append.mp hx with hx | hx
    · exact hturn x hx
    · rw [List.mem_singleton.mp hx]
      rfl
  · intro content hcontent
    have hcontent' : run.1 = .answered content := by
      rw [← hrun]
      exact hcontent
    obtain ⟨seg', t, hseg'⟩ := hanswers content hcontent'
    have heq : seg = seg' ++ [(.event (.final content), t)] := by
      have hlog : s.log ++ seg = s.log ++ (seg' ++ [(.event (.final content), t)]) := hwrites.symm.trans hseg'
      exact List.append_cancel_left hlog
    rw [heq]
    simp [finals, finalOf]

/-! ## An attempt -/

theorem askReviewer_told (reviewer : Option SelfReviewer) (st : Step) (attempt : ℕ) (answer : String) (s : Session) :
    ∃ seg, Writes s (askReviewer turn reviewer st attempt answer s) seg ∧ ∀ x ∈ seg, opining x.1 = true := by
  unfold askReviewer
  split
  · exact ⟨[], .refl s, by simp⟩
  · split
    · exact ⟨[], .refl s, by simp⟩
    · refine ⟨_, (Session.act_writes s _).trans (Session.act_writes _ _), ?_⟩
      simp [opining]

end

/-- One verdict; no feedback is left only when the verifier passes. -/
theorem judge_told (st : Step) (ctx : VerifyContext) (v : Verifier) (feedback : List String) (s : Session) :
    ∃ log passed detail t u, Writes s (judge st ctx v feedback s).2
        [(.verify ctx, t), (.event (.verifier st.id (v.name log) passed detail), u)] ∧
      ((judge st ctx v feedback s).1 = [] →
        feedback = [] ∧ v.verify s.log ctx = .pass ∧ passed = true ∧ detail = "") := by
  cases hverdict : v.verify s.log ctx with
  | pass =>
      refine ⟨(s.act (.verify ctx)).log, true, "", s.taint, s.taint, ?_, ?_⟩
      · unfold judge
        simp only [hverdict]
        exact (s.act_writes _).trans (Session.act_writes _ _)
      · unfold judge
        simp [hverdict]
  | fail why =>
      refine ⟨(s.act (.verify ctx)).log, false, why, s.taint, s.taint, ?_, ?_⟩
      · unfold judge
        simp only [hverdict]
        exact (s.act_writes _).trans (Session.act_writes _ _)
      · unfold judge
        simp [hverdict]

/-- The verifiers judge one after the other, and they leave no feedback only when they all pass. -/
theorem judgeAll_told (st : Step) (ctx : VerifyContext) {vs : List Verifier} (hstable : ∀ v ∈ vs, Stable v)
    (feedback : List String) (s : Session) :
    ∃ seg, Writes s (judgeAll st ctx vs feedback s).2 seg ∧ (∀ x ∈ seg, judging x.1 = true) ∧
      (recorded seg).length = vs.length ∧ (∀ w ∈ recorded seg, w.step = st.id) ∧
      ((judgeAll st ctx vs feedback s).1 = [] → feedback = [] ∧ recorded seg = vs.map (passing st) ∧
        ∀ v ∈ vs, ∃ before t after, seg = before ++ (.verify ctx, t) :: after ∧
          v.verify (s.log ++ before) ctx = .pass) := by
  induction vs generalizing feedback s with
  | nil => exact ⟨[], .refl s, by simp, rfl, by simp, fun h => ⟨h, rfl, by simp⟩⟩
  | cons v vs ih =>
      obtain ⟨log, passed, detail, t, u, hfirst, hfeedback⟩ := judge_told st ctx v feedback s
      unfold judgeAll
      simp only
      generalize judge st ctx v feedback s = judged at hfirst hfeedback ⊢
      obtain ⟨seg, hwrites, hjudging, hlength, hnamed, hpassed⟩ :=
        ih (fun v' hv' => hstable v' (List.mem_cons_of_mem _ hv')) judged.1 judged.2
      refine ⟨_, hfirst.trans hwrites, ?_, ?_, ?_, ?_⟩
      · simpa [judging] using hjudging
      · simpa [recorded, verdictOf] using hlength
      · simpa [recorded, verdictOf] using hnamed
      · intro hnone
        obtain ⟨hjudged, hverdicts, hrest⟩ := hpassed hnone
        obtain ⟨hempty, hpass, rfl, rfl⟩ := hfeedback hjudged
        refine ⟨hempty, ?_, ?_⟩
        · rw [recorded_append, hverdicts]
          show ⟨st.id, v.name log, true, ""⟩ :: _ = passing st v :: _
          rw [hstable v (List.mem_cons_self ..) log []]
          rfl
        · intro v' hv'
          rcases List.mem_cons.mp hv' with rfl | hv'
          · exact ⟨[], t, _, rfl, by simpa using hpass⟩
          · obtain ⟨before, t', after, rfl, hpass'⟩ := hrest v' hv'
            refine ⟨_, t', after, (List.append_assoc _ _ _).symm, ?_⟩
            rw [← List.append_assoc, ← hfirst]
            exact hpass'

section

variable (env : Env) (turn : Turn) (reviewer : Option SelfReviewer)

theorem runAttempt_makes {st : Step} (hstable : ∀ v ∈ st.verifiers, Stable v) {s : Session}
    (hjudged : JudgedOnReadBack s.log) (attempt : ℕ) (feedback : List String) :
    ∃ a : Attempt, Makes s (runAttempt env turn reviewer st attempt feedback s).2 [a] ∧ a.n = attempt ∧
      AttemptOf st a ∧ ∀ answer, (runAttempt env turn reviewer st attempt feedback s).1 = .passed answer →
        Passed st a ∧ a.answer = some answer := by
  obtain ⟨seg, hwrites, hturn, hanswer⟩ :=
    runTurnWith_told env { turn with user := st.prompt feedback } (s.act (.attempt st.id attempt))
  obtain ⟨reply, hread⟩ := runTurnWith_readBack env { turn with user := st.prompt feedback }
    (ReadBack.begin hjudged st.id attempt)
  have hwithin : Within seg := fun x hx => (ofTurn_spec (hturn x hx)).1
  have hsilent : recorded seg = [] := recorded_eq_nil fun x hx => (ofTurn_spec (hturn x hx)).2
  -- An attempt whose turn did not answer is not judged.
  have hunjudged : AttemptOf st ⟨s.log ++ [(.attempt st.id attempt, s.taint)], st.id, attempt, seg⟩ := by
    refine ⟨rfl, ?_, .inl hsilent⟩
    show ∀ w ∈ recorded seg, _
    simp [hsilent]
  unfold runAttempt
  simp only
  generalize runTurnWith env { turn with user := st.prompt feedback } (s.act (.attempt st.id attempt)) = run
    at hwrites hanswer hread
  obtain ⟨outcome, s₂⟩ := run
  cases outcome with
  | stopped => exact ⟨_, .single hwithin hwrites, rfl, hunjudged, fun answer h => by cases h⟩
  | stepLimit => exact ⟨_, .single hwithin hwrites, rfl, hunjudged, fun answer h => by cases h⟩
  | failed m => exact ⟨_, .single hwithin hwrites, rfl, hunjudged, fun answer h => by cases h⟩
  | answered answer =>
      simp only
      obtain ⟨opinion, hopinion, hopining⟩ := askReviewer_told turn reviewer st attempt answer s₂
      have hasked := askReviewer_readBack turn reviewer hread st attempt answer
      generalize askReviewer turn reviewer st attempt answer s₂ = s₃ at hopinion hasked ⊢
      generalize hctx : VerifyContext.mk st.id answer (recordsSince (s₃.history.drop s.history.length)) = ctx
      obtain ⟨verdicts, hverdicts, hjudging, hlength, hnamed, hpassed⟩ := judgeAll_told st ctx hstable [] s₃
      have hall := (hwrites.trans hopinion).trans hverdicts
      have hwithin' : Within (seg ++ opinion ++ verdicts) := by
        intro x hx
        rcases List.mem_append.mp hx with hx | hx
        · rcases List.mem_append.mp hx with hx | hx
          · exact hwithin x hx
          · exact (opining_spec (hopining x hx)).1
        · exact (judging_spec (hjudging x hx)).1
      have hrecorded : recorded (seg ++ opinion ++ verdicts) = recorded verdicts := by
        rw [recorded_append, recorded_append, hsilent,
          recorded_eq_nil fun x hx => (opining_spec (hopining x hx)).2.1]
        rfl
      have hfinals : (finals (seg ++ opinion ++ verdicts)).getLast? = some answer := by
        rw [finals_append, finals_append, finals_eq_nil fun x hx => (opining_spec (hopining x hx)).2.2.1,
          finals_eq_nil fun x hx => (judging_spec (hjudging x hx)).2.1, List.append_nil, List.append_nil]
        exact hanswer answer rfl
      refine ⟨⟨s.log ++ [(.attempt st.id attempt, s.taint)], st.id, attempt, seg ++ opinion ++ verdicts⟩, ?_, rfl, ?_, ?_⟩
      · apply Makes.single hwithin'
        split
        · rename_i heq
          rw [heq] at hall
          exact hall
        · rename_i heq
          rw [heq] at hall
          exact hall
      · refine ⟨rfl, ?_, .inr ?_⟩
        · show ∀ w ∈ recorded _, _
          rw [hrecorded]
          exact hnamed
        · show (recorded _).length = _
          rw [hrecorded]
          exact hlength
      · intro answer' hend
        split at hend
        · rename_i heq
          cases hend
          obtain ⟨-, htold, hpass⟩ := hpassed (by rw [heq])
          have hlog : s.log ++ [(.attempt st.id attempt, s.taint)] ++ (seg ++ opinion ++ verdicts) =
              s₃.log ++ verdicts := by
            rw [hopinion, hwrites]
            simp [Session.act]
          -- The verdicts do not change what was processed in the attempt.
          have hrecords : ctx.tools = Attempt.records
              ⟨s.log ++ [(.attempt st.id attempt, s.taint)], st.id, attempt, seg ++ opinion ++ verdicts⟩ := by
            show _ = (processed (_ ++ _)).map _
            rw [hlog, processed_append fun x hx => (judging_spec (hjudging x hx)).2.2, ← hasked.records, ← hctx]
            rfl
          refine ⟨⟨hrecorded.trans htold, ?_⟩, hfinals⟩
          intro v hv
          obtain ⟨before, t, after, hsplit, hverify⟩ := hpass v hv
          have hown : ctx = ⟨st.id, answer, Attempt.records
              ⟨s.log ++ [(.attempt st.id attempt, s.taint)], st.id, attempt, seg ++ opinion ++ verdicts⟩⟩ := by
            rw [← hrecords, ← hctx]
          refine ⟨answer, seg ++ opinion ++ before, t, after, hfinals, ?_, ?_⟩
          · show seg ++ opinion ++ verdicts = _
            rw [← hown, hsplit]
            simp
          · rw [← hown]
            have hbefore : s.log ++ [(.attempt st.id attempt, s.taint)] ++ (seg ++ opinion ++ before) =
                s₃.log ++ before := by
              rw [hopinion, hwrites]
              simp [Session.act]
            rw [hbefore]
            exact hverify
        · cases hend

theorem runAttempts_makes {st : Step} (hstable : ∀ v ∈ st.verifiers, Stable v) (left attempt : ℕ)
    (feedback : List String) {s : Session} (hjudged : JudgedOnReadBack s.log) :
    ∃ group, Makes s (runAttempts env turn reviewer st left attempt feedback s).2 group ∧
      (∀ a ∈ group, AttemptOf st a) ∧ group.map Attempt.n = List.range' attempt group.length ∧
      ∀ answer, (runAttempts env turn reviewer st left attempt feedback s).1 = .passed answer →
        ∃ a, group.getLast? = some a ∧ Passed st a ∧ a.answer = some answer := by
  induction left generalizing attempt feedback s with
  | zero => exact ⟨[], .refl s, by simp, rfl, fun answer h => by cases h⟩
  | succ left ih =>
      unfold runAttempts
      split
      · exact ⟨[], .refl s, by simp, rfl, fun answer h => by cases h⟩
      · obtain ⟨a, hmakes, hn, hof, hpassed⟩ := runAttempt_makes env turn reviewer hstable hjudged attempt feedback
        have hjudged' := runAttempt_judged env turn reviewer hjudged st attempt feedback
        split
        · rename_i feedback' s' heq
          rw [heq] at hmakes hjudged'
          obtain ⟨group, hgroup, heach, hnumbered, hfinal⟩ := ih (attempt + 1) feedback' hjudged'
          refine ⟨a :: group, hmakes.trans hgroup, ?_, ?_, ?_⟩
          · intro b hb
            rcases List.mem_cons.mp hb with rfl | hb
            · exact hof
            · exact heach b hb
          · rw [List.map_cons, hnumbered, hn, List.length_cons, List.range'_succ]
          · intro answer h
            obtain ⟨b, hlast, hb⟩ := hfinal answer h
            refine ⟨b, ?_, hb⟩
            rw [List.getLast?_cons, hlast]
            rfl
        · refine ⟨[a], hmakes, by simpa using hof, ?_, ?_⟩
          · simp [hn]
          · intro answer h
            exact ⟨a, rfl, hpassed answer h⟩

end

/-! ## A workflow -/

/-- The attempts of a run that succeeded: those at each step, in order. -/
structure Succeeds (steps : List Step) (answers : List String) (runs : List (Step × List Attempt)) : Prop where
  steps : runs.map Prod.fst = steps
  each : ∀ r ∈ runs, StepRun r.1 r.2
  answers : runs.map (fun r => r.2.getLast?.bind Attempt.answer) = answers.map some

/-- **A run that succeeds.** One attempt at every step passed all of its verifiers. -/
theorem runWorkflowSteps_makes (env : Env) (turn : Turn) (reviewer : Option SelfReviewer) {steps : List Step}
    (hstable : ∀ st ∈ steps, ∀ v ∈ st.verifiers, Stable v) (earlier : List String) {s : Session}
    (hjudged : JudgedOnReadBack s.log) {all : List String}
    (h : (runWorkflowSteps env turn reviewer steps earlier s).1 = .succeeded all) :
    ∃ runs answers, all = earlier ++ answers ∧ Succeeds steps answers runs ∧
      Makes s (runWorkflowSteps env turn reviewer steps earlier s).2 (runs.flatMap Prod.snd) := by
  induction steps generalizing earlier s with
  | nil =>
      cases h
      exact ⟨[], [], (List.append_nil _).symm, ⟨rfl, by simp, rfl⟩, .refl s⟩
  | cons st steps ih =>
      obtain ⟨group, hmakes, heach, hnumbered, hfinal⟩ := runAttempts_makes env turn reviewer
        (hstable st (List.mem_cons_self ..)) st.maxAttempts 1 [] hjudged
      have hjudged' := runAttempts_judged env turn reviewer st st.maxAttempts 1 [] hjudged
      unfold runWorkflowSteps at h ⊢
      generalize runAttempts env turn reviewer st st.maxAttempts 1 [] s = run at hmakes hfinal hjudged' h ⊢
      obtain ⟨outcome, s'⟩ := run
      cases outcome with
      | stopped => cases h
      | retry feedback => cases h
      | passed answer =>
          obtain ⟨a, hlast, hpassed, hanswer⟩ := hfinal answer rfl
          obtain ⟨runs, answers, rfl, hruns, hmakes'⟩ :=
            ih (fun st' hst' => hstable st' (List.mem_cons_of_mem _ hst')) (earlier ++ [answer]) hjudged' h
          refine ⟨(st, group) :: runs, answer :: answers, by simp, ⟨?_, ?_, ?_⟩, hmakes.trans hmakes'⟩
          · rw [List.map_cons, hruns.steps]
          · intro r hr
            rcases List.mem_cons.mp hr with rfl | hr
            · exact ⟨heach, hnumbered, a, hlast, hpassed⟩
            · exact hruns.each r hr
          · rw [List.map_cons, List.map_cons, hruns.answers, hlast]
            show a.answer :: _ = _
            rw [hanswer]

end AgentRuntime.Learn
