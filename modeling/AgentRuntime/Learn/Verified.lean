import AgentRuntime.Learn.Attempts
import AgentRuntime.Lib.Acceptor

/-!
# `Learn.Verified` — a verified run is a successful one

The evidence groups a flat stream of verdicts by step id; the runner goes by position. The two agree when the ids of
the steps are pairwise distinct and the attempts judged are counted in 32 bits: `verified_iff_succeeded`.
-/

namespace AgentRuntime.Learn

open Loop Words

/-! ## What the evidence is compared with -/

def judgedOf (group : List Attempt) : ℕ := group.countP Attempt.isJudged

def judgedAttempts (log : Log) : ℕ := judgedOf (attemptsOf log)

/-- The verdicts of the final attempt. -/
def finalVerdicts (group : List Attempt) : List VerifierVerdict := (group.getLast?.map Attempt.verdicts).getD []

/-- `verified` is what was made of `run`: it is ok exactly when the run succeeded, and its evidence is what happened. -/
def Faithful (wf : Workflow) (run : WorkflowOutcome × Session) (verified : Except Unverified VerifiedRun × Session) :
    Prop :=
  ((∃ r, verified.1 = .ok r) ↔ ∃ answers, run.1 = .succeeded answers) ∧
    ∀ r, verified.1 = .ok r → ∃ runs, Succeeds wf.steps r.answers runs ∧
      attemptsOf run.2.log = runs.flatMap Prod.snd ∧
      r.evidence.verdicts = (runs.flatMap fun r => finalVerdicts r.2) ∧
      r.evidence.verdicts = (wf.steps.flatMap fun st => st.verifiers.map (passing st)) ∧
      r.evidence.attempts = judgedAttempts run.2.log

/-! ## Accepted workflows -/

theorem Workflow.new_ok {id : String} {steps : List Step} {wf : Workflow} (h : Workflow.new id steps = .ok wf) :
    wf.steps = steps ∧ ∀ st ∈ steps, st.verifiers ≠ [] := by
  have hcheck : ∀ l : List Step, l.forM Step.check = .ok () → ∀ st ∈ l, st.verifiers ≠ [] := by
    intro l
    induction l with
    | nil => simp
    | cons first l ih =>
        intro hl st hst hnil
        change (first.check >>= fun _ => l.forM Step.check) = _ at hl
        obtain ⟨u, hfirst, hrest⟩ := Except.bind_eq_ok.mp hl
        rcases List.mem_cons.mp hst with rfl | hst
        · unfold Step.check at hfirst
          rw [if_pos (by simp [hnil])] at hfirst
          cases hfirst
        · exact ih hrest st hst hnil
  unfold Workflow.new at h
  by_cases hempty : steps.isEmpty = true
  · rw [if_pos hempty] at h
    cases h
  · rw [if_neg hempty] at h
    obtain ⟨u, hforM, h⟩ := Except.bind_eq_ok.mp h
    cases h
    exact ⟨rfl, hcheck steps hforM⟩

/-! ## The verdicts of one step -/

section

variable {st : Step} {group : List Attempt}

/-- The verdicts of an attempt are all there, or none is. -/
theorem length_verdicts (h : ∀ a ∈ group, AttemptOf st a) (hv : st.verifiers ≠ []) :
    (group.flatMap Attempt.verdicts).length = judgedOf group * st.verifiers.length := by
  unfold judgedOf
  induction group with
  | nil => simp
  | cons a group ih =>
      rw [List.flatMap_cons, List.length_append, ih fun b hb => h b (List.mem_cons_of_mem _ hb), List.countP_cons]
      rcases (h a (List.mem_cons_self ..)).whole with hnone | hall
      · simp [Attempt.isJudged, hnone]
      · have hjudged : a.isJudged = true := by
          unfold Attempt.isJudged
          cases hverdicts : a.verdicts with
          | nil =>
              rw [hverdicts] at hall
              exact absurd (List.length_eq_zero_iff.mp hall.symm) hv
          | cons w ws => rfl
        rw [hall, hjudged, if_pos rfl, Nat.add_mul, Nat.one_mul, Nat.add_comm]

theorem StepRun.judged_pos (h : StepRun st group) (hv : st.verifiers ≠ []) : 0 < judgedOf group := by
  obtain ⟨a, hlast, hpassed⟩ := h.final
  unfold judgedOf
  rw [List.countP_pos_iff]
  refine ⟨a, List.mem_of_getLast? hlast, ?_⟩
  unfold Attempt.isJudged
  rw [hpassed.verdicts]
  cases hverifiers : st.verifiers with
  | nil => exact absurd hverifiers hv
  | cons v vs => rfl

/-- The final attempt's verdicts are the last ones, one for each verifier. -/
theorem StepRun.final_verdicts (h : StepRun st group) :
    finalVerdicts group = st.verifiers.map (passing st) ∧
      ∃ early, group.flatMap Attempt.verdicts = early ++ st.verifiers.map (passing st) := by
  obtain ⟨a, hlast, hpassed⟩ := h.final
  obtain ⟨front, rfl⟩ := List.getLast?_eq_some_iff.mp hlast
  refine ⟨?_, front.flatMap Attempt.verdicts, ?_⟩
  · unfold finalVerdicts
    rw [hlast]
    exact hpassed.verdicts
  · rw [List.flatMap_append, List.flatMap_singleton, hpassed.verdicts]

theorem StepRun.named (h : StepRun st group) : ∀ w ∈ group.flatMap Attempt.verdicts, w.step = st.id := by
  intro w hw
  obtain ⟨a, ha, hw⟩ := List.mem_flatMap.mp hw
  exact (h.each a ha).named w hw

end

/-! ## The check of one step -/

section

variable {debug : String → String} {log : Log} {all : List VerifierVerdict} {st : Step}

theorem checkVerdicts_passing (vs : List Verifier) (hstable : ∀ v ∈ vs, Stable v) :
    ((vs.map (passing st)).zip (vs.map fun v => v.name log)).forM (fun x => checkVerdict debug st x.1 x.2) = .ok () := by
  induction vs with
  | nil => rfl
  | cons v vs ih =>
      have hname : (passing st v).name = v.name log := hstable v (List.mem_cons_self ..) [] log
      have hfirst : checkVerdict debug st (passing st v) (v.name log) = .ok () := by
        unfold checkVerdict
        rw [if_neg (not_not.mpr hname)]
        rfl
      rw [List.map_cons, List.map_cons, List.zip_cons_cons]
      show (checkVerdict debug st (passing st v) (v.name log) >>= fun _ => _) = _
      rw [hfirst]
      exact ih fun v' hv' => hstable v' (List.mem_cons_of_mem _ hv')

/-- A step whose verdicts are those of whole attempts, the last one passed. -/
theorem checkStep_eq_ok (hstable : ∀ v ∈ st.verifiers, Stable v) (hv : st.verifiers ≠ [])
    {early : List VerifierVerdict} {k : ℕ}
    (hmine : (all.filter fun w => w.step == st.id) = early ++ st.verifiers.map (passing st))
    (hlength : (all.filter fun w => w.step == st.id).length = k * st.verifiers.length) :
    checkStep debug log all st = .ok (st.verifiers.map (passing st), min k (u32Bound - 1)) := by
  have hpos : 0 < st.verifiers.length := List.length_pos_iff.mpr hv
  unfold checkStep
  simp only [List.length_map]
  rw [hlength, if_neg, Nat.mul_div_cancel _ hpos]
  · have hdrop : (all.filter fun w => w.step == st.id).drop (k * st.verifiers.length - st.verifiers.length) =
        st.verifiers.map (passing st) := by
      rw [← hlength, hmine]
      apply List.drop_left'
      rw [List.length_append, List.length_map]
      omega
    rw [hdrop, checkVerdicts_passing _ hstable]
    rfl
  · rintro (hzero | hempty | hmod)
    · omega
    · rw [hempty] at hmine
      have hlast := congrArg List.length hmine
      rw [List.length_append, List.length_map, List.length_nil] at hlast
      omega
    · exact hmod (Nat.mul_mod_left _ _)

theorem checkStep_ok {r : List VerifierVerdict × ℕ} (h : checkStep debug log all st = .ok r) :
    st.verifiers.length ∣ (all.filter fun w => w.step == st.id).length ∧
      r.2 = min ((all.filter fun w => w.step == st.id).length / st.verifiers.length) (u32Bound - 1) := by
  unfold checkStep at h
  simp only [List.length_map] at h
  split at h
  · cases h
  · rename_i hwhole
    obtain ⟨u, -, h⟩ := Except.bind_eq_ok.mp h
    cases h
    push Not at hwhole
    exact ⟨Nat.dvd_of_mod_eq_zero hwhole.2.2, rfl⟩

end

/-! ## The check of a run -/

/-- All that is said of the steps, when each is accepted. -/
theorem foldl_saturatingAdd (ns : List ℕ) {start : ℕ} (h : start ≤ u32Bound - 1) :
    ns.foldl (fun found n => saturatingAdd found (min n (u32Bound - 1))) start = min (start + ns.sum) (u32Bound - 1) := by
  induction ns generalizing start with
  | nil => simp [h]
  | cons n ns ih =>
      rw [List.foldl_cons, List.sum_cons]
      unfold saturatingAdd at ih ⊢
      rw [ih (min_le_right _ _)]
      omega

section

variable {debug : String → String} {log : Log} {all : List VerifierVerdict} {runs : List (Step × List Attempt)}

/-- The check of the steps one after the other. -/
theorem foldlM_checkStep_eq_ok {shown : Step × List Attempt → List VerifierVerdict} {judged : Step × List Attempt → ℕ}
    (h : ∀ r ∈ runs, checkStep debug log all r.1 = .ok (shown r, min (judged r) (u32Bound - 1)))
    (found : List VerifierVerdict × ℕ) :
    ((runs.map Prod.fst).foldlM (fun found st => do
      let (last, judged) ← checkStep debug log all st
      return (found.1 ++ last, saturatingAdd found.2 judged)) found : Except String (List VerifierVerdict × ℕ)) =
    .ok (found.1 ++ runs.flatMap shown,
      (runs.map judged).foldl (fun found n => saturatingAdd found (min n (u32Bound - 1))) found.2) := by
  induction runs generalizing found with
  | nil => simp [pure, Except.pure]
  | cons r runs ih =>
      rw [List.map_cons, List.foldlM_cons, h r (List.mem_cons_self ..)]
      show List.foldlM _ (found.1 ++ shown r, saturatingAdd found.2 (min (judged r) (u32Bound - 1))) _ = _
      rw [ih fun r' hr' => h r' (List.mem_cons_of_mem _ hr')]
      simp

theorem foldlM_checkStep_ok {found found' : List VerifierVerdict × ℕ} {steps : List Step}
    (h : (steps.foldlM (fun found st => do
      let (last, judged) ← checkStep debug log all st
      return (found.1 ++ last, saturatingAdd found.2 judged)) found : Except String (List VerifierVerdict × ℕ)) =
      .ok found') :
    ∀ st ∈ steps, ∃ r, checkStep debug log all st = .ok r := by
  induction steps generalizing found with
  | nil => simp
  | cons st steps ih =>
      rw [List.foldlM_cons] at h
      obtain ⟨next, hfirst, h⟩ := Except.bind_eq_ok.mp h
      obtain ⟨r, hr, -⟩ := Except.bind_eq_ok.mp hfirst
      intro st' hst'
      rcases List.mem_cons.mp hst' with rfl | hst'
      · exact ⟨r, hr⟩
      · exact ih h st' hst'

end

/-! ## The verdicts of a run -/

/-- The verdicts of the attempts, in order. -/
def verdictsOf (runs : List (Step × List Attempt)) : List VerifierVerdict :=
  runs.flatMap fun r => r.2.flatMap Attempt.verdicts

section

variable {runs : List (Step × List Attempt)}

/-- How often the verdicts name the step of `r`. -/
def namedLike (runs : List (Step × List Attempt)) (r : Step × List Attempt) : ℕ :=
  ((verdictsOf runs).filter fun w => w.step == r.1.id).length

theorem filter_named {r r' : Step × List Attempt} (h : StepRun r.1 r.2) (hid : r.1.id = r'.1.id) :
    (r.2.flatMap Attempt.verdicts).filter (fun w => w.step == r'.1.id) = r.2.flatMap Attempt.verdicts := by
  rw [List.filter_eq_self]
  intro w hw
  rw [h.named w hw, hid]
  exact beq_self_eq_true _

theorem filter_other {r r' : Step × List Attempt} (h : StepRun r.1 r.2) (hid : r.1.id ≠ r'.1.id) :
    (r.2.flatMap Attempt.verdicts).filter (fun w => w.step == r'.1.id) = [] := by
  rw [List.filter_eq_nil_iff]
  intro w hw
  rw [h.named w hw]
  simpa using hid

/-- With ids of their own, the verdicts that name a step are its own. -/
theorem filter_verdictsOf (hruns : ∀ r ∈ runs, StepRun r.1 r.2) (hids : (runs.map fun r => r.1.id).Nodup)
    {r : Step × List Attempt} (hr : r ∈ runs) :
    (verdictsOf runs).filter (fun w => w.step == r.1.id) = r.2.flatMap Attempt.verdicts := by
  induction runs with
  | nil => cases hr
  | cons first runs ih =>
      obtain ⟨hfirst, hrest⟩ := List.nodup_cons.mp (List.map_cons ▸ hids)
      have hruns' := fun r' hr' => hruns r' (List.mem_cons_of_mem _ hr')
      unfold verdictsOf at ih ⊢
      rw [List.flatMap_cons, List.filter_append]
      rcases List.mem_cons.mp hr with rfl | hr
      · have hother : (runs.flatMap fun r => r.2.flatMap Attempt.verdicts).filter (fun w => w.step == r.1.id) = [] := by
          rw [List.filter_flatMap, List.flatMap_eq_nil_iff]
          intro r' hr'
          apply filter_other (hruns' r' hr')
          intro hid
          exact hfirst (List.mem_map.mpr ⟨r', hr', hid⟩)
        rw [hother, List.append_nil, filter_named (hruns r (List.mem_cons_self ..)) rfl]
      · have hne : first.1.id ≠ r.1.id := by
          intro hid
          exact hfirst (List.mem_map.mpr ⟨r, hr, hid.symm⟩)
        rw [filter_other (hruns first (List.mem_cons_self ..)) hne, List.nil_append]
        exact ih hruns' hrest hr

/-- A step is named by the verdicts of every run at a step of its id. -/
theorem le_namedLike (hruns : ∀ r ∈ runs, StepRun r.1 r.2) (hv : ∀ r ∈ runs, r.1.verifiers ≠ [])
    {part : List (Step × List Attempt)} (hpart : part.Sublist runs) {r : Step × List Attempt}
    (hid : ∀ r' ∈ part, r'.1.id = r.1.id) :
    (part.map fun r' => judgedOf r'.2 * r'.1.verifiers.length).sum ≤ namedLike runs r := by
  have hsub : (verdictsOf part).Sublist (verdictsOf runs) := hpart.flatMap _
  apply le_trans (le_of_eq ?_) (hsub.filter _).length_le
  clear hsub
  unfold verdictsOf
  rw [List.filter_flatMap, List.length_flatMap]
  apply congrArg
  apply List.map_congr_left
  intro r' hr'
  have hmem := hpart.subset hr'
  rw [filter_named (hruns r' hmem) (hid r' hr'), length_verdicts (hruns r' hmem).each (hv r' hmem)]

theorem judgedOf_flatMap : judgedOf (runs.flatMap Prod.snd) = (runs.map fun r => judgedOf r.2).sum := by
  unfold judgedOf
  rw [List.countP_flatMap]
  rfl

/-- **Shared ids.** Where two steps share an id, the verdicts show more attempts than were judged. -/
theorem judged_lt_shown (hruns : ∀ r ∈ runs, StepRun r.1 r.2) (hv : ∀ r ∈ runs, r.1.verifiers ≠ [])
    (hdvd : ∀ r ∈ runs, r.1.verifiers.length ∣ namedLike runs r) (hids : ¬ (runs.map fun r => r.1.id).Nodup) :
    (runs.map fun r => judgedOf r.2).sum < (runs.map fun r => namedLike runs r / r.1.verifiers.length).sum := by
  have hpos : ∀ r ∈ runs, 0 < r.1.verifiers.length := fun r hr => List.length_pos_iff.mpr (hv r hr)
  apply List.sum_lt_sum
  · intro r hr
    rw [Nat.le_div_iff_mul_le (hpos r hr)]
    have hown := le_namedLike hruns hv (List.singleton_sublist.mpr hr) (r := r) (by simp)
    simpa using hown
  · obtain ⟨id, hdup⟩ := List.exists_duplicate_iff_not_nodup.mpr hids
    obtain ⟨part, hpart, hboth⟩ := List.sublist_map_iff.mp (List.duplicate_iff_sublist.mp hdup)
    obtain ⟨r, part', rfl, hid, hboth⟩ := List.map_eq_cons_iff.mp hboth.symm
    obtain ⟨r', part'', rfl, hid', hnil⟩ := List.map_eq_cons_iff.mp hboth
    rw [List.map_eq_nil_iff.mp hnil] at hpart
    have hr := hpart.subset (List.mem_cons_self ..)
    have hr' := hpart.subset (List.mem_cons_of_mem _ (List.mem_cons_self ..))
    have hshared := le_namedLike hruns hv hpart (r := r) (by simp [hid, hid'])
    have hmore : 0 < judgedOf r'.2 * r'.1.verifiers.length :=
      Nat.mul_pos ((hruns r' hr').judged_pos (hv r' hr')) (hpos r' hr')
    refine ⟨r, hr, ?_⟩
    rw [Nat.lt_div_iff_mul_lt_of_dvd (hpos r hr).ne' (hdvd r hr), Nat.mul_comm]
    simp only [List.map_cons, List.map_nil, List.sum_cons, List.sum_nil] at hshared
    linarith

/-! ## The check of what a run recorded -/

variable {debug : String → String} {log : Log} {wf : Workflow}

/-- Steps with ids of their own: the check finds the final attempts and counts the judged ones. -/
theorem check_verdictsOf (hsteps : runs.map Prod.fst = wf.steps) (hruns : ∀ r ∈ runs, StepRun r.1 r.2)
    (hv : ∀ r ∈ runs, r.1.verifiers ≠ []) (hstable : ∀ r ∈ runs, ∀ v ∈ r.1.verifiers, Stable v)
    (hids : (wf.steps.map Step.id).Nodup) :
    check debug log wf (verdictsOf runs) =
      .ok (wf.steps.flatMap (fun st => st.verifiers.map (passing st)),
        min (runs.map fun r => judgedOf r.2).sum (u32Bound - 1)) := by
  have hids' : (runs.map fun r => r.1.id).Nodup := by
    rw [← hsteps, List.map_map] at hids
    exact hids
  have hstep : ∀ r ∈ runs, checkStep debug log (verdictsOf runs) r.1 =
      .ok (r.1.verifiers.map (passing r.1), min (judgedOf r.2) (u32Bound - 1)) := by
    intro r hr
    obtain ⟨-, early, hearly⟩ := (hruns r hr).final_verdicts
    have hmine := filter_verdictsOf hruns hids' hr
    apply checkStep_eq_ok (hstable r hr) (hv r hr) (hmine.trans hearly)
    rw [hmine, length_verdicts (hruns r hr).each (hv r hr)]
  have hforeign : ((verdictsOf runs).any fun w => !wf.steps.any fun st => st.id == w.step) = false := by
    rw [List.any_eq_false]
    intro w hw
    obtain ⟨r, hr, hw⟩ := List.mem_flatMap.mp hw
    have hmem : r.1 ∈ wf.steps := by
      rw [← hsteps]
      exact List.mem_map_of_mem hr
    have hfound : (wf.steps.any fun st => st.id == w.step) = true := by
      rw [List.any_eq_true]
      exact ⟨r.1, hmem, by simp [(hruns r hr).named w hw]⟩
    simp [hfound]
  unfold check
  rw [← hsteps, foldlM_checkStep_eq_ok hstep, foldl_saturatingAdd _ (Nat.zero_le _), hsteps, Nat.zero_add,
    List.nil_append]
  show (if _ then _ else _ : Except String (List VerifierVerdict × ℕ)) = _
  rw [hforeign]
  simp only [Bool.false_eq_true, if_false]
  rw [← hsteps, List.flatMap_map]
  rfl

/-- What the check counts. -/
theorem check_verdictsOf_ok (hsteps : runs.map Prod.fst = wf.steps) {found : List VerifierVerdict × ℕ}
    (h : check debug log wf (verdictsOf runs) = .ok found) :
    (∀ r ∈ runs, r.1.verifiers.length ∣ namedLike runs r) ∧
      found.2 = min (runs.map fun r => namedLike runs r / r.1.verifiers.length).sum (u32Bound - 1) := by
  unfold check at h
  rw [← hsteps] at h
  obtain ⟨folded, hfolded, h⟩ := Except.bind_eq_ok.mp h
  have hfound : folded = found := by
    split at h
    · cases h
    · cases h
      rfl
  subst hfound
  have hstep : ∀ r ∈ runs, ∃ shown, checkStep debug log (verdictsOf runs) r.1 = .ok shown ∧
      r.1.verifiers.length ∣ namedLike runs r ∧
      shown.2 = min (namedLike runs r / r.1.verifiers.length) (u32Bound - 1) := by
    intro r hr
    obtain ⟨shown, hshown⟩ := foldlM_checkStep_ok hfolded r.1 (List.mem_map_of_mem hr)
    exact ⟨shown, hshown, checkStep_ok hshown⟩
  refine ⟨fun r hr => (hstep r hr).choose_spec.2.1, ?_⟩
  have hall : ∀ r ∈ runs, checkStep debug log (verdictsOf runs) r.1 =
      .ok (((checkStep debug log (verdictsOf runs) r.1).toOption.map Prod.fst).getD [],
        min (namedLike runs r / r.1.verifiers.length) (u32Bound - 1)) := by
    intro r hr
    obtain ⟨shown, hshown, -, hjudged⟩ := hstep r hr
    rw [hshown, ← hjudged]
    rfl
  rw [foldlM_checkStep_eq_ok hall, foldl_saturatingAdd _ (Nat.zero_le _), Nat.zero_add] at hfolded
  cases hfolded
  rfl

end

/-! ## The result -/

section

variable (debug : String → String) (sha256 : List UInt8 → Digest) (sessionId : String) (env : Env) (turn : Turn)
  (reviewer : Option SelfReviewer)

/-- Only a run that succeeded is ok. -/
theorem runVerified_ok {wf : Workflow} {s : Session} {r : VerifiedRun}
    (h : (runVerifiedWorkflowReviewed debug sha256 sessionId env turn reviewer wf s).1 = .ok r) :
    (runWorkflowReviewed env turn reviewer wf s).1 = .succeeded r.answers := by
  unfold runVerifiedWorkflowReviewed at h
  split at h
  · cases h
  · cases h
  · rename_i heq
    split at h
    · cases h
    · cases h
      rw [heq]

/-- A run that succeeded is checked on what it recorded. -/
theorem runVerified_of_succeeded {wf : Workflow} {s : Session} {answers : List String}
    (h : (runWorkflowReviewed env turn reviewer wf s).1 = .succeeded answers) :
    (∀ found, check debug (runWorkflowReviewed env turn reviewer wf s).2.log wf
          (recorded ((runWorkflowReviewed env turn reviewer wf s).2.log.drop s.log.length)) = .ok found →
        ∃ r, (runVerifiedWorkflowReviewed debug sha256 sessionId env turn reviewer wf s).1 = .ok r) ∧
      ∀ r, (runVerifiedWorkflowReviewed debug sha256 sessionId env turn reviewer wf s).1 = .ok r →
        check debug (runWorkflowReviewed env turn reviewer wf s).2.log wf
          (recorded ((runWorkflowReviewed env turn reviewer wf s).2.log.drop s.log.length)) =
            .ok (r.evidence.verdicts, r.evidence.attempts) := by
  unfold runVerifiedWorkflowReviewed
  generalize runWorkflowReviewed env turn reviewer wf s = run at h ⊢
  obtain ⟨outcome, s'⟩ := run
  simp only at h
  subst h
  simp only
  constructor
  · intro found hfound
    rw [hfound]
    exact ⟨_, rfl⟩
  · intro r hr
    split at hr
    · cases hr
    · rename_i hcheck
      cases hr
      exact hcheck

/-- What a run that succeeded went through. -/
theorem runWorkflowReviewed_succeeds {wf : Workflow} (hstable : ∀ st ∈ wf.steps, ∀ v ∈ st.verifiers, Stable v)
    (history : List Message) (taint : TaintState) {answers : List String}
    (h : (runWorkflowReviewed env turn reviewer wf { history, taint, log := [] }).1 = .succeeded answers) :
    ∃ runs, Succeeds wf.steps answers runs ∧
      attemptsOf (runWorkflowReviewed env turn reviewer wf { history, taint, log := [] }).2.log =
        runs.flatMap Prod.snd ∧
      recorded (runWorkflowReviewed env turn reviewer wf { history, taint, log := [] }).2.log = verdictsOf runs := by
  have hjudged : JudgedOnReadBack (Session.emit { history, taint, log := [] } (.plan (wf.steps.map Step.id))).log := by
    intro before ctx t after heq
    rcases @Log.split_concat [] _ _ _ _ heq with ⟨-, hx, -⟩ | ⟨after', -, hnil⟩
    · cases hx
    · cases before <;> cases hnil
  obtain ⟨runs, answers', rfl, hruns, seg, hwrites, hopens, hattempts, htold⟩ :=
    runWorkflowSteps_makes env turn reviewer hstable [] hjudged h
  have hlog : (runWorkflowReviewed env turn reviewer wf { history, taint, log := [] }).2.log =
      [(.event (.plan (wf.steps.map Step.id)), taint)] ++ seg := hwrites
  refine ⟨runs, hruns, ?_, ?_⟩
  · rw [hlog]
    exact hattempts
  · rw [hlog, recorded_append, htold, List.flatMap_assoc]
    rfl

/-- **Verified is successful.** Only a run that succeeded is verified. A run of an accepted workflow succeeds only when
    at every step one attempt had every verifier pass on its own answer and records. Where the steps have ids of their
    own and the judged attempts fit 32 bits, the verified run is faithful to it; and a run that succeeded, with any
    other number of judged attempts than the largest, is followed faithfully only there. -/
theorem verified_iff_succeeded {id : String} {steps : List Step} {wf : Workflow}
    (hnew : Workflow.new id steps = .ok wf) (hstable : ∀ st ∈ steps, ∀ v ∈ st.verifiers, Stable v)
    (history : List Message) (taint : TaintState) :
    let run := runWorkflowReviewed env turn reviewer wf { history, taint, log := [] }
    let verified := runVerifiedWorkflowReviewed debug sha256 sessionId env turn reviewer wf
      { history, taint, log := [] }
    (∀ r, verified.1 = .ok r → run.1 = .succeeded r.answers) ∧
      (∀ answers, run.1 = .succeeded answers →
        ∃ runs, Succeeds wf.steps answers runs ∧ attemptsOf run.2.log = runs.flatMap Prod.snd) ∧
      ((wf.steps.map Step.id).Nodup → judgedAttempts run.2.log < u32Bound → Faithful wf run verified) ∧
      (∀ answers, run.1 = .succeeded answers → judgedAttempts run.2.log ≠ u32Bound - 1 →
        (Faithful wf run verified ↔ (wf.steps.map Step.id).Nodup ∧ judgedAttempts run.2.log < u32Bound)) := by
  intro run verified
  obtain ⟨rfl, hv⟩ := Workflow.new_ok hnew
  have hfaithful : (wf.steps.map Step.id).Nodup → judgedAttempts run.2.log < u32Bound → Faithful wf run verified := by
    intro hids hbound
    -- What the check says of a run that succeeded.
    have hchecked : ∀ answers, run.1 = .succeeded answers → ∃ runs, Succeeds wf.steps answers runs ∧
        attemptsOf run.2.log = runs.flatMap Prod.snd ∧
        check debug run.2.log wf (recorded run.2.log) =
          .ok (wf.steps.flatMap (fun st => st.verifiers.map (passing st)), judgedAttempts run.2.log) := by
      intro answers hanswers
      obtain ⟨runs, hruns, hattempts, htold⟩ :=
        runWorkflowReviewed_succeeds env turn reviewer hstable history taint hanswers
      have hmem : ∀ r ∈ runs, r.1 ∈ wf.steps := by
        intro r hr
        rw [← hruns.steps]
        exact List.mem_map_of_mem hr
      have hcount : judgedAttempts run.2.log = (runs.map fun r => judgedOf r.2).sum := by
        show judgedOf (attemptsOf run.2.log) = _
        rw [hattempts, judgedOf_flatMap]
      refine ⟨runs, hruns, hattempts, ?_⟩
      rw [htold, check_verdictsOf hruns.steps hruns.each (fun r hr => hv _ (hmem r hr))
        (fun r hr => hstable _ (hmem r hr)) hids, ← hcount, min_eq_left (by omega)]
    constructor
    · constructor
      · rintro ⟨r, hr⟩
        exact ⟨r.answers, runVerified_ok debug sha256 sessionId env turn reviewer hr⟩
      · rintro ⟨answers, hanswers⟩
        obtain ⟨-, -, -, hcheck⟩ := hchecked answers hanswers
        exact (runVerified_of_succeeded debug sha256 sessionId env turn reviewer hanswers).1 _ hcheck
    · intro r hr
      have hanswers := runVerified_ok debug sha256 sessionId env turn reviewer hr
      obtain ⟨runs, hruns, hattempts, hcheck⟩ := hchecked r.answers hanswers
      have hfound := (runVerified_of_succeeded debug sha256 sessionId env turn reviewer hanswers).2 r hr
      have hsame := Except.ok.inj (hfound.symm.trans hcheck)
      obtain ⟨hverdicts, hcount⟩ := Prod.mk.inj hsame
      refine ⟨runs, hruns, hattempts, ?_, hverdicts, hcount⟩
      rw [hverdicts, ← hruns.steps, List.flatMap_map]
      apply List.flatMap_congr
      intro r' hr'
      exact ((hruns.each r' hr').final_verdicts.1).symm
  refine ⟨?_, ?_, hfaithful, ?_⟩
  · intro r hr
    exact runVerified_ok debug sha256 sessionId env turn reviewer hr
  · intro answers hanswers
    obtain ⟨runs, hruns, hattempts, -⟩ :=
      runWorkflowReviewed_succeeds env turn reviewer hstable history taint hanswers
    exact ⟨runs, hruns, hattempts⟩
  · intro answers hanswers hnot
    constructor
    · rintro ⟨hiff, hevidence⟩
      obtain ⟨r, hr⟩ := hiff.mpr ⟨answers, hanswers⟩
      obtain ⟨-, -, -, -, -, hcount⟩ := hevidence r hr
      obtain ⟨runs, hruns, hattempts, htold⟩ :=
        runWorkflowReviewed_succeeds env turn reviewer hstable history taint hanswers
      have hfound := (runVerified_of_succeeded debug sha256 sessionId env turn reviewer hanswers).2 r hr
      have hcheck : check debug run.2.log wf (verdictsOf runs) = .ok (r.evidence.verdicts, r.evidence.attempts) := by
        rw [← htold]
        exact hfound
      obtain ⟨hdvd, hshown⟩ := check_verdictsOf_ok hruns.steps hcheck
      have hjudged : judgedAttempts run.2.log = (runs.map fun r => judgedOf r.2).sum := by
        show judgedOf (attemptsOf run.2.log) = _
        rw [hattempts, judgedOf_flatMap]
      simp only at hshown
      have hle : r.evidence.attempts ≤ u32Bound - 1 := hshown ▸ min_le_right _ _
      refine ⟨?_, by rw [← hcount]; unfold u32Bound at *; omega⟩
      by_contra hids
      have hmem : ∀ r ∈ runs, r.1.verifiers ≠ [] := by
        intro r hr
        apply hv
        rw [← hruns.steps]
        exact List.mem_map_of_mem hr
      rw [← hruns.steps, List.map_map] at hids
      have hlt := judged_lt_shown hruns.each hmem hdvd hids
      omega
    · rintro ⟨hids, hbound⟩
      exact hfaithful hids hbound

end

/-! ## Two steps of one id -/

namespace SharedIds

def verifier (name : String) : Verifier where
  name _ := name
  verify _ _ := .pass

def step (id name : String) : Step where
  id := id
  instruction := "go on"
  verifiers := [verifier name]
  maxAttempts := 1

/-- The model answers at once. -/
def turn : Turn where
  cfg := { model := "", systemPrompt := "", maxSteps := 1, maxToolCallsPerStep := 1, maxTokens := 1 }
  opts :=
    { maxToolsPerRequest := none, budget := none, pinnedTools := [], turnContext := [], selector := none,
      maxToolsTotal := none }
  llm _ _ := { deltas := [], reply := .ok (⟨"done", []⟩, none) }
  tools := { specs := [], host := fun _ => none, policies := [] }
  stop _ := false
  user := ""

def env : Env where
  clears _ := false
  parsesJson _ := true
  toolsJson _ := ""
  toLowercase text := text

def session : Session where
  history := []
  taint := .clean
  log := []

def quoted (text : String) : String := "\"" ++ text ++ "\""

/-- Both steps are accepted, the run succeeds, and it is not verified. -/
theorem succeeded_unverified :
    Workflow.new "release" [step "build" "compiles", step "build" "links"] =
        .ok ⟨"release", [step "build" "compiles", step "build" "links"]⟩ ∧
      (runWorkflowReviewed env turn none ⟨"release", [step "build" "compiles", step "build" "links"]⟩ session).1 =
        .succeeded ["done", "done"] ∧
      (runVerifiedWorkflowReviewed quoted Sha256.hash "s" env turn none
        ⟨"release", [step "build" "compiles", step "build" "links"]⟩ session).1 =
        .error (.evidenceMismatch "step build: expected a verdict from \"compiles\", found \"links\"") := by
  refine ⟨rfl, ?_, ?_⟩
  · decide
  · decide

theorem step_stable (id name : String) : ∀ v ∈ (step id name).verifiers, Stable v := by
  intro v hv log log'
  rw [List.mem_singleton.mp hv]
  rfl

/-- With ids of their own the same steps are verified. -/
theorem distinct_verified :
    Faithful ⟨"release", [step "build" "compiles", step "link" "links"]⟩
      (runWorkflowReviewed env turn none ⟨"release", [step "build" "compiles", step "link" "links"]⟩ session)
      (runVerifiedWorkflowReviewed quoted Sha256.hash "s" env turn none
        ⟨"release", [step "build" "compiles", step "link" "links"]⟩ session) := by
  have hstable : ∀ st ∈ [step "build" "compiles", step "link" "links"], ∀ v ∈ st.verifiers, Stable v := by
    intro st hst
    rcases List.mem_cons.mp hst with rfl | hst
    · exact step_stable _ _
    · rw [List.mem_singleton.mp hst]
      exact step_stable _ _
  have hnew : Workflow.new "release" [step "build" "compiles", step "link" "links"] =
      .ok ⟨"release", [step "build" "compiles", step "link" "links"]⟩ := rfl
  have hverified := verified_iff_succeeded quoted Sha256.hash "s" env turn none hnew hstable [] .clean
  refine hverified.2.2.1 ?_ ?_
  · decide
  · decide

end SharedIds

end AgentRuntime.Learn
