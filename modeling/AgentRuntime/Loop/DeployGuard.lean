import AgentRuntime.Lib.Acceptor
import AgentRuntime.Loop.Toolchain

/-!
# `Loop.DeployGuard` — what blocks a deploy (`agent-loop/src/deploy_guard.rs`)

The guard reads the raw report of one toolchain run and lists what blocks a deploy. It reads the listed names where
the judge of the same report reads the counts, so the two can differ only where a count has no name. For forge and
SARIF every count has one; for medusa a summary line may count what no line lists.
-/

namespace AgentRuntime.Loop

open Text

/-! ## Findings -/

inductive FindingKind where
  | failingTest
  | scanFinding
  | failingProperty
  | notCompleted
deriving DecidableEq

/-- One thing that blocks a deploy. -/
structure GateFinding where
  tool : String
  kind : FindingKind
  id : String
  severity : Option Severity
  location : Option String
deriving DecidableEq

def maxQuoted : ℕ := 160

/-- Printable ASCII only, no backticks, bounded. -/
def quoted (s : String) : String :=
  let kept := s.toList.filter fun c => 32 ≤ c.toNat && c.toNat ≤ 126 && c.toNat ≠ 96
  String.ofList (kept.take maxQuoted ++ if maxQuoted < s.length then "...".toList else [])

def statusWord : RunStatus → String
  | .completed => "completed"
  | .notInstalled => "not_installed"
  | .timedOut => "timed_out"
  | .refused => "refused"
  | .failed => "failed"

def notCompleted (tool id : String) : GateFinding where
  tool := tool
  kind := .notCompleted
  id := id
  severity := none
  location := none

/-- The gate's four checks, by tool name. -/
def gateTools : List String := [forgeTestTool, slitherScanTool, aderynScanTool, medusaFuzzTool]

def forgeFindings (ps : Parsers) (tool raw : String) : List GateFinding :=
  match parseForgeTestJson ps raw with
  | .error _ => [notCompleted tool "unreadable_report"]
  | .ok r =>
      if r.failed = 0 ∧ r.passed = 0 then [notCompleted tool "no_tests_ran"]
      else
        r.failing.map fun name =>
          { tool, kind := .failingTest, id := quoted name, severity := none
            location := some (quoted (String.ofList (name.toList.takeWhile fun c => c ≠ ':'))) }

def sarifFindings (ps : Parsers) (tool raw : String) (profile : SarifProfile) : List GateFinding :=
  match parseSarif ps raw profile with
  | .error _ => [notCompleted tool "unreadable_report"]
  | .ok r =>
      (r.findings.filter fun f => f.severity.atLeast .high).map fun f =>
        { tool, kind := .scanFinding, id := quoted f.ruleId, severity := some f.severity
          location := f.location.map quoted }

def medusaFindings (tool raw : String) : List GateFinding :=
  match parseMedusaOutput raw with
  | .error _ => [notCompleted tool "unreadable_report"]
  | .ok r =>
      r.failing.map fun name =>
        { tool, kind := .failingProperty, id := quoted name, severity := none, location := none }

/-- What blocks a deploy in one run of `tool`; nothing for a tool that is not one of the gate's checks. -/
def findingsFromReport (ps : Parsers) (tool : String) (status : RunStatus) (output : Option String) :
    List GateFinding :=
  if ¬ gateTools.contains tool then []
  else if status ≠ .completed then [notCompleted tool (statusWord status)]
  else
    match output with
    | none => [notCompleted tool "no_report"]
    | some raw =>
        if tool = forgeTestTool then forgeFindings ps tool raw
        else if tool = slitherScanTool then sarifFindings ps tool raw .slither
        else if tool = aderynScanTool then sarifFindings ps tool raw .aderyn
        else medusaFindings tool raw

/-- The deterministic judge of the same report. -/
def judgeReport (ps : Parsers) (tool raw : String) : ToolchainVerdict :=
  if tool = forgeTestTool then verifyForgeTestOutput ps raw
  else if tool = slitherScanTool then verifySarifOutput ps raw .slither .high
  else if tool = aderynScanTool then verifySarifOutput ps raw .aderyn .high
  else verifyMedusaOutput raw

/-! ## Forge: every failure counted has a name -/

namespace ForgeTestReport

/-- Names are listed exactly when failures are counted. -/
def Named (r : ForgeTestReport) : Prop := r.failing = [] ↔ r.failed = 0

theorem named_count {r : ForgeTestReport} (h : r.Named) (suite : String) (test : String × Json.Value) :
    (r.count suite test).Named := by
  unfold count
  split
  · exact h
  · exact h
  · -- A failure is counted; the list is full or gets its name.
    refine iff_of_false ?_ (Nat.succ_ne_zero _)
    show ¬ (if r.failing.length < maxListedFindings then r.failing ++ [_] else r.failing) = []
    split
    · exact List.append_ne_nil_of_right_ne_nil _ (List.cons_ne_nil _ _)
    · rename_i hfull
      intro hnil
      rw [hnil] at hfull
      exact hfull (by decide)

theorem named_countSuite {r r' : ForgeTestReport} (h : r.Named) {suite : String × Json.Value}
    (hcount : r.countSuite suite = .ok r') : r'.Named := by
  unfold countSuite at hcount
  split at hcount
  · cases hcount
  · rename_i tests _
    cases hcount
    exact List.foldlRecOn tests _ h fun acc hacc test _ => named_count hacc suite.1 test

end ForgeTestReport

theorem parseForgeTestJson_named {ps : Parsers} {raw : String} {r : ForgeTestReport}
    (h : parseForgeTestJson ps raw = .ok r) : r.Named := by
  unfold parseForgeTestJson at h
  obtain ⟨v, -, h⟩ := Except.bind_eq_ok.mp h
  split at h
  · cases h
  · exact Except.foldlM_invariant (motive := ForgeTestReport.Named)
      (fun _ _ _ hacc hsuite => ForgeTestReport.named_countSuite hacc hsuite) (iff_of_true rfl rfl) h

/-- **Forge.** The guard finds nothing exactly when the judge passes. -/
theorem forgeFindings_nil_iff (ps : Parsers) (tool raw : String) :
    forgeFindings ps tool raw = [] ↔ (verifyForgeTestOutput ps raw).passed = true := by
  unfold forgeFindings verifyForgeTestOutput
  split
  · rename_i heq
    rw [heq]
    exact iff_of_false (List.cons_ne_nil _ _) Bool.false_ne_true
  · rename_i r heq
    have hnamed := parseForgeTestJson_named heq
    rw [heq]
    show _ ↔ (judgeForgeTest r).passed = true
    unfold judgeForgeTest
    by_cases hfailed : r.failed = 0
    · rw [if_neg (by omega : ¬ 0 < r.failed)]
      by_cases hpassed : r.passed = 0
      · rw [if_pos ⟨hfailed, hpassed⟩, if_pos hpassed]
        exact iff_of_false (List.cons_ne_nil _ _) Bool.false_ne_true
      · rw [if_neg (fun h => hpassed h.2), if_neg hpassed, List.map_eq_nil_iff]
        exact iff_of_true (hnamed.mpr hfailed) rfl
    · rw [if_neg (fun h => hfailed h.1), if_pos (Nat.pos_of_ne_zero hfailed), List.map_eq_nil_iff]
      exact iff_of_false (fun hnil => hfailed (hnamed.mp hnil)) Bool.false_ne_true

/-! ## SARIF: the most severe findings are listed -/

theorem Severity.atLeast_trans {a b c : Severity} (hab : a.atLeast b = true) (hbc : b.atLeast c = true) :
    a.atLeast c = true := by
  unfold atLeast at hab hbc ⊢
  rw [decide_eq_true_iff] at hab hbc ⊢
  exact hbc.trans hab

theorem Severity.atLeast_total (a b : Severity) : (a.atLeast b || b.atLeast a) = true := by
  unfold atLeast
  rw [Bool.or_eq_true, decide_eq_true_iff, decide_eq_true_iff]
  exact Nat.le_total _ _

theorem SeverityCounts.atOrAbove_add (c : SeverityCounts) (s t : Severity) :
    (c.add s).atOrAbove t = c.atOrAbove t + if s.atLeast t then 1 else 0 := by
  unfold atOrAbove add
  cases s <;> cases t <;> simp [Severity.atLeast, Severity.rank] <;> omega

/-- The counts are those of the findings. -/
def SarifRuns.Counted (acc : SarifRuns) : Prop :=
  ∀ t, acc.counts.atOrAbove t = acc.findings.countP fun f => f.severity.atLeast t

theorem SarifRuns.counted_add {acc : SarifRuns} (h : acc.Counted) (f : SarifFinding) : (acc.add f).Counted := by
  intro t
  unfold add
  rw [SeverityCounts.atOrAbove_add, h t, List.countP_append, List.countP_singleton]

theorem sarifRun_counted {ps : Parsers} {profile : SarifProfile} {acc acc' : SarifRuns} {run : Json.Value}
    (h : acc.Counted) (hrun : sarifRun ps profile acc run = .ok acc') : acc'.Counted := by
  unfold sarifRun at hrun
  simp only at hrun
  split at hrun
  · cases hrun
  · split at hrun
    · cases hrun
    · split at hrun
      · cases hrun
      · cases hrun
        refine List.foldlRecOn _ _ ?_ fun acc hacc f _ => SarifRuns.counted_add hacc f
        split
        · exact h
        · exact h

/-- A report lists the most severe of the findings it counts. -/
theorem parseSarif_ok {ps : Parsers} {raw : String} {profile : SarifProfile} {r : SarifReport}
    (h : parseSarif ps raw profile = .ok r) :
    ∃ findings, r.findings = (bySeverity findings).take maxListedFindings ∧
      ∀ t, r.counts.atOrAbove t = findings.countP fun f => f.severity.atLeast t := by
  unfold parseSarif at h
  obtain ⟨v, -, h⟩ := Except.bind_eq_ok.mp h
  split at h
  · cases h
  · simp only at h
    split at h
    · cases h
    · obtain ⟨acc, hruns, h⟩ := Except.bind_eq_ok.mp h
      cases h
      refine ⟨acc.findings, rfl, ?_⟩
      apply Except.foldlM_invariant (motive := SarifRuns.Counted) (fun _ _ _ hacc hrun => sarifRun_counted hacc hrun)
        _ hruns
      intro t
      cases t <;> rfl

/-- The listed findings hold one at or above a severity whenever there is one. -/
theorem listed_filter_nil_iff (findings : List SarifFinding) (t : Severity) :
    (((bySeverity findings).take maxListedFindings).filter fun f => f.severity.atLeast t) = [] ↔
      findings.countP (fun f => f.severity.atLeast t) = 0 := by
  have hperm : (bySeverity findings).Perm findings := List.mergeSort_perm _ _
  have hsorted : (bySeverity findings).Pairwise fun f g => f.severity.atLeast g.severity = true := by
    unfold bySeverity
    apply List.pairwise_mergeSort
    · exact fun _ _ _ hfg hgh => Severity.atLeast_trans hfg hgh
    · exact fun f g => Severity.atLeast_total f.severity g.severity
  rw [← hperm.countP_eq, List.countP_eq_zero, List.filter_eq_nil_iff]
  generalize bySeverity findings = sorted at hsorted
  constructor
  · intro hlisted f hf hsevere
    cases sorted with
    | nil => cases hf
    | cons first rest =>
        -- The first finding is at least as severe, and it is listed.
        have hfirst : first.severity.atLeast t = true := by
          rcases List.mem_cons.mp hf with rfl | hf
          · exact hsevere
          · exact Severity.atLeast_trans (List.rel_of_pairwise_cons hsorted hf) hsevere
        exact hlisted first (List.mem_cons_self ..) hfirst
  · intro hnone f hf
    exact hnone f (List.mem_of_mem_take hf)

/-- **SARIF.** The guard finds nothing exactly when the judge passes at high. -/
theorem sarifFindings_nil_iff (ps : Parsers) (tool raw : String) (profile : SarifProfile) :
    sarifFindings ps tool raw profile = [] ↔ (verifySarifOutput ps raw profile .high).passed = true := by
  unfold sarifFindings verifySarifOutput
  split
  · rename_i heq
    rw [heq]
    exact iff_of_false (List.cons_ne_nil _ _) Bool.false_ne_true
  · rename_i r heq
    obtain ⟨findings, hlisted, hcounted⟩ := parseSarif_ok heq
    rw [heq, List.map_eq_nil_iff, hlisted, listed_filter_nil_iff, ← hcounted]
    show _ ↔ (judgeSarif r .high).passed = true
    unfold judgeSarif
    simp only
    split
    · rename_i hzero
      exact iff_of_true hzero rfl
    · rename_i hsome
      exact iff_of_false hsome Bool.false_ne_true

/-! ## medusa: a summary may count what no line lists -/

/-- The numbers of a summary line; those before it for another line. -/
def MedusaLine.summaryOr (last : Option (ℕ × ℕ)) : MedusaLine → Option (ℕ × ℕ)
  | .summary p f => some (p, f)
  | _ => last

/-- The numbers of the last summary line. -/
def lastSummary (ls : List MedusaLine) : Option (ℕ × ℕ) := ls.foldl MedusaLine.summaryOr none

/-- A failing test is listed. -/
def MedusaLine.listsFailure : MedusaLine → Bool
  | .failed _ => true
  | _ => false

/-- There is no summary, or a failing test is listed, or the last summary counts a passed test and no failed one. -/
def MedusaAccounted (raw : String) : Prop :=
  let ls := (lines raw.toList).map medusaLine
  ∀ p f, lastSummary ls = some (p, f) → ls.any MedusaLine.listsFailure = true ∨ (f = 0 ∧ 0 < p)

/-- What is gathered over the lines is what they say. -/
structure MedusaLines.Reads (acc : MedusaLines) (ls : List MedusaLine) : Prop where
  summary : acc.summary = lastSummary ls
  listed : 0 < acc.listedFailed ↔ ls.any MedusaLine.listsFailure = true
  named : acc.failing = [] ↔ acc.listedFailed = 0

theorem MedusaLines.reads_add {acc : MedusaLines} {ls : List MedusaLine} (h : acc.Reads ls) (l : MedusaLine) :
    (acc.add l).Reads (ls ++ [l]) := by
  have hany : (ls ++ [l]).any MedusaLine.listsFailure = (ls.any MedusaLine.listsFailure || l.listsFailure) := by
    rw [List.any_append, List.any_cons, List.any_nil, Bool.or_false]
  have hlast : lastSummary (ls ++ [l]) = MedusaLine.summaryOr (lastSummary ls) l := by
    unfold lastSummary
    rw [List.foldl_append]
    rfl
  have hother : l.listsFailure = false → (0 < acc.listedFailed ↔ (ls ++ [l]).any MedusaLine.listsFailure = true) := by
    intro hl
    rw [hany, hl, Bool.or_false]
    exact h.listed
  cases l with
  | failed name =>
      refine ⟨h.summary.trans hlast.symm, ?_, ?_⟩
      · rw [hany]
        exact iff_of_true (Nat.succ_pos _) (Bool.or_true _)
      · refine iff_of_false ?_ (Nat.succ_ne_zero _)
        show ¬ (if acc.failing.length < maxListedFindings then acc.failing ++ [_] else acc.failing) = []
        split
        · exact List.append_ne_nil_of_right_ne_nil _ (List.cons_ne_nil _ _)
        · rename_i hfull
          intro hnil
          rw [hnil] at hfull
          exact hfull (by decide)
  | summary p f => exact ⟨hlast.symm, hother rfl, h.named⟩
  | calls n => exact ⟨h.summary.trans hlast.symm, hother rfl, h.named⟩
  | testLimitReached => exact ⟨h.summary.trans hlast.symm, hother rfl, h.named⟩
  | other => exact ⟨h.summary.trans hlast.symm, hother rfl, h.named⟩

theorem MedusaLines.reads_foldl (ls : List MedusaLine) :
    (ls.foldl MedusaLines.add
      { summary := none, listedFailed := 0, failing := [], calls := none, testLimitReached := false }).Reads ls := by
  induction ls using List.reverseRecOn with
  | nil => exact ⟨rfl, iff_of_false (Nat.lt_irrefl 0) Bool.false_ne_true, iff_of_true rfl rfl⟩
  | append_singleton ls l ih =>
      rw [List.foldl_append]
      exact reads_add ih l

theorem judgeMedusa_passed (r : MedusaReport) : (judgeMedusa r).passed = true ↔ r.failed = 0 ∧ 0 < r.passed := by
  unfold judgeMedusa
  split
  · rename_i hfailed
    exact iff_of_false Bool.false_ne_true fun h => hfailed.ne' h.1
  · rename_i hfailed
    split
    · rename_i hpassed
      exact iff_of_false Bool.false_ne_true fun h => h.2.ne' hpassed
    · rename_i hpassed
      exact iff_of_true rfl ⟨Nat.eq_zero_of_not_pos hfailed, Nat.pos_of_ne_zero hpassed⟩

/-- **medusa.** The guard and the judge agree exactly on the reports that account for their summary. -/
theorem medusaFindings_agree_iff (tool raw : String) :
    (medusaFindings tool raw = [] ↔ (verifyMedusaOutput raw).passed = true) ↔ MedusaAccounted raw := by
  have hreads := MedusaLines.reads_foldl ((lines raw.toList).map medusaLine)
  unfold medusaFindings verifyMedusaOutput parseMedusaOutput MedusaAccounted
  simp only
  generalize (lines raw.toList).map medusaLine = ls at hreads ⊢
  generalize ls.foldl MedusaLines.add _ = acc at hreads ⊢
  rw [← hreads.summary, ← hreads.listed]
  cases hsummary : acc.summary with
  | none =>
      refine iff_of_true (iff_of_false (List.cons_ne_nil _ _) Bool.false_ne_true) ?_
      intro p f h
      cases h
  | some pf =>
      obtain ⟨p, f⟩ := pf
      show (acc.failing.map _ = [] ↔ (judgeMedusa _).passed = true) ↔ _
      rw [List.map_eq_nil_iff, hreads.named, judgeMedusa_passed]
      show (acc.listedFailed = 0 ↔ max f acc.listedFailed = 0 ∧ 0 < p) ↔ _
      constructor
      · intro hagree p' f' heq
        cases heq
        omega
      · intro haccounted
        have := haccounted p f rfl
        omega

/-! ## The result -/

/-- **The guard and the judge.** For every check of the gate and every report, the guard finds nothing exactly when the
    judge passes; for medusa this takes a report that accounts for its summary, and no other will do. -/
theorem guard_agrees_iff (ps : Parsers) (tool output : String) (htool : tool ∈ gateTools) :
    (findingsFromReport ps tool .completed (some output) = [] ↔ (judgeReport ps tool output).passed = true) ↔
      (tool = medusaFuzzTool → MedusaAccounted output) := by
  have hcontains : gateTools.contains tool = true := List.contains_iff_mem.mpr htool
  unfold findingsFromReport judgeReport
  rw [if_neg (fun h => h hcontains), if_neg (fun h => h rfl)]
  show ((if tool = forgeTestTool then _ else _) = [] ↔ _) ↔ _
  by_cases hforge : tool = forgeTestTool
  · subst hforge
    exact iff_of_true (forgeFindings_nil_iff ps _ output) (fun h => absurd h (by decide))
  · rw [if_neg hforge, if_neg hforge]
    by_cases hslither : tool = slitherScanTool
    · subst hslither
      exact iff_of_true (sarifFindings_nil_iff ps _ output .slither) (fun h => absurd h (by decide))
    · rw [if_neg hslither, if_neg hslither]
      by_cases haderyn : tool = aderynScanTool
      · subst haderyn
        exact iff_of_true (sarifFindings_nil_iff ps _ output .aderyn) (fun h => absurd h (by decide))
      · rw [if_neg haderyn, if_neg haderyn, medusaFindings_agree_iff]
        have hmedusa : tool = medusaFuzzTool := by
          unfold gateTools at htool
          simp only [List.mem_cons, List.not_mem_nil, or_false] at htool
          rcases htool with h | h | h | h
          · exact absurd h hforge
          · exact absurd h hslither
          · exact absurd h haderyn
          · exact h
        exact ⟨fun h _ => h, fun h => h hmedusa⟩

/-- Nothing parses; medusa's report is not JSON. -/
def noParsers : Parsers where
  fromStr _ := .error "not JSON"
  parseF64 _ := none

def allPassed : String := "⇾ Test summary: 1 test(s) passed, 0 test(s) failed"

/-- On a report without failures the guard and the judge agree. -/
theorem guard_agrees_allPassed :
    findingsFromReport noParsers medusaFuzzTool .completed (some allPassed) = [] ↔
      (judgeReport noParsers medusaFuzzTool allPassed).passed = true := by
  refine (guard_agrees_iff noParsers medusaFuzzTool allPassed (by decide)).mpr fun _ => ?_
  have hsummary : lastSummary ((lines allPassed.toList).map medusaLine) = some (1, 0) := by
    decide
  intro p f h
  rw [hsummary] at h
  cases h
  exact .inr ⟨rfl, Nat.one_pos⟩

/-- A summary that counts a failure no line lists. -/
def unlistedFailure : String := "⇾ Test summary: 1 test(s) passed, 1 test(s) failed"

/-- The judge fails it, and the guard finds nothing. -/
theorem unlisted_failure_not_found :
    findingsFromReport noParsers medusaFuzzTool .completed (some unlistedFailure) = [] ∧
      (judgeReport noParsers medusaFuzzTool unlistedFailure).passed = false := by
  constructor
  · decide
  · decide

end AgentRuntime.Loop
