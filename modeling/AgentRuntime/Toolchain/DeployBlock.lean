import AgentRuntime.Lib.Recency
import AgentRuntime.Loop.DeployGuard
import AgentRuntime.Loop.Message
import Mathlib.Data.List.MinMax
import Mathlib.Data.List.Sort

/-!
# `Toolchain.DeployBlock` — what blocks a deploy now (`agent-sidecar/src/toolchain_reports.rs`, `deploy_guard.rs`)

A session keeps the latest report of each (project, tool), at most sixteen, and drops the oldest. The guard reads them:
the findings of the gate's tools on the project of the newest report block a deploy.

The table holds the reports of the sixteen pairs that were reported last (`latest_eq`); so the block is the one of all
the runs exactly while no blocking report has left it (`block_standing_iff`).
-/

namespace AgentRuntime.Toolchain

open Loop

/-! ## Reports -/

structure GateReport where
  project : String
  /-- The raw report. -/
  output : String
deriving DecidableEq

structure ToolchainEnvelope where
  tool : String
  status : RunStatus
  summary : String
  gate : Option GateReport
  /-- The fields that are not read here. -/
  other : String

structure StoredReport where
  seq : ℕ
  tool : String
  project : String
  status : RunStatus
  summary : String
  capturedAtMs : ℕ
  gate : Option GateReport
deriving DecidableEq

def StoredReport.key (r : StoredReport) : String × String := (r.project, r.tool)

def maxReports : ℕ := 16

/-- The reports by (project, tool). The order of the entries is never looked at. -/
structure ToolchainReports where
  next : ℕ
  latest : List StoredReport

namespace ToolchainReports

def empty : ToolchainReports where
  next := 0
  latest := []

/-- The oldest are dropped, one by one, while there are too many. -/
def evict : ℕ → List StoredReport → List StoredReport
  | 0, latest => latest
  | fuel + 1, latest =>
      if maxReports < latest.length then
        match latest.argmin StoredReport.seq with
        | some oldest => evict fuel (latest.filter fun r => r.key ≠ oldest.key)
        | none => latest
      else latest

def keep (reports : ToolchainReports) (report : StoredReport) : ToolchainReports :=
  let report := { report with seq := reports.next + 1 }
  let latest := reports.latest.filter (fun r => r.key ≠ report.key) ++ [report]
  { next := reports.next + 1, latest := evict latest.length latest }

/-- Every kept report, oldest first. -/
def list (reports : ToolchainReports) : List StoredReport :=
  reports.latest.insertionSort fun r s => r.seq ≤ s.seq

end ToolchainReports

/-! ## Capture -/

/-- What the capture of a result relies on: how envelopes and arguments are read, and where a path leads at a time. -/
structure Envelopes where
  fromContent : String → Option ToolchainEnvelope
  toContent : ToolchainEnvelope → String
  parse : String → Option Json.Value
  canonicalize : ℕ → String → Option String

/-- The project folder that a call named. -/
def callProject (envelopes : Envelopes) (call : ToolCall) (now : ℕ) : Option String := do
  let v ← envelopes.parse call.arguments
  let p := String.ofList (Text.trim (← (← v.get "project").asStr).toList)
  if p.toList.head? ≠ some '/' then none else some ((envelopes.canonicalize now p).getD p)

/-- The names of the toolchain's tools. -/
def toolNames : List String := [forgeTestTool, slitherScanTool, aderynScanTool, medusaFuzzTool]

/-- The report that a run leaves, if it was a run of a project. -/
def report (envelopes : Envelopes) (call : ToolCall) (env : ToolchainEnvelope) (now : ℕ) : Option StoredReport :=
  ((env.gate.map GateReport.project).or (callProject envelopes call now)).bind fun project =>
    if env.status = .refused then none
    else
      some { seq := 0, tool := env.tool, project, status := env.status, summary := env.summary, capturedAtMs := now,
             gate := env.gate }

def capture (envelopes : Envelopes) (reports : ToolchainReports) (call : ToolCall) (outcome : ToolOutcome) (now : ℕ) :
    ToolchainReports × ToolOutcome :=
  let captured (content : String) (wrap : String → ToolOutcome) : ToolchainReports × ToolOutcome :=
    match envelopes.fromContent content with
    | none => (reports, outcome)
    | some env =>
        let reports :=
          match report envelopes call env now with
          | some r => reports.keep r
          | none => reports
        (reports, wrap (envelopes.toContent { env with gate := none }))
  match outcome with
  | .ok content => captured content .ok
  | .error content => captured content .error
  | .untrusted _ => (reports, outcome)
  | .vouched _ => (reports, outcome)
  | .denied _ => (reports, outcome)

/-- A tool's result as the session's host passes it on. -/
structure Result where
  call : ToolCall
  outcome : ToolOutcome
  now : ℕ

/-- One call through the host that keeps the reports. -/
def execute (envelopes : Envelopes) (reports : ToolchainReports) (r : Result) : ToolchainReports × ToolOutcome :=
  if toolNames.contains r.call.name then capture envelopes reports r.call r.outcome r.now else (reports, r.outcome)

/-- The reports of a session after these calls. -/
def session (envelopes : Envelopes) (results : List Result) : ToolchainReports :=
  results.foldl (fun reports r => (execute envelopes reports r).1) .empty

/-! ## The guard -/

structure DeployBlock where
  project : String
  findings : List GateFinding
deriving DecidableEq

def contractDeployTool : String := "contract_deploy"

/-- The findings of one report. -/
def StoredReport.findings (ps : Parsers) (tool : String) (r : StoredReport) : List GateFinding :=
  findingsFromReport ps tool r.status (r.gate.map GateReport.output)

/-- The findings that block a deploy of the project with the newest report. -/
def block (ps : Parsers) (reports : ToolchainReports) : Option DeployBlock :=
  let all := reports.list
  (all.argmax StoredReport.seq).bind fun newest =>
    let project := newest.project
    let findings := gateTools.flatMap fun tool =>
      match (all.filter fun r => r.project = project ∧ r.tool = tool).argmax StoredReport.seq with
      | some r => r.findings ps tool
      | none => []
    if findings = [] then none else some ⟨project, findings⟩

/-- The refusal of the current block; `text` writes it, with the proposed fixes. -/
def refusal (ps : Parsers) (text : DeployBlock → String) (reports : ToolchainReports) : Option String :=
  (block ps reports).map text

def decline (ps : Parsers) (text : DeployBlock → String) (reports : ToolchainReports) (call : ToolCall) :
    Option String :=
  if call.name ≠ contractDeployTool then none else refusal ps text reports

/-! ## All the runs -/

/-- The report of a result, if the session keeps one. -/
def Result.report (envelopes : Envelopes) (r : Result) : Option StoredReport :=
  if toolNames.contains r.call.name then
    match r.outcome with
    | .ok content => (envelopes.fromContent content).bind fun env => Toolchain.report envelopes r.call env r.now
    | .error content => (envelopes.fromContent content).bind fun env => Toolchain.report envelopes r.call env r.now
    | _ => none
  else none

/-- Numbered from one. -/
def numbered (l : List StoredReport) : List StoredReport := l.mapIdx fun i r => { r with seq := i + 1 }

/-- All reports that a session ever kept, numbered in order. -/
def history (envelopes : Envelopes) (results : List Result) : List StoredReport :=
  numbered (results.filterMap (Result.report envelopes))

/-- The most recent report of a tool on a project. -/
def mostRecent (history : List StoredReport) (project tool : String) : Option StoredReport :=
  (history.filter fun r => r.project = project ∧ r.tool = tool).getLast?

/-- What blocks a deploy by all the runs: the findings of each gate tool's most recent run on the project of the latest
    run. -/
def standing (ps : Parsers) (history : List StoredReport) : Option DeployBlock :=
  history.getLast?.bind fun newest =>
    let findings := gateTools.flatMap fun tool =>
      match mostRecent history newest.project tool with
      | some r => r.findings ps tool
      | none => []
    if findings = [] then none else some ⟨newest.project, findings⟩

/-- Fewer than sixteen pairs were reported since the last report under this one's pair. -/
def InReach (history : List StoredReport) (r : StoredReport) : Prop :=
  ((history.rtakeWhile fun s => s.key ≠ r.key).map StoredReport.key).dedup.length < maxReports

/-! ## The table holds the pairs reported last -/

/-- Numbered one after the other. -/
def Numbered (l : List StoredReport) : Prop := l.Pairwise fun r s => r.seq < s.seq

theorem argmin_numbered {r : StoredReport} {l : List StoredReport} (h : Numbered (r :: l)) :
    (r :: l).argmin StoredReport.seq = some r := by
  have hmin := (List.pairwise_cons.mp h).1
  rw [← Option.mem_def, List.mem_argmin_iff]
  refine ⟨List.mem_cons_self .., ?_, ?_⟩
  · intro s hs
    rcases List.mem_cons.mp hs with rfl | hs
    · exact le_refl _
    · exact (hmin s hs).le
  · intro s _ _
    simp

theorem argmax_numbered {l : List StoredReport} (h : Numbered l) : l.argmax StoredReport.seq = l.getLast? := by
  induction l using List.reverseRecOn with
  | nil => rfl
  | append_singleton l r _ =>
      have hmax := (List.pairwise_append.mp h).2.2
      rw [List.getLast?_concat, ← Option.mem_def, List.mem_argmax_iff]
      refine ⟨by simp, ?_, ?_⟩
      · intro s hs
        rcases List.mem_append.mp hs with hs | hs
        · exact (hmax s hs r (List.mem_singleton_self r)).le
        · rw [List.mem_singleton.mp hs]
      · intro s hs hle
        rcases List.mem_append.mp hs with hs | hs
        · exact absurd (hmax s hs r (List.mem_singleton_self r)) (not_lt.mpr hle)
        · rw [List.mem_singleton.mp hs]

namespace ToolchainReports

/-- The oldest are those in front. -/
theorem evict_eq {fuel : ℕ} {l : List StoredReport} (h : Numbered l) (hkeys : (l.map StoredReport.key).Nodup)
    (hfuel : l.length ≤ fuel) : evict fuel l = l.rtake maxReports := by
  induction fuel generalizing l with
  | zero =>
      rw [List.length_eq_zero_iff.mp (Nat.le_zero.mp hfuel)]
      rfl
  | succ fuel ih =>
      unfold evict
      split
      · rename_i hmany
        cases l with
        | nil => cases hmany
        | cons r l =>
            obtain ⟨hnew, hrest⟩ := List.nodup_cons.mp hkeys
            have hothers : (r :: l).filter (fun s => s.key ≠ r.key) = l := by
              rw [List.filter_cons_of_neg (by simp), List.filter_eq_self]
              intro s hs
              have hne : s.key ≠ r.key := fun hkey => hnew (List.mem_map.mpr ⟨s, hs, hkey⟩)
              simpa using hne
            rw [argmin_numbered h]
            simp only [hothers]
            rw [ih (List.pairwise_cons.mp h).2 hrest (Nat.le_of_succ_le_succ hfuel)]
            unfold List.rtake
            rw [List.length_cons] at hmany ⊢
            rw [show l.length + 1 - maxReports = (l.length - maxReports) + 1 by omega, List.drop_succ_cons]
      · rename_i hfew
        unfold List.rtake
        rw [Nat.sub_eq_zero_of_le (not_lt.mp hfew), List.drop_zero]

end ToolchainReports

theorem numbered_concat (l : List StoredReport) (r : StoredReport) :
    numbered (l ++ [r]) = numbered l ++ [{ r with seq := l.length + 1 }] := List.mapIdx_concat

theorem numbered_spec (l : List StoredReport) : Numbered (numbered l) ∧ ∀ r ∈ numbered l, r.seq ≤ l.length := by
  induction l using List.reverseRecOn with
  | nil => exact ⟨List.Pairwise.nil, by simp [numbered]⟩
  | append_singleton l r ih =>
      rw [numbered_concat, List.length_append, List.length_singleton]
      constructor
      · refine List.pairwise_append.mpr ⟨ih.1, List.pairwise_singleton _ _, ?_⟩
        intro s hs t ht
        rw [List.mem_singleton.mp ht]
        exact Nat.lt_succ_of_le (ih.2 s hs)
      · intro s hs
        rcases List.mem_append.mp hs with hs | hs
        · exact (ih.2 s hs).trans (Nat.le_succ _)
        · rw [List.mem_singleton.mp hs]

/-- **The table** holds the reports of the pairs reported last. -/
theorem latest_eq (l : List StoredReport) :
    (l.foldl ToolchainReports.keep .empty).next = l.length ∧
      (l.foldl ToolchainReports.keep .empty).latest =
        (numbered l).foldl (Recency.touch StoredReport.key maxReports) [] := by
  induction l using List.reverseRecOn with
  | nil => exact ⟨rfl, rfl⟩
  | append_singleton l r ih =>
      obtain ⟨hnext, hlatest⟩ := ih
      rw [List.foldl_append, List.foldl_cons, List.foldl_nil, numbered_concat, List.foldl_append, List.foldl_cons,
        List.foldl_nil, ← hlatest, List.length_append, List.length_singleton]
      refine ⟨by simp only [ToolchainReports.keep, hnext], ?_⟩
      simp only [ToolchainReports.keep, hnext]
      -- the table with the new report is the end of a numbered list without a key twice
      have htable : (l.foldl ToolchainReports.keep .empty).latest =
          (Recency.recent StoredReport.key (numbered l)).rtake maxReports :=
        hlatest.trans (Recency.foldl_touch 15 (numbered l))
      have hsub : (l.foldl ToolchainReports.keep .empty).latest.Sublist
          (Recency.recent StoredReport.key (numbered l)) := by
        rw [htable]
        exact List.drop_sublist _ _
      apply ToolchainReports.evict_eq
      · refine List.pairwise_append.mpr ⟨?_, List.pairwise_singleton _ _, ?_⟩
        · exact (numbered_spec l).1.sublist
            (List.filter_sublist.trans (hsub.trans (Recency.recent_sublist (numbered l))))
        · intro s hs t ht
          rw [List.mem_singleton.mp ht]
          have hmem := (hsub.trans (Recency.recent_sublist (numbered l))).subset (List.mem_of_mem_filter hs)
          exact Nat.lt_succ_of_le ((numbered_spec l).2 s hmem)
      · rw [List.map_append, List.nodup_append]
        refine ⟨?_, by simp, ?_⟩
        · exact (Recency.nodup_keys_recent (numbered l)).sublist ((List.filter_sublist.trans hsub).map _)
        · rintro k hk k' hk' rfl
          obtain ⟨s, hs, rfl⟩ := List.mem_map.mp hk
          have hne := (List.mem_filter.mp hs).2
          simp only [List.map_cons, List.map_nil, List.mem_singleton] at hk'
          simp [hk'] at hne
      · exact le_refl _

/-- What a session keeps is what its results leave. -/
theorem session_eq (envelopes : Envelopes) (results : List Result) :
    session envelopes results = (results.filterMap (Result.report envelopes)).foldl ToolchainReports.keep .empty := by
  unfold session
  generalize ToolchainReports.empty = reports
  induction results generalizing reports with
  | nil => rfl
  | cons r results ih =>
      have hone : (execute envelopes reports r).1 =
          ((r.report envelopes).toList).foldl ToolchainReports.keep reports := by
        unfold execute Result.report
        split
        · unfold capture
          cases r.outcome with
          | ok content =>
              simp only
              cases envelopes.fromContent content with
              | none => rfl
              | some env =>
                  simp only [Option.bind_some]
                  cases report envelopes r.call env r.now <;> rfl
          | error content =>
              simp only
              cases envelopes.fromContent content with
              | none => rfl
              | some env =>
                  simp only [Option.bind_some]
                  cases report envelopes r.call env r.now <;> rfl
          | untrusted _ => rfl
          | vouched _ => rfl
          | denied _ => rfl
        · rfl
      rw [List.foldl_cons, hone, ih]
      cases hreport : r.report envelopes with
      | none => rw [List.filterMap_cons_none hreport]; rfl
      | some stored => rw [List.filterMap_cons_some hreport]; rfl

/-! ## What the guard sees -/

/-- The table of all the runs. -/
def table (history : List StoredReport) : List StoredReport :=
  history.foldl (Recency.touch StoredReport.key maxReports) []

theorem table_eq (history : List StoredReport) :
    table history = (Recency.recent StoredReport.key history).rtake maxReports := Recency.foldl_touch 15 history

theorem table_sublist (history : List StoredReport) : (table history).Sublist history := by
  rw [table_eq]
  exact (List.drop_sublist _ _).trans (Recency.recent_sublist history)

/-- The reports that the guard reads. -/
theorem list_session (envelopes : Envelopes) (results : List Result) :
    (session envelopes results).list = table (history envelopes results) := by
  unfold ToolchainReports.list
  rw [session_eq, (latest_eq _).2]
  apply List.Pairwise.insertionSort_eq
  have hnumbered : Numbered (table (history envelopes results)) := (numbered_spec _).1.sublist (table_sublist _)
  exact hnumbered.imp fun hlt => hlt.le

/-- The newest report is always in the table. -/
theorem getLast?_table (history : List StoredReport) : (table history).getLast? = history.getLast? := by
  induction history using List.reverseRecOn with
  | nil => rfl
  | append_singleton history r _ =>
      rw [table_eq, Recency.recent_concat, Recency.replace, show maxReports = 15 + 1 from rfl, Recency.rtake_concat,
        List.getLast?_concat, List.getLast?_concat]

/-- The last item that satisfies a predicate. -/
theorem getLast?_filter {α : Type} {p : α → Bool} {l : List α} {x : α} (h : (l.filter p).getLast? = some x) :
    ∃ before after, l = before ++ x :: after ∧ p x = true ∧ ∀ y ∈ after, p y = false := by
  induction l using List.reverseRecOn with
  | nil => cases h
  | append_singleton l y ih =>
      rw [List.filter_append] at h
      by_cases hy : p y = true
      · rw [List.filter_cons_of_pos hy, List.filter_nil, List.getLast?_concat] at h
        cases h
        exact ⟨l, [], rfl, hy, by simp⟩
      · rw [List.filter_cons_of_neg hy, List.filter_nil, List.append_nil] at h
        obtain ⟨before, after, rfl, hx, hafter⟩ := ih h
        refine ⟨before, after ++ [y], by simp, hx, ?_⟩
        intro z hz
        rcases List.mem_append.mp hz with hz | hz
        · exact hafter z hz
        · rw [List.mem_singleton.mp hz]
          simpa using hy

theorem key_eq_iff {r : StoredReport} {project tool : String} :
    r.key = (project, tool) ↔ r.project = project ∧ r.tool = tool := Prod.ext_iff

/-- **What the guard finds** of a tool on a project: the most recent report, while it is in reach. -/
theorem lookup_table (history : List StoredReport) (project tool : String) (r : StoredReport)
    (h : mostRecent history project tool = some r) :
    ((table history).filter fun r => r.project = project ∧ r.tool = tool).getLast? = some r ∧ InReach history r ∨
      ((table history).filter fun r => r.project = project ∧ r.tool = tool) = [] ∧ ¬ InReach history r := by
  obtain ⟨before, after, hsplit, hr, hafter⟩ := getLast?_filter h
  have hr : r.key = (project, tool) := key_eq_iff.mpr (of_decide_eq_true hr)
  have hlast : r.key ∉ after.map StoredReport.key := by
    intro hmem
    obtain ⟨s, hs, hkey⟩ := List.mem_map.mp hmem
    exact of_decide_eq_false (hafter s hs) (key_eq_iff.mp (hkey.trans hr))
  have hsince : history.rtakeWhile (fun s => s.key ≠ r.key) = after := by
    rw [hsplit, ← List.singleton_append, ← List.append_assoc, List.rtakeWhile, List.reverse_append,
      List.takeWhile_append_of_pos]
    · simp
    · intro s hs
      have hs := List.mem_reverse.mp hs
      have hne : s.key ≠ r.key := fun hkey => hlast (List.mem_map.mpr ⟨s, hs, hkey⟩)
      simpa using hne
  have hmem : r ∈ table history ↔ InReach history r := by
    unfold InReach table
    rw [hsince, hsplit]
    exact Recency.mem_table_iff (n := 15) hlast
  -- no other report in the table is of the same pair
  have honly : ∀ s ∈ (table history).filter (fun r => r.project = project ∧ r.tool = tool), s = r := by
    intro s hs
    obtain ⟨hs, hkey⟩ := List.mem_filter.mp hs
    have hkey : s.key = r.key := (key_eq_iff.mpr (of_decide_eq_true hkey)).trans hr.symm
    rw [table_eq] at hs
    have hrecent : r ∈ Recency.recent StoredReport.key history := hsplit ▸ Recency.mem_recent hlast
    exact List.inj_on_of_nodup_map (Recency.nodup_keys_recent history) (List.mem_of_mem_drop hs) hrecent hkey
  by_cases hin : r ∈ table history
  · refine .inl ⟨?_, hmem.mp hin⟩
    have hkept : r ∈ (table history).filter fun r => r.project = project ∧ r.tool = tool :=
      List.mem_filter.mpr ⟨hin, decide_eq_true (key_eq_iff.mp hr)⟩
    rw [List.getLast?_eq_some_getLast (List.ne_nil_of_mem hkept)]
    exact congrArg some (honly _ (List.getLast_mem _))
  · refine .inr ⟨?_, fun hreach => hin (hmem.mpr hreach)⟩
    rw [List.eq_nil_iff_forall_not_mem]
    intro s hs
    exact hin (honly s hs ▸ (List.mem_filter.mp hs).1)

theorem lookup_table_none {history : List StoredReport} {project tool : String}
    (h : mostRecent history project tool = none) :
    ((table history).filter fun r => r.project = project ∧ r.tool = tool) = [] := by
  have hnone := List.getLast?_eq_none_iff.mp h
  exact List.eq_nil_of_sublist_nil (hnone ▸ (table_sublist history).filter _)

/-- The findings of a tool on a project, as the guard reads them. -/
def seenFindings (ps : Parsers) (all : List StoredReport) (project tool : String) : List GateFinding :=
  match (all.filter fun r => r.project = project ∧ r.tool = tool).argmax StoredReport.seq with
  | some r => r.findings ps tool
  | none => []

/-- The findings of the most recent run of a tool on a project. -/
def runFindings (ps : Parsers) (history : List StoredReport) (project tool : String) : List GateFinding :=
  match mostRecent history project tool with
  | some r => r.findings ps tool
  | none => []

/-- Tool by tool, the guard sees the findings of the most recent run, or misses them when they are out of reach. -/
theorem seenFindings_cases (ps : Parsers) {history : List StoredReport} (hnumbered : Numbered history)
    (project tool : String) :
    (seenFindings ps (table history) project tool = runFindings ps history project tool ∧
        ∀ r, mostRecent history project tool = some r → r.findings ps tool ≠ [] → InReach history r) ∨
      (seenFindings ps (table history) project tool = [] ∧ runFindings ps history project tool ≠ [] ∧
        ∃ r, mostRecent history project tool = some r ∧ r.findings ps tool ≠ [] ∧ ¬ InReach history r) := by
  have htable : Numbered (table history) := hnumbered.sublist (table_sublist history)
  unfold seenFindings runFindings
  rw [argmax_numbered (htable.sublist List.filter_sublist)]
  cases hrecent : mostRecent history project tool with
  | none =>
      rw [lookup_table_none hrecent]
      exact .inl ⟨rfl, by simp⟩
  | some r =>
      rcases lookup_table history project tool r hrecent with ⟨hsome, hreach⟩ | ⟨hnone, hfar⟩
      · rw [hsome]
        refine .inl ⟨rfl, ?_⟩
        rintro _ ⟨⟩ _
        exact hreach
      · rw [hnone]
        by_cases hfindings : r.findings ps tool = []
        · refine .inl ⟨hfindings.symm, ?_⟩
          rintro _ ⟨⟩ hne
          exact absurd hfindings hne
        · exact .inr ⟨rfl, hfindings, r, rfl, hfindings, hfar⟩

/-- Lists that lose members in some places only are equal when nothing is lost. -/
theorem flatMap_eq_iff {α β : Type} {f g : α → List β} {l : List α} (h : ∀ x ∈ l, f x = g x ∨ f x = []) :
    l.flatMap f = l.flatMap g ↔ ∀ x ∈ l, f x = g x := by
  have hle : ∀ m : List α, (∀ x ∈ m, f x = g x ∨ f x = []) → (m.flatMap f).length ≤ (m.flatMap g).length := by
    intro m hm
    induction m with
    | nil => exact le_refl _
    | cons x m ih =>
        have ih := ih fun y hy => hm y (List.mem_cons_of_mem _ hy)
        simp only [List.flatMap_cons, List.length_append]
        rcases hm x (List.mem_cons_self ..) with heq | heq
        · rw [heq]
          exact Nat.add_le_add_left ih _
        · rw [heq]
          exact Nat.add_le_add (Nat.zero_le _) ih
  constructor
  · intro heq
    induction l with
    | nil => simp
    | cons x l ih =>
        have hrest := fun y hy => h y (List.mem_cons_of_mem _ hy)
        have hshort := hle l hrest
        have hlength := congrArg List.length heq
        simp only [List.flatMap_cons, List.length_append] at hlength
        have hx : f x = g x := by
          rcases h x (List.mem_cons_self ..) with hx | hx
          · exact hx
          · rw [hx, List.length_nil] at hlength
            rw [hx, List.length_eq_zero_iff.mp (by omega : (g x).length = 0)]
        rw [List.flatMap_cons, List.flatMap_cons, hx] at heq
        intro y hy
        rcases List.mem_cons.mp hy with rfl | hy
        · exact hx
        · exact ih hrest (List.append_cancel_left heq) y hy
  · intro hall
    exact List.flatMap_congr hall

theorem ofFindings_inj {project : String} {l m : List GateFinding} :
    (if l = [] then none else some (DeployBlock.mk project l)) = (if m = [] then none else some ⟨project, m⟩) ↔
      l = m := by
  by_cases hl : l = []
  · by_cases hm : m = []
    · simp [hl, hm]
    · simp [hl, hm, eq_comm]
  · by_cases hm : m = []
    · simp [hl, hm]
    · simp [hl, hm]

/-- **The block.** The guard's block is the one of all the runs, and `contract_deploy` is refused exactly while it
    stands, if and only if every report with findings on the project of the latest run is in reach. -/
theorem block_standing_iff (ps : Parsers) (envelopes : Envelopes) (text : DeployBlock → String) (results : List Result) :
    (block ps (session envelopes results) = standing ps (history envelopes results) ∧
        ∀ call, (decline ps text (session envelopes results) call).isSome = true ↔
          call.name = contractDeployTool ∧ (standing ps (history envelopes results)).isSome = true) ↔
      ∀ newest, (history envelopes results).getLast? = some newest → ∀ tool ∈ gateTools, ∀ r,
        mostRecent (history envelopes results) newest.project tool = some r → r.findings ps tool ≠ [] →
          InReach (history envelopes results) r := by
  have hlist := list_session envelopes results
  have hnumbered : Numbered (history envelopes results) := (numbered_spec _).1
  generalize history envelopes results = h at hlist hnumbered ⊢
  have hdecline : block ps (session envelopes results) = standing ps h →
      ∀ call, (decline ps text (session envelopes results) call).isSome = true ↔
        call.name = contractDeployTool ∧ (standing ps h).isSome = true := by
    intro hblock call
    unfold decline refusal
    rw [hblock]
    by_cases hname : call.name = contractDeployTool
    · rw [if_neg (not_not.mpr hname), Option.isSome_map]
      exact ⟨fun hsome => ⟨hname, hsome⟩, fun hsome => hsome.2⟩
    · rw [if_pos hname]
      exact iff_of_false Bool.false_ne_true fun hsome => hname hsome.1
  rw [and_iff_left_of_imp hdecline]
  have htable : Numbered (table h) := hnumbered.sublist (table_sublist h)
  unfold block standing
  simp only [hlist]
  rw [argmax_numbered htable, getLast?_table]
  cases hnewest : h.getLast? with
  | none => exact iff_of_true rfl (by simp)
  | some newest =>
      simp only [Option.bind_some, Option.some.injEq, forall_eq']
      show (if gateTools.flatMap (seenFindings ps (table h) newest.project) = [] then none
          else some (DeployBlock.mk newest.project (gateTools.flatMap (seenFindings ps (table h) newest.project)))) =
        (if gateTools.flatMap (runFindings ps h newest.project) = [] then none
          else some (DeployBlock.mk newest.project (gateTools.flatMap (runFindings ps h newest.project)))) ↔ _
      rw [ofFindings_inj, flatMap_eq_iff fun tool _ =>
        (seenFindings_cases ps hnumbered newest.project tool).imp (fun hsame => hsame.1) fun hmissed => hmissed.1]
      constructor
      · intro hsame tool htool
        rcases seenFindings_cases ps hnumbered newest.project tool with ⟨-, hreach⟩ | ⟨hnil, hsome, -⟩
        · exact hreach
        · exact absurd (hnil ▸ hsame tool htool).symm hsome
      · intro hreach tool htool
        rcases seenFindings_cases ps hnumbered newest.project tool with ⟨hsame, -⟩ | ⟨-, -, r, hr, hfindings, hfar⟩
        · exact hsame
        · exact absurd (hreach tool htool r hr hfindings) hfar

/-! ### A finding that is dropped -/

/-- A report of a run, as a tool's result carries it. -/
def runContent (project tool : String) (status : RunStatus) (output : String) : String :=
  "\x7b\"schema\":\"citrate.toolchain/1\",\"tool\":\"" ++ tool ++ "\",\"status\":\"" ++ statusWord status ++
    "\",\"summary\":\"\",\"gate\":\x7b\"project\":\"" ++ project ++ "\",\"output\":\"" ++ output ++
    "\",\"duration_ms\":1\x7d\x7d"

/-- forge_test times out on `/p`, every tool on four other projects, and medusa_fuzz then passes on `/p`. -/
def droppedRuns : List (String × String × RunStatus × String) :=
  ("/p", forgeTestTool, .timedOut, "") ::
    (["/a", "/b", "/c", "/d"].flatMap fun project => gateTools.map fun tool => (project, tool, .timedOut, "")) ++
    [("/p", medusaFuzzTool, .completed, allPassed)]

/-- Their envelopes are read from their text. -/
def droppedEnvelopes : Envelopes where
  fromContent content :=
    (droppedRuns.find? fun r => runContent r.1 r.2.1 r.2.2.1 r.2.2.2 = content).map fun r =>
      { tool := r.2.1, status := r.2.2.1, summary := "", gate := some ⟨r.1, r.2.2.2⟩, other := "" }
  toContent _ := ""
  parse _ := none
  canonicalize _ _ := none

def droppedResults : List Result :=
  droppedRuns.map fun r => ⟨⟨"1", r.2.1, "\x7b\x7d"⟩, .ok (runContent r.1 r.2.1 r.2.2.1 r.2.2.2), 0⟩

/-- forge_test's finding on `/p` stands, and the guard does not see it. -/
theorem finding_dropped : ¬ ∀ (ps : Parsers) (envelopes : Envelopes) (results : List Result),
    block ps (session envelopes results) = standing ps (history envelopes results) := by
  intro h
  have hsame := h noParsers droppedEnvelopes droppedResults
  have hblock : block noParsers (session droppedEnvelopes droppedResults) = none := by decide +kernel
  have hstanding : (standing noParsers (history droppedEnvelopes droppedResults)).isSome = true := by decide +kernel
  rw [← hsame, hblock] at hstanding
  cases hstanding

end AgentRuntime.Toolchain
