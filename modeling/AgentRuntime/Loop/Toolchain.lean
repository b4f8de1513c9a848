import AgentRuntime.Lib.JsonValue
import AgentRuntime.Loop.Workflow

/-!
# `Loop.Toolchain` — the toolchain's reports and their judges (`agent-loop/src/verifiers_tooling.rs`)

`forge test --json`, SARIF logs of slither and aderyn, and medusa's console output: each is parsed to counts and a
capped list of names, and judged by its counts. What the code takes from elsewhere (`serde_json::from_str` with its
error's text, `str::parse::<f64>`) is a parameter.
-/

namespace AgentRuntime.Loop

open Words Text Json

/-- The parsers of other crates. -/
structure Parsers where
  /-- `serde_json::from_str::<Value>`, or its error's text. -/
  fromStr : String → Except String Value
  /-- `str::parse::<f64>`. -/
  parseF64 : String → Option Float

def forgeTestTool : String := "forge_test"
def slitherScanTool : String := "slither_scan"
def aderynScanTool : String := "aderyn_scan"
def medusaFuzzTool : String := "medusa_fuzz"

/-- At most this many findings or failing names are listed; counts are always complete. -/
def maxListedFindings : ℕ := 20

def maxIdChars : ℕ := 80
def maxNameChars : ℕ := 160
def namesInReason : ℕ := 5

/-! ## Verdicts -/

structure ToolchainVerdict where
  passed : Bool
  reason : String
  evidence : Value

namespace ToolchainVerdict

/-- `fail_unparsed`; `tool` is what the reason starts with. -/
def failUnparsed (tool err : String) : ToolchainVerdict where
  passed := false
  reason := tool ++ ": " ++ err
  evidence := .object [("error", .string err)]

def toVerdict (v : ToolchainVerdict) : Verdict := if v.passed then .pass else .fail v.reason

end ToolchainVerdict

def plural (n : ℕ) (one many : String) : String := toString n ++ " " ++ if n = 1 then one else many

/-- The first `left` characters, identifier-shaped; dots for the rest. -/
def cleanChars (space : Bool) : ℕ → List Char → List Char
  | _, [] => []
  | 0, _ :: _ => "...".toList
  | left + 1, c :: cs =>
      let ok := c.isAlphanum || "_.:/()[],-@$#=+>".toList.contains c || (space && c = ' ')
      (if ok then c else '_') :: cleanChars space left cs

def clean (s : String) (space : Bool) (max : ℕ) : String := String.ofList (cleanChars space max s.toList)

/-- The JSON object in a report: the whole text, or the span from the first to the last brace. -/
def jsonObject (ps : Parsers) (raw : List Char) : Except String Value :=
  let t := trim raw
  if t = [] then .error "the tool printed nothing on stdout"
  else
    match ps.fromStr (String.ofList t) with
    | .ok v => .ok v
    | .error _ =>
        match breakOn ['\x7b'] t, breakOnLast ['\x7d'] t with
        | some (before, found), some (upTo, _) =>
            if before.length < upTo.length then
              match ps.fromStr (String.ofList (found.take (upTo.length + 1 - before.length))) with
              | .ok v => .ok v
              | .error e => .error ("the output is not valid JSON (" ++ e ++ ")")
            else .error "the output contains no JSON report"
        | _, _ => .error "the output contains no JSON report"

/-! ## `forge test --json` -/

structure ForgeTestReport where
  suites : ℕ
  passed : ℕ
  failed : ℕ
  skipped : ℕ
  failing : List String

namespace ForgeTestReport

def total (r : ForgeTestReport) : ℕ := r.passed + r.failed + r.skipped

def toValue (r : ForgeTestReport) : Value :=
  .object
    [("failed", .number (.posInt r.failed)), ("failing", .array (r.failing.map .string)),
      ("passed", .number (.posInt r.passed)), ("skipped", .number (.posInt r.skipped)),
      ("suites", .number (.posInt r.suites))]

/-- One test's result is counted: what is neither a success nor skipped failed. -/
def count (r : ForgeTestReport) (suite : String) (test : String × Value) : ForgeTestReport :=
  match (test.2.get "status").bind Value.asStr with
  | some "Success" => { r with passed := r.passed + 1 }
  | some "Skipped" => { r with skipped := r.skipped + 1 }
  | _ =>
      { r with
        failed := r.failed + 1
        failing :=
          if r.failing.length < maxListedFindings then
            r.failing ++ [clean (suite ++ "::" ++ test.1) false maxNameChars]
          else r.failing }

/-- The tests of one suite are counted. -/
def countSuite (r : ForgeTestReport) (suite : String × Value) : Except String ForgeTestReport :=
  match (suite.2.get "test_results").bind Value.asObject with
  | none =>
      .error ("not a forge test --json report (suite " ++ clean suite.1 false maxNameChars ++
        " has no test_results)")
  | some tests => .ok (tests.foldl (fun r test => r.count suite.1 test) r)

end ForgeTestReport

def parseForgeTestJson (ps : Parsers) (raw : String) : Except String ForgeTestReport := do
  let v ← jsonObject ps raw.toList
  match v.asObject with
  | none => .error "not a forge test --json report (expected an object of suites)"
  | some suites =>
      suites.foldlM ForgeTestReport.countSuite
        { suites := suites.length, passed := 0, failed := 0, skipped := 0, failing := [] }

/-- Pass only when at least one test ran and none failed. -/
def judgeForgeTest (r : ForgeTestReport) : ToolchainVerdict :=
  if 0 < r.failed then
    { passed := false
      reason := "forge test: " ++ toString r.failed ++ " of " ++ toString r.total ++ " tests failed: " ++
        ", ".intercalate (r.failing.take namesInReason)
      evidence := r.toValue }
  else if r.passed = 0 then { passed := false, reason := "forge test: no tests ran", evidence := r.toValue }
  else
    let skipped := if 0 < r.skipped then ", " ++ toString r.skipped ++ " skipped" else ""
    { passed := true
      reason := "forge test: all " ++ plural r.passed "test" "tests" ++ " passed (" ++
        plural r.suites "suite" "suites" ++ skipped ++ ")"
      evidence := r.toValue }

def verifyForgeTestOutput (ps : Parsers) (raw : String) : ToolchainVerdict :=
  match parseForgeTestJson ps raw with
  | .ok r => judgeForgeTest r
  | .error e => .failUnparsed "forge test" e

/-! ## SARIF 2.1.0 -/

inductive Severity where
  | info
  | low
  | medium
  | high
  | critical
deriving DecidableEq

namespace Severity

def rank : Severity → ℕ
  | .info => 0
  | .low => 1
  | .medium => 2
  | .high => 3
  | .critical => 4

/-- At least as severe as `t`. -/
def atLeast (s t : Severity) : Bool := decide (t.rank ≤ s.rank)

def asStr : Severity → String
  | .info => "info"
  | .low => "low"
  | .medium => "medium"
  | .high => "high"
  | .critical => "critical"

/-- The buckets of a `security-severity` score. -/
def fromScore (f : Float) : Option Severity :=
  if f.isFinite = false ∨ f < 0 then none
  else if f ≥ 9 then some .critical
  else if f ≥ 7 then some .high
  else if f ≥ 4 then some .medium
  else if f > 0 then some .low
  else some .info

end Severity

/-- Which producer's conventions to apply. -/
inductive SarifProfile where
  | slither
  | aderyn
  | generic
deriving DecidableEq

namespace SarifProfile

def expectedDriver : SarifProfile → Option String
  | .slither => some "Slither"
  | .aderyn => some "Aderyn"
  | .generic => none

/-- The severity of a SARIF level; what is unknown is high. -/
def level (p : SarifProfile) (level : String) : Severity :=
  if level = "none" then .info
  else if level = "note" then .low
  else if level = "warning" then if p = .aderyn then .high else .medium
  else .high

end SarifProfile

structure SeverityCounts where
  critical : ℕ
  high : ℕ
  medium : ℕ
  low : ℕ
  info : ℕ

namespace SeverityCounts

def add (c : SeverityCounts) : Severity → SeverityCounts
  | .critical => { c with critical := c.critical + 1 }
  | .high => { c with high := c.high + 1 }
  | .medium => { c with medium := c.medium + 1 }
  | .low => { c with low := c.low + 1 }
  | .info => { c with info := c.info + 1 }

def total (c : SeverityCounts) : ℕ := c.critical + c.high + c.medium + c.low + c.info

/-- Findings whose severity is at least `t`. -/
def atOrAbove (c : SeverityCounts) (t : Severity) : ℕ :=
  ([(Severity.critical, c.critical), (.high, c.high), (.medium, c.medium), (.low, c.low), (.info, c.info)].filter
    fun s => s.1.atLeast t).map Prod.snd |>.sum

end SeverityCounts

/-- One finding, structure only. -/
structure SarifFinding where
  ruleId : String
  severity : Severity
  location : Option String

structure SarifReport where
  tool : String
  counts : SeverityCounts
  findings : List SarifFinding
  findingsOmitted : ℕ

def SarifFinding.toValue (f : SarifFinding) : Value :=
  .object
    ((f.location.map fun l => ("location", Value.string l)).toList ++
      [("rule_id", .string f.ruleId), ("severity", .string f.severity.asStr)])

def SeverityCounts.toValue (c : SeverityCounts) : Value :=
  .object
    [("critical", .number (.posInt c.critical)), ("high", .number (.posInt c.high)),
      ("info", .number (.posInt c.info)), ("low", .number (.posInt c.low)), ("medium", .number (.posInt c.medium))]

def score (ps : Parsers) (props : Option Value) : Option Severity :=
  match props.bind fun p => p.get "security-severity" with
  | some (.number n) => Severity.fromScore n.asF64
  | some (.string t) => (ps.parseF64 (String.ofList (trim t.toList))).bind Severity.fromScore
  | _ => none

/-- Slither's rule ids are `<impact>-<confidence>-<check>`. -/
def slitherPrefix (ruleId : String) : Option Severity :=
  match ruleId.toList.splitOn '-' with
  | impact :: _ :: _ :: _ =>
      if impact = ['0'] then some .high
      else if impact = ['1'] then some .medium
      else if impact = ['2'] then some .low
      else if impact = ['3'] ∨ impact = ['4'] then some .info
      else none
  | _ => none

/-- The text between aderyn's markers, when they are there. -/
def stripStdoutMarkers (raw : List Char) : List Char :=
  match breakOn "STDOUT START".toList raw with
  | some (_, found) =>
      let body := found.drop "STDOUT START".length
      match breakOnLast "STDOUT END".toList body with
      | some (before, _) => before
      | none => body
  | none => raw

/-- The rule a result is about, its id, and its severity. -/
def resultRule (rules : List Value) (res : Value) : Option Value × String :=
  let index := ((res.get "ruleIndex").orElse fun _ => res.pointer ["rule", "index"]).bind Value.asU64
  let id := ((res.get "ruleId").orElse fun _ => res.pointer ["rule", "id"]).bind Value.asStr
  let byIndex := index.bind fun i => rules[i]?
  let rule := byIndex.orElse fun _ =>
    id.bind fun id => rules.find? fun r => (r.get "id").bind Value.asStr == some id
  let ruleId := (id.orElse fun _ => (rule.bind fun r => r.get "id").bind Value.asStr).getD "(unnamed rule)"
  (rule, ruleId)

def resultSeverity (ps : Parsers) (profile : SarifProfile) (kind : String) (rule : Option Value) (ruleId : String)
    (res : Value) : Severity :=
  if kind = "informational" then .info
  else
    let scored := ((score ps (res.get "properties")).orElse fun _ =>
      score ps (rule.bind fun r => r.get "properties")).orElse fun _ =>
        if profile = .slither then slitherPrefix ruleId else none
    scored.getD
      (profile.level ((((res.get "level").bind Value.asStr).orElse fun _ =>
        (rule.bind fun r => r.pointer ["defaultConfiguration", "level"]).bind Value.asStr).getD "warning"))

def resultLocation (res : Value) : Option String := do
  let p ← res.pointer ["locations", "0", "physicalLocation"]
  let uri ← (p.pointer ["artifactLocation", "uri"]).bind Value.asStr
  let text := match (p.pointer ["region", "startLine"]).bind Value.asU64 with
    | some l => uri ++ ":" ++ toString l
    | none => uri
  return clean text false maxNameChars

/-- What a result reports, unless it reports a pass. -/
def resultFinding (ps : Parsers) (profile : SarifProfile) (rules : List Value) (res : Value) :
    Option SarifFinding :=
  let kind := ((res.get "kind").bind Value.asStr).getD "fail"
  if kind = "pass" ∨ kind = "notApplicable" then none
  else
    let (rule, ruleId) := resultRule rules res
    some
      { ruleId := clean ruleId false maxIdChars
        severity := resultSeverity ps profile kind rule ruleId res
        location := resultLocation res }

/-- What is gathered over the runs of a log. -/
structure SarifRuns where
  tool : String
  counts : SeverityCounts
  findings : List SarifFinding

def SarifRuns.add (acc : SarifRuns) (f : SarifFinding) : SarifRuns :=
  { acc with counts := acc.counts.add f.severity, findings := acc.findings ++ [f] }

/-- One run of a log; anything but a complete, successful run of the expected driver is an error. -/
def sarifRun (ps : Parsers) (profile : SarifProfile) (acc : SarifRuns) (run : Value) : Except String SarifRuns :=
  let driver := run.pointer ["tool", "driver"]
  let name := ((driver.bind fun d => d.get "name").bind Value.asStr).getD ""
  let unexpected := profile.expectedDriver.filter fun want =>
    asciiLower name.toList != asciiLower want.toList
  match unexpected with
  | some want =>
      .error ("expected " ++ want ++ " SARIF, got a log from \"" ++ clean name true maxIdChars ++ "\"")
  | none =>
      let acc := if acc.tool = "" then { acc with tool := clean name true maxIdChars } else acc
      let invocations := ((run.get "invocations").bind Value.asArray).getD []
      if invocations.any fun i => (i.get "executionSuccessful").bind Value.asBool == some false then
        .error "the scanner reported an unsuccessful run"
      else
        match (run.get "results").bind Value.asArray with
        | none => .error "a run has no results array (the scan did not complete)"
        | some results =>
            let rules := ((driver.bind fun d => d.get "rules").bind Value.asArray).getD []
            .ok ((results.filterMap (resultFinding ps profile rules)).foldl SarifRuns.add acc)

/-- The most severe findings first, as they came within a severity. -/
def bySeverity (findings : List SarifFinding) : List SarifFinding :=
  findings.mergeSort fun f g => f.severity.atLeast g.severity

def parseSarif (ps : Parsers) (raw : String) (profile : SarifProfile) : Except String SarifReport := do
  let v ← jsonObject ps (stripStdoutMarkers raw.toList)
  if (v.get "version").bind Value.asStr ≠ some "2.1.0" then
    .error "not a SARIF 2.1.0 log"
  else
    let runs := ((v.get "runs").bind Value.asArray).getD []
    if runs.isEmpty then
      .error "the SARIF log has no runs"
    else
      let acc ← runs.foldlM (sarifRun ps profile)
        { tool := "", counts := { critical := 0, high := 0, medium := 0, low := 0, info := 0 }, findings := [] }
      return {
        tool := acc.tool
        counts := acc.counts
        findings := (bySeverity acc.findings).take maxListedFindings
        findingsOmitted := acc.findings.length - maxListedFindings }

/-- The rules of the findings at or above a severity, without repeats. -/
def namedRules (findings : List SarifFinding) (threshold : Severity) : List String :=
  (findings.filter fun f => f.severity.atLeast threshold).foldl
    (fun rules f => if !rules.contains f.ruleId && rules.length < namesInReason then rules ++ [f.ruleId] else rules) []

/-- Pass only when no finding is at or above `threshold`. -/
def judgeSarif (r : SarifReport) (threshold : Severity) : ToolchainVerdict :=
  let evidence : Value :=
    .object
      [("counts", r.counts.toValue), ("findings", .array (r.findings.map SarifFinding.toValue)),
        ("findings_omitted", .number (.posInt r.findingsOmitted)), ("threshold", .string threshold.asStr),
        ("tool", .string r.tool)]
  let n := r.counts.atOrAbove threshold
  let tool := if r.tool = "" then "scan" else r.tool
  if n = 0 then
    { passed := true
      reason := tool ++ ": no findings at or above " ++ threshold.asStr ++ " (" ++
        plural r.counts.total "finding" "findings" ++ " below it)"
      evidence }
  else
    { passed := false
      reason := tool ++ ": " ++ plural n "finding" "findings" ++ " at or above " ++ threshold.asStr ++ ": " ++
        ", ".intercalate (namedRules r.findings threshold)
      evidence }

def verifySarifOutput (ps : Parsers) (raw : String) (profile : SarifProfile) (threshold : Severity) :
    ToolchainVerdict :=
  match parseSarif ps raw profile with
  | .ok r => judgeSarif r threshold
  | .error e => .failUnparsed "sarif" e

/-! ## medusa -/

structure MedusaReport where
  passed : ℕ
  failed : ℕ
  failing : List String
  calls : Option ℕ
  testLimitReached : Bool

def MedusaReport.toValue (r : MedusaReport) : Value :=
  .object
    [("calls", (r.calls.map fun n => Value.number (.posInt n)).getD .null),
      ("failed", .number (.posInt r.failed)), ("failing", .array (r.failing.map .string)),
      ("passed", .number (.posInt r.passed)), ("test_limit_reached", .bool r.testLimitReached)]

/-- The rest of a text after the final byte of an escape sequence. -/
def afterCsi : List Char → List Char
  | [] => []
  | c :: s => if '@' ≤ c ∧ c ≤ '~' then s else afterCsi s

/-- The text without its ANSI escape sequences; `fuel` bounds the characters read. -/
def stripAnsiFuel : ℕ → List Char → List Char
  | 0, _ => []
  | _, [] => []
  | fuel + 1, c :: s =>
      if c = '\x1b' then
        match s with
        | '[' :: s => stripAnsiFuel fuel (afterCsi s)
        | s => stripAnsiFuel fuel s
      else c :: stripAnsiFuel fuel s

def stripAnsi (s : List Char) : List Char := stripAnsiFuel s.length s

def medusaTestKinds : List String := ["Property Test:", "Assertion Test:", "Optimization Test:"]

/-- The first number of a text, when it fits 64 bits. -/
def firstNumber (s : List Char) : Option ℕ :=
  let digits := firstDigits s
  if digits = [] ∨ decimalValue digits ≥ u64Bound then none else some (decimalValue digits)

/-- What a line of medusa's output says. -/
inductive MedusaLine where
  | summary (passed failed : ℕ)
  | failed (name : String)
  | calls (n : ℕ)
  | testLimitReached
  | other
deriving DecidableEq

/-- The two numbers of a summary line; "failed" is searched after "passed". -/
def summaryOf (rest : List Char) : Option (ℕ × ℕ) := do
  let (before, found) ← breakOn "passed".toList rest
  let (between, _) ← breakOn "failed".toList found
  let p ← firstNumber before
  let f ← firstNumber between
  return (p, f)

/-- One line; only log lines, which begin with an arrow, count. -/
def medusaLine (line : List Char) : MedusaLine :=
  match strip ['⇾'] ((stripAnsi line).dropWhile fun c => c = ' ') with
  | none => .other
  | some body =>
      let body := trim body
      match strip "Test summary:".toList body with
      | some rest =>
          match summaryOf rest with
          | some (p, f) => .summary p f
          | none => .other
      | none =>
          match strip "[FAILED]".toList body with
          | some rest =>
              let name := trim rest
              if medusaTestKinds.any fun k => k.toList.isPrefixOf name then .failed (String.ofList name) else .other
          | none =>
              if "fuzz:".toList.isPrefixOf body then
                match (breakOn "calls:".toList body).bind fun found => firstNumber (found.2.drop "calls:".length) with
                | some n => .calls n
                | none => .other
              else if "Transaction test limit reached".toList.isPrefixOf body then .testLimitReached
              else .other

/-- What is gathered over the lines. -/
structure MedusaLines where
  summary : Option (ℕ × ℕ)
  listedFailed : ℕ
  failing : List String
  calls : Option ℕ
  testLimitReached : Bool

def MedusaLines.add (acc : MedusaLines) : MedusaLine → MedusaLines
  | .summary p f => { acc with summary := some (p, f) }
  | .failed name =>
      { acc with
        listedFailed := acc.listedFailed + 1
        failing :=
          if acc.failing.length < maxListedFindings then acc.failing ++ [clean name true maxNameChars]
          else acc.failing }
  | .calls n => { acc with calls := some n }
  | .testLimitReached => { acc with testLimitReached := true }
  | .other => acc

def parseMedusaOutput (raw : String) : Except String MedusaReport :=
  let acc := ((lines raw.toList).map medusaLine).foldl MedusaLines.add
    { summary := none, listedFailed := 0, failing := [], calls := none, testLimitReached := false }
  match acc.summary with
  | none => .error "no test summary in medusa output; the run did not finish"
  | some (p, f) =>
      .ok
        { passed := p
          failed := max f acc.listedFailed
          failing := acc.failing
          calls := acc.calls
          testLimitReached := acc.testLimitReached }

/-- Pass only when at least one test ran and none failed. -/
def judgeMedusa (r : MedusaReport) : ToolchainVerdict :=
  if 0 < r.failed then
    { passed := false
      reason := "medusa: " ++ toString r.failed ++ " of " ++ toString ((r.passed + r.failed) % u64Bound) ++
        " tests failed: " ++ ", ".intercalate (r.failing.take namesInReason)
      evidence := r.toValue }
  else if r.passed = 0 then
    { passed := false, reason := "medusa: no property or assertion tests ran", evidence := r.toValue }
  else
    let calls := (r.calls.map fun c => ", " ++ toString c ++ " calls").getD ""
    let limit := if r.testLimitReached then ", call budget reached" else ""
    { passed := true
      reason := "medusa: all " ++ plural r.passed "test" "tests" ++ " passed" ++ calls ++ limit
      evidence := r.toValue }

def verifyMedusaOutput (raw : String) : ToolchainVerdict :=
  match parseMedusaOutput raw with
  | .ok r => judgeMedusa r
  | .error e => .failUnparsed "medusa" e

/-! ## How a run ended -/

inductive RunStatus where
  | completed
  | notInstalled
  | timedOut
  | refused
  | failed
deriving DecidableEq

end AgentRuntime.Loop
