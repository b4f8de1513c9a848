import AgentRuntime.Loop.Message

/-!
# `Loop.Context` — tool retrieval and the context budget (`agent-loop/src/lib.rs`)

Which tool schemas a request offers, and how its messages are fitted into the model's context.
-/

namespace AgentRuntime.Loop

open Words

/-! ## Tool retrieval -/

/-- The words left out of the keyword score. -/
def stopwords : List String :=
  ["a", "an", "the", "and", "or", "to", "of", "in", "on", "for", "my", "me", "i", "is", "are", "it", "its",
    "this", "that", "what", "whats", "how", "many", "much", "do", "does", "can", "you", "please", "with",
    "from", "at", "by", "be"]

/-- A plural `s` is dropped. -/
def singular (w : String) : String :=
  if 3 < w.length ∧ w.endsWith "s" ∧ ¬ w.endsWith "ss" then String.ofList w.toList.dropLast else w

section

variable (toLowercase : String → String)

/-- The words of a text: split at what is not ASCII alphanumeric, short words and stopwords left out. -/
def words (s : String) : List String :=
  (((toLowercase s).toList.splitOnP fun c => !c.isAlphanum).map String.ofList
    |>.filter fun w => decide (2 ≤ w.length) && !stopwords.contains w).map singular

/-- Three points for each query word in the tool's name, one for each in its description. -/
def keywordScores (query : String) (specs : List ToolSpec) : List ℕ :=
  specs.map fun s =>
    ((words toLowercase query).map fun w =>
      3 * (words toLowercase s.name).count w + (words toLowercase s.description).count w).sum

/-- `KeywordSelector::select`: the best `k`, or the first `k` with no signal at all. -/
def keywordSelect (query : String) (specs : List ToolSpec) (k : ℕ) : List ToolSpec :=
  let scored := specs.zip (keywordScores toLowercase query specs)
  if scored.all fun s => s.2 == 0 then specs.take k
  else
    (((scored.mergeSort fun a b => decide (b.2 ≤ a.2)).filter fun s => decide (0 < s.2)).take k).map Prod.fst

end

/-- The names of the tools used in the conversation, most recent first, as far as they are in `rest`. -/
def inUse (history : List Message) (rest : List ToolSpec) : List String :=
  (history.reverse.flatMap fun m => m.toolCalls.reverse.map ToolCall.name).foldl
    (fun used name =>
      if !used.contains name && rest.any fun s => s.name == name then used ++ [name] else used) []

/-- The tools in use, as long as there is room. -/
def offerInUse (cap : ℕ) (rest : List ToolSpec) : List String → List ToolSpec → List ToolSpec
  | [], out => out
  | name :: names, out =>
      if out.length ≥ cap then out
      else
        match rest.find? fun s => s.name == name with
        | some s => offerInUse cap rest names (out ++ [s])
        | none => offerInUse cap rest names out

/-- The selector's picks, as long as there is room. -/
def offerSelected (cap room base : ℕ) : List ToolSpec → List ToolSpec → List ToolSpec
  | [], out => out
  | s :: rest, out =>
      if out.length - base ≥ room || out.length ≥ cap then out
      else if out.any fun o => o.name == s.name then offerSelected cap room base rest out
      else offerSelected cap room base rest (out ++ [s])

/-- The tool schemas for one request: pinned tools, then tools in use, then the selector's picks over the
    rest, up to `k` of these. `total` caps the whole list. -/
def offeredTools (specs : List ToolSpec) (history : List Message) (user : String) (k : Option ℕ)
    (pinned : List String) (select : String → List ToolSpec → ℕ → List ToolSpec) (total : Option ℕ) :
    List ToolSpec :=
  let cap := total.getD (u64Bound - 1)
  match k.or total with
  | none => specs
  | some k =>
      let isPinned := fun s : ToolSpec => pinned.contains s.name
      let out := (specs.filter isPinned).take cap
      let rest := specs.filter fun s => !isPinned s
      let used := inUse history rest
      offerSelected cap (max k used.length) out.length (select user rest k) (offerInUse cap rest used out)

/-! ## The context budget -/

/-- Counts tokens. -/
structure TokenCounter where
  count : String → ℕ

def TokenCounter.countMessages (counter : TokenCounter) (msgs : List Message) : ℕ :=
  (msgs.map fun m =>
    4 + counter.count m.content
      + (m.toolCalls.map fun c => counter.count c.name + counter.count c.arguments).sum).sum

/-- The model's context window and the room reserved for its reply. -/
structure ContextBudget where
  maxContextTokens : ℕ
  reserveForOutput : ℕ

def elidedText (n : ℕ) : String := "[elided: " ++ toString n ++ " characters of earlier tool output]"

/-- Elide the tool outputs at the given positions, oldest first, until the messages fit. -/
def elide (fits : List Message → Bool) : List ℕ → List Message → List Message
  | [], out => out
  | i :: rest, out =>
      match out[i]? with
      | none => elide fits rest out
      | some m =>
          if m.role = .tool ∧ ¬ m.content.startsWith "[elided" then
            let out := out.set i { m with content := elidedText m.content.length }
            if fits out then out else elide fits rest out
          else elide fits rest out

/-- The position of the latest user message. -/
def lastUser (msgs : List Message) : Option ℕ :=
  (msgs.reverse.findIdx? fun m => decide (m.role = .user)).map fun i => msgs.length - 1 - i

/-- The tool results at the front are dropped, but never the last message. -/
def dropResults : List Message → List Message
  | m :: m' :: rest => if m.role = .tool then dropResults (m' :: rest) else m :: m' :: rest
  | msgs => msgs

/-- Drop the oldest message after the system prompt, and the tool results that follow it. -/
def dropExchange : List Message → List Message
  | first :: _ :: rest => first :: dropResults rest
  | msgs => msgs

theorem length_dropResults_le (msgs : List Message) : (dropResults msgs).length ≤ msgs.length := by
  induction msgs using dropResults.induct with
  | case1 m m' rest htool ih =>
      rw [dropResults, if_pos htool]
      exact ih.trans (Nat.le_succ _)
  | case2 m m' rest htool => rw [dropResults, if_neg htool]
  | case3 msgs hshort =>
      unfold dropResults
      split
      · exact absurd rfl (hshort _ _ _)
      · exact le_refl _

theorem length_dropExchange_lt {msgs : List Message} (h : 2 < msgs.length) :
    (dropExchange msgs).length < msgs.length := by
  match msgs, h with
  | first :: m :: rest, _ =>
      show (dropResults rest).length + 1 < rest.length + 2
      exact Nat.succ_lt_succ (Nat.lt_succ_of_le (length_dropResults_le rest))

/-- Drop the oldest exchanges until the messages fit: never the system prompt, nor the latest user message. -/
def shrink (fits : List Message → Bool) (out : List Message) : List Message :=
  if fits out then out
  else if _h : (lastUser out).getD 0 ≤ 1 ∨ out.length ≤ 2 then out
  else shrink fits (dropExchange out)
termination_by out.length
decreasing_by exact length_dropExchange_lt (not_le.mp (not_or.mp _h).2)

def overBudgetText (limit : ℕ) : String :=
  "the prompt exceeds the model's context budget (" ++ toString limit ++
    " tokens available) even after compaction"

/-- Fit the messages into the budget, or say that they do not fit. -/
def compactToBudget (msgs : List Message) (budget : ContextBudget) (counter : TokenCounter) :
    Except String (List Message) :=
  let limit := budget.maxContextTokens - budget.reserveForOutput
  let fits := fun m => decide (counter.countMessages m ≤ limit)
  if fits msgs then .ok msgs
  else
    let before := counter.countMessages msgs
    let out := elide fits (List.range ((lastUser msgs).getD (msgs.length - 1))) msgs
    let out := shrink fits out
    if fits out = false ∨ counter.countMessages out ≥ before then .error (overBudgetText limit)
    else .ok out

end AgentRuntime.Loop
