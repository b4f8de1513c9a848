import AgentRuntime.Loop.Transcript

/-!
# `Loop.Compaction` — what fits into the model's context

`compactToBudget` gives up only where nothing could be sent: the system prompt and everything from the last user message
on do not fit. What it returns keeps both as they were. Of the older messages the newest stay, and of these only tool
outputs are edited.
-/

namespace AgentRuntime.Loop

/-! ## Two parts of a list -/

/-- The one edit: the text of a tool output makes way for its length. -/
def Elided (m m' : Message) : Prop :=
  m' = m ∨ (m.role = .tool ∧ m.content.startsWith "[elided" = false ∧
    m' = { m with content := elidedText m.content.length })

theorem elidedText_startsWith (n : ℕ) : (elidedText n).startsWith "[elided" = true := by
  rw [String.startsWith_string_iff]
  unfold elidedText
  rw [String.toList_append, String.toList_append, List.append_assoc]
  exact List.IsPrefix.trans ⟨[':', ' '], by decide⟩ (List.prefix_append _ _)

theorem Elided.trans {m m' m'' : Message} (h : Elided m m') (h' : Elided m' m'') : Elided m m'' := by
  rcases h with rfl | ⟨htool, hcontent, rfl⟩
  · exact h'
  · -- An elided output is not elided again.
    rcases h' with rfl | ⟨-, hagain, -⟩
    · exact .inr ⟨htool, hcontent, rfl⟩
    · rw [elidedText_startsWith] at hagain
      cases hagain

/-- The messages fit into the window, with the room for the reply reserved. -/
def Fits (counter : TokenCounter) (budget : ContextBudget) (messages : List Message) : Prop :=
  counter.countMessages messages ≤ budget.maxContextTokens - budget.reserveForOutput

instance (counter : TokenCounter) (budget : ContextBudget) (messages : List Message) :
    Decidable (Fits counter budget messages) :=
  inferInstanceAs (Decidable (_ ≤ _))

end AgentRuntime.Loop
