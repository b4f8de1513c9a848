import AgentRuntime.Loop.Message

/-!
# `Loop.Taint` — a session's taint (`TaintState`)

The state is shared by everything that holds a clone of it, so it is one value here and each lock of it one
access. It keeps the first source and every source since the session was last clean.
-/

namespace AgentRuntime.Loop

/-- What tainted a session. -/
structure TaintRecord where
  source : String
  reason : String
deriving DecidableEq

structure TaintState where
  record : Option TaintRecord
  sources : Finset String
deriving DecidableEq

namespace TaintState

def clean : TaintState where
  record := none
  sources := ∅

def isTainted (t : TaintState) : Bool := t.record.isSome

/-- Mark the session tainted; true only when this call flipped it. The first source stays the record. -/
def taint (t : TaintState) (source reason : String) : Bool × TaintState :=
  let sources := insert source t.sources
  match t.record with
  | some record => (false, { record := some record, sources := sources })
  | none => (true, { record := some { source := source, reason := reason }, sources := sources })

/-- The only way a taint is cleared. -/
def clearByMember (_t : TaintState) : TaintState := clean

@[simp] theorem isTainted_clean : clean.isTainted = false := rfl

@[simp] theorem isTainted_taint (t : TaintState) (source reason : String) :
    (t.taint source reason).2.isTainted = true := by
  unfold taint isTainted
  cases t.record with
  | none => rfl
  | some record => rfl

@[simp] theorem sources_taint (t : TaintState) (source reason : String) :
    (t.taint source reason).2.sources = insert source t.sources := by
  unfold taint
  cases t.record with
  | none => rfl
  | some record => rfl

/-- The first source stays the record. -/
theorem record_taint {t : TaintState} {record : TaintRecord} (h : t.record = some record)
    (source reason : String) : (t.taint source reason).2.record = some record := by
  unfold taint
  rw [h]

end TaintState

end AgentRuntime.Loop
