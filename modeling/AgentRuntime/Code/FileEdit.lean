import AgentRuntime.Capsule.Verified
import AgentRuntime.Lib.JsonValue
import AgentRuntime.Lib.Occurrences
import AgentRuntime.Lib.Prog

/-!
# `Code.FileEdit` — an edit in place (`agent-code/src/tools/file_edit.rs`)

`file_edit` reads and rewrites the file through one descriptor: it truncates the file and writes the new content from the
start. Nothing is changed before the truncation; when a step after it fails, what is left of the file is what was
written of the new content (`fileEdit_runs`).
-/

namespace AgentRuntime.Code

open Json Occurrences
open AgentRuntime.Capsule (fromUtf8)

inductive AgentError where
  | invalidParams (m : String)
  | executionFailed (m : String)
deriving DecidableEq

/-- The steps on the open file. -/
structure FileIo where
  /-- The confined open of the requested path. -/
  opened : String → Except AgentError Unit
  readFault : Option String
  setLenFault : Option String
  seekFault : Option String
  /-- The error of the write, and how many bytes were written before it. -/
  writeFault : Option (ℕ × String)

def requiredStr (params : Value) (key : String) : Except AgentError String :=
  match (params.get key).bind Value.asStr with
  | some s => .ok s
  | none => .error (.invalidParams s!"'{key}' is required")

structure Replacement where
  path : String
  oldString : String
  newString : String
deriving DecidableEq

def Replacement.parse (params : Value) : Except AgentError Replacement := do
  let path ← requiredStr params "path"
  let oldString ← requiredStr params "old_string"
  let newString ← requiredStr params "new_string"
  if oldString = newString then .error (.invalidParams "old_string and new_string must differ")
  else .ok { path, oldString, newString }

/-- The new content, when the old string is found once. -/
def Replacement.compute (r : Replacement) (content : String) : Except AgentError String :=
  let matchCount := (matchesOf r.oldString.toList content.toList).length
  if matchCount = 0 then .error (.executionFailed s!"old_string not found in '{r.path}'")
  else if 1 < matchCount then
    .error (.executionFailed s!"old_string found {matchCount} times in '{r.path}' — must be unique")
  else .ok (String.ofList (replacen r.oldString.toList r.newString.toList 1 content.toList))

section

variable (io : FileIo)

/-- A step that fails leaves the file as it is. -/
def step (fault : Option String) (f : List UInt8 → List UInt8) : Prog (List UInt8) String Unit := .act fun file =>
  match fault with
  | some e => (.error e, file)
  | none => (.ok (), f file)

/-- Write from the start of the emptied file; a write that fails leaves what it wrote. -/
def writeAll (bytes : List UInt8) : Prog (List UInt8) String Unit := .act fun _ =>
  match io.writeFault with
  | some (k, e) => (.error e, bytes.take k)
  | none => (.ok (), bytes)

def readToString : Prog (List UInt8) String String := .act fun file =>
  match io.readFault with
  | some e => (.error e, file)
  | none =>
      match fromUtf8 file with
      | some text => (.ok text, file)
      | none => (.error "stream did not contain valid UTF-8", file)

def rewrite (bytes : List UInt8) : Prog (List UInt8) String Unit := do
  step io.setLenFault fun _ => []
  step io.seekFault id
  writeAll io bytes

/-- `FileEdit::execute`. -/
def fileEdit (params : Value) : Prog (List UInt8) AgentError Unit := do
  let r ← .ofExcept (Replacement.parse params)
  .ofExcept (io.opened r.path)
  let content ← (readToString io).mapError fun e => .executionFailed s!"failed to read '{r.path}': {e}"
  let newContent ← .ofExcept (r.compute content)
  (rewrite io (utf8 newContent)).mapError fun e => .executionFailed s!"failed to write '{r.path}': {e}"

end

/-! ## Runs -/

variable {io : FileIo} {file bytes : List UInt8}

/-- The file was truncated and then not written whole. -/
def FileIo.Torn (io : FileIo) : Prop := io.setLenFault = none ∧ (io.seekFault ≠ none ∨ io.writeFault ≠ none)

theorem step_triple {fault : Option String} {f : List UInt8 → List UInt8} {E : String → List UInt8 → Prop}
    (herr : ∀ e, fault = some e → E e file) :
    Prog.Triple (fun c => c = file) (step fault f) (fun _ c => fault = none ∧ c = f file) E := by
  apply Prog.Triple.act
  · rintro c u c' rfl hrun
    split at hrun
    · cases hrun
    · cases hrun
      exact ⟨rfl, rfl⟩
  · rintro c e c' rfl hrun
    split at hrun
    · rename_i e'
      cases hrun
      exact herr e rfl
    · cases hrun

theorem rewrite_runs : Prog.Triple (fun c => c = file) (rewrite io bytes) (fun _ c => c = bytes)
    fun _ c => c = file ∨ io.Torn := by
  unfold rewrite
  refine Prog.Triple.bind (step_triple fun e _ => .inl rfl) fun _ => Prog.Triple.pre fun hset => ?_
  refine Prog.Triple.bind (step_triple fun e he => .inr ⟨hset, .inl (by simp [he])⟩) fun _ => Prog.Triple.pre fun _ => ?_
  apply Prog.Triple.act
  · rintro c u c' - hrun
    split at hrun
    · cases hrun
    · cases hrun
      rfl
  · rintro c e c' - hrun
    split at hrun
    · rename_i k e' hwrite
      exact .inr ⟨hset, .inr (by simp [hwrite])⟩
    · cases hrun

/-- What a run of the edit computed. -/
def Computed (params : Value) (file : List UInt8) (r : Replacement) (content newContent : String) : Prop :=
  Replacement.parse params = .ok r ∧ fromUtf8 file = some content ∧ r.compute content = .ok newContent

/-- **A run of `file_edit`**: a file that is changed held the old string once, by the count of the scan; it holds the
    new content, or was left torn. -/
theorem fileEdit_runs (io : FileIo) (params : Value) (file : List UInt8) :
    Prog.Triple (fun c => c = file) (fileEdit io params)
      (fun _ c => ∃ r content newContent, Computed params file r content newContent ∧ c = utf8 newContent)
      fun _ c => c = file ∨ io.Torn ∧ ∃ r content newContent, Computed params file r content newContent := by
  unfold fileEdit
  refine Prog.Triple.bind (Q := fun r c => Replacement.parse params = .ok r ∧ c = file)
    (Prog.Triple.ofExcept (fun r c h hc => ⟨h, hc⟩) fun _ c _ hc => .inl hc) fun r => Prog.Triple.pre fun hparse => ?_
  refine Prog.Triple.bind (Q := fun _ c => c = file)
    (Prog.Triple.ofExcept (fun _ c _ hc => hc) fun _ c _ hc => .inl hc) fun _ => ?_
  refine Prog.Triple.bind (Q := fun content c => fromUtf8 file = some content ∧ c = file) ?_ fun content =>
    Prog.Triple.pre fun htext => ?_
  · apply Prog.Triple.mapError
    apply Prog.Triple.act
    · rintro c text c' rfl hrun
      split at hrun
      · cases hrun
      · split at hrun
        · rename_i text' htext
          cases hrun
          exact ⟨htext, rfl⟩
        · cases hrun
    · rintro c e c' rfl hrun
      split at hrun
      · cases hrun
        exact .inl rfl
      · split at hrun
        · cases hrun
        · cases hrun
          exact .inl rfl
  refine Prog.Triple.bind (Q := fun newContent c => r.compute content = .ok newContent ∧ c = file)
    (Prog.Triple.ofExcept (fun _ c h hc => ⟨h, hc⟩) fun _ c _ hc => .inl hc) fun newContent =>
    Prog.Triple.pre fun hcompute => ?_
  apply Prog.Triple.mapError
  refine (rewrite_runs.weaken (fun c hc => hc) ?_).fail ?_
  · rintro u c rfl
    exact ⟨r, content, newContent, ⟨hparse, htext, hcompute⟩, rfl⟩
  · rintro e c (rfl | htorn)
    · exact .inl rfl
    · exact .inr ⟨htorn, r, content, newContent, hparse, htext, hcompute⟩

end AgentRuntime.Code
