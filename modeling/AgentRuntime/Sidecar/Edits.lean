import AgentRuntime.Code.FileEdit
import AgentRuntime.Sidecar.FsEditRuns

/-!
# `Sidecar.Edits` — edits are unambiguous, and mostly all or nothing

`fs_edit` and `file_edit` count the old text by a scan that passes over what it matched; when no two positions of the old
text overlap, this is the number of its positions. `fs_edit` fails with its change made only when the commit of the
checkpoint step fails, and says so; `file_edit` fails with the file changed only when it had truncated it
(`edits_unambiguous`).
-/

namespace AgentRuntime.Sidecar

open Json Occurrences
open AgentRuntime.Capsule (fromUtf8)
open AgentRuntime.Code (FileIo Replacement Computed fileEdit fileEdit_runs)

/-- A call of one of the two tools, with what is around it. -/
inductive EditCall where
  | fsEdit (w : Around) (args : Value) (n : Node)
  | fileEdit (io : FileIo) (params : Value) (file : List UInt8)

/-- The old text stands at this position of the content and at no other. -/
def OnlyAt (old content : String) (i : ℕ) : Prop := ∀ j, OccursAt old.toList content.toList j ↔ j = i

/-- The content with the old text at this position replaced. -/
def replacedAt (old new content : String) (i : ℕ) : String :=
  String.ofList (content.toList.take i ++ new.toList ++ content.toList.drop (i + old.toList.length))

/-- No two positions of the old text overlap. -/
def Apart (old content : String) : Prop := ¬ Overlapping old.toList content.toList

def Node.content : Node → Option (List UInt8)
  | .file bytes _ => some bytes
  | _ => none

/-! ## All or nothing -/

/-- The call changes the file only at the one position, overwrites only what it read, and a failure changes nothing. -/
def EditCall.AllOrNothing : EditCall → Prop
  | .fsEdit w args n =>
      let (r, d) := Sidecar.fsEdit w args (.start n)
      (∀ old new e, .put old new ∈ d.log → old.content ≠ new.content → Edit.parse args = .ok e →
        e.replaceAll = false → ∃ content i, old.content = some (utf8 content) ∧ OnlyAt e.oldText content i ∧
          new.content = some (utf8 (replacedAt e.oldText e.newText content i))) ∧
      (∀ old new, .put old new ∈ d.log → ∃ read, d.log.head? = some (.read read) ∧ old.content = read.content) ∧
      ∀ e, r = .error e → ∀ old new, .put old new ∈ d.log → old.content = new.content
  | .fileEdit io params file =>
      let (r, file') := Code.fileEdit io params file
      (file' ≠ file → ∃ x content i, Replacement.parse params = .ok x ∧ file = utf8 content ∧
        OnlyAt x.oldString content i ∧ file' = utf8 (replacedAt x.oldString x.newString content i)) ∧
      ∀ e, r = .error e → file' = file

/-! ## What the tools do -/

/-- What `fs_edit` does: it replaces only what it has read twice, and what another process made of it since. -/
structure FsEditKept (w : Around) (args : Value) (r : Except Refusal Unit) (d : Disk) : Prop where
  reread : ∀ old new, .put old new ∈ d.log → ∃ content linked linked',
    d.log = [.read (.file (utf8 content) linked), .read (.file (utf8 content) linked'), .put old new] ∧
      Held w (.file (utf8 content) linked') old
  unique : ∀ old new read content e, .put old new ∈ d.log → d.log.head? = some (.read read) →
    read.content = some (utf8 content) → Edit.parse args = .ok e → e.replaceAll = false → Apart e.oldText content →
      ∃ i, OnlyAt e.oldText content i ∧ new = .file (utf8 (replacedAt e.oldText e.newText content i)) false
  failed : ∀ e, r = .error e → NoPut d.log ∨ ∃ m, w.fault .commit = some m ∧ e = undoRecordError w.seq m

/-- What `file_edit` does: a file that it changes and does not leave torn is the edited one. -/
structure FileEditKept (io : FileIo) (params : Value) (file file' : List UInt8) (r : Except Code.AgentError Unit) :
    Prop where
  unique : file' ≠ file → ∃ x content, Replacement.parse params = .ok x ∧ file = utf8 content ∧
    (Apart x.oldString content → ∃ i, OnlyAt x.oldString content i ∧
      (r = .ok () → file' = utf8 (replacedAt x.oldString x.newString content i)))
  failed : ∀ e, r = .error e → file' = file ∨ io.Torn

def EditCall.Kept : EditCall → Prop
  | .fsEdit w args n => FsEditKept w args (Sidecar.fsEdit w args (.start n)).1 (Sidecar.fsEdit w args (.start n)).2
  | .fileEdit io params file =>
      FileEditKept io params file (Code.fileEdit io params file).2 (Code.fileEdit io params file).1

/-- One match, where no two positions overlap, is the only position. -/
theorem exists_onlyAt {old content : String} (new : String) (hapart : Apart old content)
    (hone : (matchesOf old.toList content.toList).length = 1) :
    ∃ i, OnlyAt old content i ∧
      String.ofList (replacen old.toList new.toList 1 content.toList) = replacedAt old new content i := by
  obtain ⟨i, hi⟩ := List.length_eq_one_iff.mp hone
  exact ⟨i, occursAt_iff_of_single hapart hi, congrArg String.ofList (replacen_single hi _)⟩

theorem Edit.compute_single {e : Edit} {before after : String} (h : e.compute before = .ok after)
    (hall : e.replaceAll = false) :
    (matchesOf e.oldText.toList before.toList).length = 1 ∧
      after = String.ofList (replacen e.oldText.toList e.newText.toList 1 before.toList) := by
  unfold Edit.compute at h
  simp only at h
  split at h
  · cases h
  · rename_i hsome
    split at h
    · cases h
    · rename_i hfew
      split at h
      · cases h
      · cases h
        simp only [hall, and_true, not_lt] at hfew
        exact ⟨by omega, by simp [Edit.apply, hall]⟩

theorem compute_single {x : Replacement} {content newContent : String} (h : x.compute content = .ok newContent) :
    (matchesOf x.oldString.toList content.toList).length = 1 ∧
      newContent = String.ofList (replacen x.oldString.toList x.newString.toList 1 content.toList) := by
  unfold Replacement.compute at h
  simp only at h
  split at h
  · cases h
  · split at h
    · cases h
    · cases h
      exact ⟨by omega, rfl⟩

theorem fsEdit_kept (w : Around) (args : Value) (n : Node) : (EditCall.fsEdit w args n).Kept := by
  obtain ⟨hok, herr⟩ := fsEdit_runs w args (.start n) rfl
  -- a replacement is that of an edited run
  have hedited : ∀ old new, Event.put old new ∈ (fsEdit w args (.start n)).2.log →
      Edited w args (fsEdit w args (.start n)).2 := by
    intro old new hput
    cases hr : (fsEdit w args (.start n)).1 with
    | ok u => exact hok u hr
    | error e =>
        rcases herr e hr with hnone | ⟨hedited, -⟩
        · exact absurd hput (hnone old new)
        · exact hedited
  refine ⟨?_, ?_, ?_⟩
  · intro old new hput
    obtain ⟨e, before, after, b, linked, linked', old', -, hbefore, -, hlog, hheld⟩ := hedited old new hput
    obtain rfl := fromUtf8_eq_utf8 hbefore
    rw [hlog] at hput ⊢
    obtain ⟨rfl, rfl⟩ : old = old' ∧ new = .file (utf8 after) false := by simpa using hput
    exact ⟨before, linked, linked', rfl, hheld⟩
  · intro old new read content e hput hhead hread hargs hall hapart
    obtain ⟨e', before, after, b, linked, linked', old', hargs', hbefore, hafter, hlog, -⟩ := hedited old new hput
    obtain rfl := Except.ok.inj (hargs.symm.trans hargs')
    obtain rfl := fromUtf8_eq_utf8 hbefore
    rw [hlog] at hput hhead
    obtain rfl := Event.read.inj (Option.some.inj hhead)
    obtain rfl := utf8_injective (Option.some.inj hread)
    obtain ⟨rfl, rfl⟩ : old = old' ∧ new = .file (utf8 after) false := by simpa using hput
    obtain ⟨hone, rfl⟩ := Edit.compute_single hafter hall
    obtain ⟨i, honly, heq⟩ := exists_onlyAt e.newText hapart hone
    exact ⟨i, honly, by rw [heq]⟩
  · intro e hr
    exact (herr e hr).imp id And.right

theorem fileEdit_kept (io : FileIo) (params : Value) (file : List UInt8) :
    (EditCall.fileEdit io params file).Kept := by
  obtain ⟨hok, herr⟩ := fileEdit_runs io params file file rfl
  have hunique {x : Replacement} {content newContent : String} (h : Computed params file x content newContent)
      (hnew : (fileEdit io params file).1 = .ok () → (fileEdit io params file).2 = utf8 newContent) :
      ∃ x content, Replacement.parse params = .ok x ∧ file = utf8 content ∧
        (Apart x.oldString content → ∃ i, OnlyAt x.oldString content i ∧
          ((fileEdit io params file).1 = .ok () →
            (fileEdit io params file).2 = utf8 (replacedAt x.oldString x.newString content i))) := by
    obtain ⟨hparse, htext, hcompute⟩ := h
    refine ⟨x, content, hparse, fromUtf8_eq_utf8 htext, fun hapart => ?_⟩
    obtain ⟨hone, hafter⟩ := compute_single hcompute
    obtain ⟨i, honly, heq⟩ := exists_onlyAt x.newString hapart hone
    exact ⟨i, honly, fun hr => by rw [hnew hr, hafter, heq]⟩
  have hend : (fileEdit io params file).1 = .ok () ∨ ∃ e, (fileEdit io params file).1 = .error e := by
    cases (fileEdit io params file).1 with
    | ok u => exact .inl rfl
    | error e => exact .inr ⟨e, rfl⟩
  refine ⟨fun hchanged => ?_, ?_⟩
  · rcases hend with hr | ⟨e, hr⟩
    · obtain ⟨x, content, newContent, hcomputed, hfile⟩ := hok () hr
      exact hunique hcomputed fun _ => hfile
    · rcases herr e hr with hsame | ⟨-, x, content, newContent, hcomputed⟩
      · exact absurd hsame hchanged
      · exact hunique hcomputed fun hr' => nomatch hr.symm.trans hr'
  · intro e hr
    exact (herr e hr).imp id And.left

/-- **Edits.** -/
theorem edits_unambiguous (call : EditCall) : call.Kept := by
  cases call with
  | fsEdit w args n => exact fsEdit_kept w args n
  | fileEdit io params file => exact fileEdit_kept io params file

/-- Only the commit of the checkpoint step fails. -/
def commitFails : Around where
  allow := .ok
  fault s := if s = .commit then some "No space left on device" else none
  others _ := id
  notFile _ := "Is a directory"
  seq := 1

def replaceOne : Value :=
  .ofEntries [("path", .string "/home/member/notes.txt"), ("old_text", .string "one"), ("new_text", .string "two")]

/-- An edit that fails after its change was made. -/
theorem commit_failed_edit : ¬ ∀ call : EditCall, call.AllOrNothing := by
  intro h
  obtain ⟨-, -, hfailed⟩ := h (.fsEdit commitFails replaceOne (.file (utf8 "one") false))
  have hrun : (fsEdit commitFails replaceOne (.start (.file (utf8 "one") false))).1 =
      .error (undoRecordError 1 "No space left on device") := by
    decide +kernel
  have hput : .put (.file (utf8 "one") false) (.file (utf8 "two") false) ∈
      (fsEdit commitFails replaceOne (.start (.file (utf8 "one") false))).2.log := by
    decide +kernel
  exact absurd (hfailed _ hrun _ _ hput) (by decide +kernel)

end AgentRuntime.Sidecar
