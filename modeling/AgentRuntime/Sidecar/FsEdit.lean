import AgentRuntime.Capsule.Verified
import AgentRuntime.Lib.JsonValue
import AgentRuntime.Lib.Occurrences
import AgentRuntime.Lib.Prog

/-!
# `Sidecar.FsEdit` — an exact text replacement (`agent-sidecar/src/files.rs`)

`fs_edit` reads the file, computes the edited text, begins a checkpoint step, reads the file again, and replaces it
through a temp sibling and a rename when it still is what was edited. Each I/O step may fail, and another process may
change the file before it (`Around`); what the grants say of the path is part of what is around the call. The log of a
run has what the call read and what its rename put in place of what.
-/

namespace AgentRuntime.Sidecar

open Json Occurrences
open AgentRuntime.Capsule (fromUtf8)

def maxContentBytes : ℕ := 4 * 1024 * 1024

/-- What stands under the checked path. -/
inductive Node where
  | absent
  | link
  | folder
  /-- A regular file, and whether it has other hard links. -/
  | file (bytes : List UInt8) (hardLinked : Bool)
deriving DecidableEq

inductive Refusal where
  | policy (m : String)
  | failed (m : String)
deriving DecidableEq

/-! ## Arguments -/

def strArg (args : Value) (key : String) : Except Refusal String :=
  match args.get key with
  | some (.string s) =>
      if key = "content" ∨ key = "new_text" ∨ s ≠ "" then .ok s else .error (.failed s!"{key} is required (a string)")
  | _ => .error (.failed s!"{key} is required (a string)")

def replaceAllArg (args : Value) : Except Refusal Bool :=
  match args.get "replace_all" with
  | none | some .null => .ok false
  | some (.bool b) => .ok b
  | some _ => .error (.failed "replace_all must be true or false")

/-- What an edit is asked to do. -/
structure Edit where
  path : String
  oldText : String
  newText : String
  replaceAll : Bool
deriving DecidableEq

def Edit.parse (args : Value) : Except Refusal Edit := do
  let path ← strArg args "path"
  let oldText ← strArg args "old_text"
  let newText ← strArg args "new_text"
  let replaceAll ← replaceAllArg args
  if oldText = "" then .error (.failed "old_text is empty")
  return { path, oldText, newText, replaceAll }

/-- The text after the edit. -/
def Edit.apply (e : Edit) (before : String) : String :=
  let old := e.oldText.toList
  let new := e.newText.toList
  String.ofList (if e.replaceAll then replace old new before.toList else replacen old new 1 before.toList)

/-- The edited text, when the old text is there and it is clear which one is meant. -/
def Edit.compute (e : Edit) (before : String) : Except Refusal String :=
  let n := (matchesOf e.oldText.toList before.toList).length
  if n = 0 then .error (.failed s!"old_text was not found in {e.path}; nothing was changed")
  else if 1 < n ∧ e.replaceAll = false then
    .error (.failed s!"old_text appears {n} times in {e.path}; give more context or set replace_all")
  else
    let after := e.apply before
    if maxContentBytes < after.utf8ByteSize then
      .error (.failed
        s!"the edited file would be {after.utf8ByteSize} bytes, over the {maxContentBytes}-byte limit")
    else .ok after

/-! ## What is around a call -/

/-- The I/O steps of a call, in their order. -/
inductive Io where
  | leafStat
  | stat
  | opened
  | beginStep
  | statAgain
  | openedAgain
  | createDir
  | openDir
  | createTemp
  | writeTemp
  | syncTemp
  | statTarget
  | chmodTemp
  | rename
  | unlinkTemp
  | commit
deriving DecidableEq

/-- The steps of the write, after the file was read again. -/
def Io.writing : Io → Bool
  | .createDir | .openDir | .createTemp | .writeTemp | .syncTemp | .statTarget | .chmodTemp | .rename => true
  | _ => false

/-- What the grants, the disk and other processes do around one call. -/
structure Around where
  /-- The grant and deny-list check: the path it allows. -/
  allow : String → Except Refusal String
  /-- The error of a step that fails. -/
  fault : Io → Option String
  /-- What another process makes of the file before a step. -/
  others : Io → Node → Node
  /-- What the system says when this cannot be opened or replaced as a file. -/
  notFile : Node → String
  /-- The number of the checkpoint step. -/
  seq : ℕ

inductive Event where
  | read (n : Node)
  /-- The rename put `new` in place of `old`. -/
  | put (old new : Node)
deriving DecidableEq

structure Disk where
  node : Node
  temp : Option (List UInt8)
  log : List Event

/-- A disk before the call. -/
def Disk.start (n : Node) : Disk := ⟨n, none, []⟩

section

variable (w : Around)

/-- Another process changes the file; then the step fails or goes on. -/
def io (s : Io) : Prog Disk String Unit := .act fun d =>
  match w.fault s with
  | some e => (.error e, { d with node := w.others s d.node })
  | none => (.ok (), { d with node := w.others s d.node })

/-- A refusal of what stands under the path before anything is read. -/
def leafRefusal (path : String) : Prog Disk Refusal Unit := do
  match ← (io w .leafStat).attempt with
  | .error _ => pure ()
  | .ok () =>
      match ← .read Disk.node with
      | .link => .throw (.policy s!"{path} is a symbolic link")
      | .folder => .throw (.failed s!"{path} is not a regular file")
      | .file _ true =>
          .throw (.policy s!"{path} has other hard links, so writing it could change a file outside the grant")
      | _ => pure ()

/-- What was read of the file, which is logged. -/
def readBytes : Prog Disk Node Unit := .act fun d =>
  match d.node with
  | .file b l => (.ok (), { d with log := d.log ++ [.read (.file b l)] })
  | n => (.error n, d)

/-- A regular file as UTF-8 text, within the size limit. -/
def readText (statIo openIo : Io) (path : String) : Prog Disk Refusal String := do
  (io w statIo).mapError fun e => .failed s!"{path}: {e}"
  match ← .read Disk.node with
  | .absent => .throw (.failed s!"{path} does not exist")
  | .link => .throw (.failed s!"{path} is a symbolic link; edit its target instead")
  | .folder => .throw (.failed s!"{path} is not a regular file")
  | .file bytes _ =>
      if maxContentBytes < bytes.length then
        .throw (.failed s!"{path} is {bytes.length} bytes, over the {maxContentBytes}-byte edit limit")
      else do
        (io w openIo).mapError fun e => .failed s!"{path}: {e}"
        let node ← .read Disk.node
        readBytes.mapError fun n => .failed s!"{path}: {w.notFile n}"
        match node with
        | .file bytes _ =>
            if maxContentBytes < bytes.length then
              .throw (.failed s!"{path} grew past the {maxContentBytes}-byte edit limit while it was read")
            else
              match fromUtf8 bytes with
              | some text => pure text
              | none => .throw (.failed s!"{path} is not UTF-8 text")
        | n => .throw (.failed s!"{path}: {w.notFile n}")

/-- The temp sibling takes these bytes. -/
def setTemp (temp : Option (List UInt8)) : Prog Disk String Unit := .act fun d => (.ok (), { d with temp })

/-- The temp sibling takes the place of the file. -/
def renameTemp : Prog Disk String Unit := .act fun d =>
  match d.node, d.temp with
  | .folder, _ => (.error (w.notFile .folder), d)
  | _, none => (.error (w.notFile .absent), d)
  | old, some bytes =>
      (.ok (), { node := .file bytes false, temp := none, log := d.log ++ [.put old (.file bytes false)] })

/-- The temp sibling takes the permissions of a replaced regular file. -/
def keepPermissions : Prog Disk String Unit := do
  match ← (io w .statTarget).attempt with
  | .error _ => pure ()
  | .ok () =>
      match ← .read Disk.node with
      | .file _ _ => io w .chmodTemp
      | _ => pure ()

/-- Go on after a failure. -/
def attempted (x : Prog Disk String Unit) : Prog Disk String (Except String Unit) := x.attempt

/-- A new temp file, written, synced, given the permissions of the file and renamed over it. -/
def replaceInDir (bytes : List UInt8) : Prog Disk String Unit := do
  io w .createTemp
  setTemp (some [])
  let res ← attempted do
    io w .writeTemp
    setTemp (some bytes)
    io w .syncTemp
    keepPermissions w
    io w .rename
    renameTemp w
  match res with
  | .ok () => pure ()
  | .error e => do
      let _ ← attempted do
        io w .unlinkTemp
        setTemp none
      .throw e

def writeFile (bytes : List UInt8) : Prog Disk String Unit := do
  (io w .createDir).mapError fun e => s!"could not create the folder: {e}"
  (io w .openDir).mapError fun e => s!"write failed: {e}"
  (replaceInDir w bytes).mapError fun e => s!"write failed: {e}"

/-- Write only if the file still holds what the edit was computed from. -/
def writeIfUnchanged (path expected : String) (bytes : List UInt8) : Prog Disk String Unit := do
  let now ← (readText w .statAgain .openedAgain path).mapError fun
    | .policy m => m
    | .failed m => m
  if now = expected then writeFile w bytes
  else .throw s!"{path} changed while it was being edited; nothing was changed"

def undoRecordError (seq : ℕ) (e : String) : Refusal :=
  .failed s!"the change was made, but its undo record could not be finished ({e}); undo of step {seq} still works"

/-- Commit after a change that happened; one that failed is aborted. -/
def finish : Except String Unit → Prog Disk Refusal Unit
  | .ok () => (io w .commit).mapError (undoRecordError w.seq)
  | .error m => .throw (.failed m)

/-- `FileTools::run` of `fs_edit`. -/
def fsEdit (args : Value) : Prog Disk Refusal Unit := do
  let e ← .ofExcept (Edit.parse args)
  let path ← .ofExcept (w.allow e.path)
  leafRefusal w path
  let before ← readText w .stat .opened path
  let after ← .ofExcept (e.compute before)
  (io w .beginStep).mapError fun e => .failed s!"no change was made: {e}"
  let change ← (writeIfUnchanged w path before (utf8 after)).attempt
  finish w change

end

end AgentRuntime.Sidecar
