import AgentRuntime.Code.FileEdit
import AgentRuntime.Guard.Path
import AgentRuntime.Lib.Dentries

/-!
# `Code.SafeWrite` — workspace-confined opening (`agent-code/src/tools/safe_write.rs`)

A requested path is resolved lexically below the canonical workspace root, then opened one component after the other,
without following a link; the opened descriptor is checked before anything is truncated. Every system call is one step
(`sys`): before it other processes do what they like to the tree, and it may fail. The log says what the steps found and
what they changed, with the tree as it was where that matters.
-/

namespace AgentRuntime.Code

open Dentries FileTree
open AgentRuntime.Guard (hasRoot components route)

abbrev Fs : Type := Dentries.Disk String String

inductive Errno where
  | noent
  | exist
  | loop
  | mlink
  | notdir
  | other (text : String)
deriving DecidableEq

def Errno.text : Errno → String
  | .noent => "No such file or directory (os error 2)"
  | .exist => "File exists (os error 17)"
  | .loop => "Too many levels of symbolic links (os error 40)"
  | .mlink => "Too many links (os error 31)"
  | .notdir => "Not a directory (os error 20)"
  | .other text => text

def fail (m : String) : AgentError := .executionFailed m

def outside : String := "path traversal outside workspace is not allowed"

def symlinkText : String := "refusing to write through a symbolic link"

/-- The canonical root, and the names below it. -/
structure WorkspacePath where
  root : List String
  rel : List String
deriving DecidableEq

/-- An open descriptor: its entry, and what that stands for. -/
structure Fd where
  entry : ℕ
  obj : Obj String
deriving DecidableEq

/-! ## What a run leaves in the log -/

inductive Event where
  | resolved (wp : WorkspacePath)
  /-- The root was opened: this folder. -/
  | root (d : ℕ)
  /-- This name was opened in this folder. -/
  | found (d : ℕ) (name : String) (obj : Obj String)
  /-- The descriptor was looked at, with the tree as it was. -/
  | stat (fs : Fs) (fd : Fd)
  | located (fs : Fs) (fd : Fd)
  | madeFolder (d : ℕ)
  | created (ino : ℕ)
  | truncated (ino : ℕ)
  /-- The clean-up removes this name, with the tree as it was. -/
  | cleaning (fs : Fs) (d : ℕ) (name : String)
  | removed (obj : Obj String)

/-- What other processes do before the n-th system call, and its failure. -/
structure Env where
  others : ℕ → List (Op String String)
  fault : ℕ → Option Errno

structure World where
  fs : Fs
  clock : ℕ
  log : List Event

section

variable (env : Env)

/-- One system call. -/
def sys {α : Type} (f : Fs → Except Errno α × Fs × List Event) : Prog World Errno α := .act fun w =>
  let fs := (env.others w.clock).foldl Op.apply w.fs
  match env.fault w.clock with
  | some e => (.error e, { fs, clock := w.clock + 1, log := w.log })
  | none => ((f fs).1, { fs := (f fs).2.1, clock := w.clock + 1, log := w.log ++ (f fs).2.2 })

/-- A system call that finds something out. -/
def ask {α : Type} (f : Fs → Except Errno (α × Event)) : Prog World Errno α := sys env fun fs =>
  match f fs with
  | .ok (a, ev) => (.ok a, fs, [ev])
  | .error e => (.error e, fs, [])

/-- A system call that changes the tree. -/
def change {α : Type} (f : Fs → Except Errno (α × Fs × List Event)) : Prog World Errno α := sys env fun fs =>
  match f fs with
  | .ok (a, fs', evs) => (.ok a, fs', evs)
  | .error e => (.error e, fs, [])

/-! ## Resolving -/

/-- `lexical_normalize` of a path from the root. -/
def lexicalNormalize (comps : List (Comp String)) : Option (List String) :=
  comps.foldlM (fun out c =>
    match c with
    | .up => if out = [] then none else some out.dropLast
    | .name n => some (out ++ [n])) []

/-- The kernel's walk to where a path leads. -/
def realpath (fs : Fs) (cwd : List String) (path : String) : Except Errno (List String) :=
  match FileTree.resolve fs.view route 40 (if hasRoot path then [] else cwd) (components path) with
  | .ok loc => .ok loc
  | .error .notFound => .error .noent
  | .error .notDirectory => .error .notdir
  | .error .loop => .error .loop

/-- The names of the request below the root. -/
def below (root : List String) (path : String) : Except AgentError (List String) :=
  let candidate := if hasRoot path then components path else root.map .name ++ components path
  match lexicalNormalize candidate with
  | none => .error (fail outside)
  | some names =>
      if root <+: names then
        let rel := names.drop root.length
        if rel = [] then .error (fail "invalid file path") else .ok rel
      else .error (fail outside)

def resolve (cwd : List String) (workspace path : String) : Prog World AgentError WorkspacePath := do
  let root ← (sys env fun fs => (realpath fs cwd workspace, fs, [])).mapError fun e =>
    fail s!"invalid workspace dir: {e.text}"
  let rel ← .ofExcept (below root path)
  .act fun w => (.ok ⟨root, rel⟩, { w with log := w.log ++ [.resolved ⟨root, rel⟩] })

/-! ## Opening -/

/-- `openat` of a folder, through no link. -/
def openFolder (d : ℕ) (name : String) : Prog World Errno ℕ := ask env fun fs =>
  match fs.at? d name with
  | none => .error .noent
  | some (.folder d') => .ok (d', .found d name (.folder d'))
  | some _ => .error .notdir

def mkdirat (d : ℕ) (name : String) : Prog World Errno Unit := change env fun fs =>
  if (fs.at? d name).isSome then .error .exist
  else
    match fs.mkdir d name with
    | some fs' => .ok ((), fs', [.madeFolder fs.next])
    | none => .error .noent

def isLinkRefusal (e : Errno) : Bool := e == .loop || e == .mlink || e == .notdir

/-- An error of `open_dir`'s `openat`. -/
def folderError (e : Errno) : AgentError :=
  if isLinkRefusal e then fail symlinkText else fail s!"failed to open directory: {e.text}"

/-- Make the folder; one that is there by now will do. -/
def ensureFolder (d : ℕ) (name : String) : Prog World AgentError Unit := do
  match ← (mkdirat env d name).attempt with
  | .ok () => pure ()
  | .error .exist => pure ()
  | .error e => .throw (fail s!"failed to create dirs: {e.text}")

def openDir (d : ℕ) (name : String) (create : Bool) : Prog World AgentError ℕ := do
  match ← (openFolder env d name).attempt with
  | .ok d' => pure d'
  | .error e =>
      if e = .noent ∧ create = true then do
        ensureFolder env d name
        (openFolder env d name).mapError folderError
      else .throw (folderError e)

/-- `openat` with `O_CREAT | O_EXCL`. -/
def createLeaf (d : ℕ) (name : String) : Prog World Errno Fd := change env fun fs =>
  if (fs.at? d name).isSome then .error .exist
  else
    match fs.createFile d name with
    | some fs' =>
        .ok (⟨fs.entries.length, .file fs.next⟩, fs', [.created fs.next, .found d name (.file fs.next)])
    | none => .error .noent

/-- `openat` of what is there, through no link. -/
def openExisting (d : ℕ) (name : String) : Prog World Errno Fd := ask env fun fs =>
  match fs.lookup d name, fs.at? d name with
  | some _, some (.link _) => .error .loop
  | some _, some (.folder _) => .error (.other "Is a directory (os error 21)")
  | some i, some obj => .ok (⟨i, obj⟩, .found d name obj)
  | _, _ => .error .noent

def existingError (create : Bool) (e : Errno) : AgentError :=
  if e = .loop ∨ e = .mlink then fail symlinkText
  else if e = .noent ∧ create = true then fail "the target changed while it was being opened; refusing"
  else fail s!"failed to open file: {e.text}"

/-- The opened file, and whether this call created it. -/
def openLeaf (d : ℕ) (name : String) (create : Bool) : Prog World AgentError (Fd × Bool) := do
  if create then
    match ← (createLeaf env d name).attempt with
    | .ok fd => pure (fd, true)
    | .error .exist => do
        let fd ← (openExisting env d name).mapError (existingError create)
        pure (fd, false)
    | .error e => .throw (fail s!"failed to open file: {e.text}")
  else do
    let fd ← (openExisting env d name).mapError (existingError create)
    pure (fd, false)

/-- What `unlinkat` removes of a name. -/
def removable : Option (Obj String) → Option (Obj String)
  | some (.folder _) => none
  | o => o

def unlinkat (d : ℕ) (name : String) : Prog World Errno Unit := change env fun fs =>
  match removable (fs.at? d name), fs.unlink d name with
  | some obj, some fs' => .ok ((), fs', [.cleaning fs d name, .removed obj])
  | _, _ => .error .noent

/-- Refuse; a leaf that this call created is removed, by its name. -/
def undo {α : Type} (created : Bool) (d : ℕ) (leaf m : String) : Prog World AgentError α := do
  if created then do
    let _ ← (unlinkat env d leaf).attempt
    .throw (fail m)
  else .throw (fail m)

/-- `fstat`: whether the file is regular, and how many names it has. -/
def fstat (fd : Fd) : Prog World Errno (Bool × ℕ) := ask env fun fs =>
  match fd.obj with
  | .file ino => .ok ((true, fs.links ino), .stat fs fd)
  | _ => .ok ((false, 1), .stat fs fd)

/-- Linux: what `/proc/self/fd` says of the descriptor. -/
def fdInside (fd : Fd) (root : List String) : Prog World Errno Bool := ask env fun fs =>
  match fs.path (· ++ " (deleted)") fd.entry with
  | some real => .ok (decide (root <+: real), .located fs fd)
  | none => .error .noent

def setLen (fd : Fd) : Prog World Errno Unit := change env fun fs =>
  match fd.obj with
  | .file ino => .ok ((), fs.write ino [], [.truncated ino])
  | _ => .error (.other "Invalid argument (os error 22)")

/-- The checks of an opened leaf. -/
def checkLeaf (root : List String) (fd : Fd) (created : Bool) (d : ℕ) (leaf : String) : Prog World AgentError Unit := do
  match ← (fstat env fd).attempt with
  | .error e => undo env created d leaf s!"cannot stat the opened file: {e.text}"
  | .ok (regular, nlink) =>
      if regular = false then undo env created d leaf "refusing to write: the target is not a regular file"
      else if nlink ≠ 1 then undo env created d leaf "refusing to write: the target has more than one hard link"
      else do
        match ← (fdInside env fd root).attempt with
        | .error e => undo env created d leaf s!"Tool execution failed: cannot confirm the opened file's location: {e.text}"
        | .ok inside => if inside then pure () else undo env created d leaf outside

/-- Down the folders to the one that holds the leaf. -/
def openDirs (create : Bool) : ℕ → List String → Prog World AgentError ℕ
  | d, [] => pure d
  | d, name :: names => do
      let d' ← openDir env d name create
      openDirs create d' names

def openRoot (root : List String) : Prog World AgentError ℕ :=
  (ask env fun fs =>
    match FileTree.resolve fs.view route 40 [] (root.map .name) with
    | .error _ => .error .noent
    | .ok loc =>
        match fs.descend 0 loc with
        | some d => .ok (d, .root d)
        | none => .error .notdir).mapError fun e => fail s!"invalid workspace dir: {e.text}"

/-- A file that was there is truncated when it is opened for writing. -/
def truncateExisting (fd : Fd) (truncate : Bool) : Prog World AgentError Unit :=
  if truncate then (setLen env fd).mapError fun e => fail s!"failed to truncate: {e.text}" else pure ()

/-- `imp::open`. -/
def openAt (wp : WorkspacePath) (create : Bool) : Prog World AgentError Fd := do
  let d ← openRoot env wp.root
  match wp.rel.getLast? with
  | none => .throw (fail "invalid file path")
  | some leaf => do
      let d ← openDirs env create d wp.rel.dropLast
      let (fd, created) ← openLeaf env d leaf create
      checkLeaf env wp.root fd created d leaf
      truncateExisting env fd (create && !created)
      pure fd

/-- `resolve`, then `open_for_write` (`create`) or `open_for_edit`. -/
def openConfined (cwd : List String) (workspace path : String) (create : Bool) : Prog World AgentError Fd := do
  let wp ← resolve env cwd workspace path
  openAt env wp create

end

end AgentRuntime.Code
