import AgentRuntime.Guard.Path
import AgentRuntime.Lib.Prog
import Mathlib.Data.List.AList
import Mathlib.Data.Finset.Basic

/-!
# `Checkpoints.State` — what the checkpoint store keeps (`agent-checkpoints/src`)

The member's folder, the store's own directory, and what the running store holds in memory. Every system call is one
step (`io`), which may fail; a failed call changes nothing. The temporary files and the lock are left out, and so are the
names that are not UTF-8.
-/

namespace AgentRuntime.Checkpoints

open FileTree
open AgentRuntime.Guard (hasRoot components route)

/-! ## The member's folder -/

inductive Node where
  | file (bytes : List UInt8) (mode : ℕ)
  /-- `utf8`: the target is UTF-8. -/
  | link (target : String) (utf8 : Bool)
  | folder
  | special
deriving DecidableEq

/-- What reading it gives. -/
def Node.bytes : Node → List UInt8
  | .file bytes _ => bytes
  | _ => []

/-- What is at each location below the root. -/
structure Files where
  nodes : AList fun _ : List String => Node

namespace Files

def at? (files : Files) (loc : List String) : Option Node :=
  if loc = [] then some .folder else files.nodes.lookup loc

def view (files : Files) : View String String := fun loc =>
  (files.at? loc).map fun
    | .file _ _ | .special => .file
    | .link target _ => .link target
    | .folder => .folder

def put (files : Files) (loc : List String) (node : Node) : Files where
  nodes := files.nodes.insert loc node

def remove (files : Files) (loc : List String) : Files where
  nodes := files.nodes.erase loc

def isEmpty (files : Files) (loc : List String) : Bool :=
  files.nodes.keys.all fun l => decide (l.dropLast ≠ loc ∨ l = [])

end Files

/-! ## Manifests -/

/-- What a path held before a step. -/
inductive Prior where
  | absent
  /-- The bytes are the blob; `mode` is the permission bits. -/
  | file (blob : String) (size mode : ℕ)
  | symlink (target : String)
deriving DecidableEq

/-- What a path holds, to be compared: kind and content, or target. -/
inductive Fingerprint where
  | absent
  | file (sha256 : String)
  | symlink (target : String)
  | other (what : String)
deriving DecidableEq

def Prior.fingerprint : Prior → Fingerprint
  | .absent => .absent
  | .file blob _ _ => .file blob
  | .symlink target => .symlink target

inductive StepStatus where
  | prepared
  | committed
  | interrupted
  | undone
deriving DecidableEq

/-- One path of a step, by its names below the folder. -/
structure Entry where
  path : List String
  before : Prior
  expectedAfter : Fingerprint
  after : Option Fingerprint
deriving DecidableEq

/-- The post-step state undo compares against: the recorded one, else the expected one. -/
def Entry.post (e : Entry) : Fingerprint := e.after.getD e.expectedAfter

structure Manifest where
  session : String
  seq : ℕ
  root : List String
  status : StepStatus
  entries : List Entry
  createdDirs : List (List String)
deriving DecidableEq

structure SessionMeta where
  lastUsed : ℕ
  lastSeq : ℕ
  prunedThrough : ℕ
deriving DecidableEq

def SessionMeta.default : SessionMeta where
  lastUsed := 0
  lastSeq := 0
  prunedThrough := 0

/-! ## Errors -/

inductive IoError where
  | notFound
  | other (text : String)
deriving DecidableEq

structure Conflict where
  seq : ℕ
  path : String
  found : String
deriving DecidableEq

inductive Error where
  | io (path : List String) (source : IoError)
  | path (path reason : String)
  | unsupported (path reason : String)
  | tooLarge (path : String) (size cap : ℕ)
  | stepTooLarge (size cap : ℕ)
  | storeFull (needed cap : ℕ)
  | busy (path : String)
  | conflict (conflicts : List Conflict)
  | notFound (session : String) (seq : ℕ)
  | pruned (session : String) (seq : ℕ)
  | alreadyUndone (session : String) (seq : ℕ)
  | corrupt (what : String)
deriving DecidableEq

/-- A path below the folder as it is written. -/
def relText (rel : List String) : String := "/".intercalate rel

/-! ## The store -/

/-- What is in memory. -/
structure Inner where
  manifests : AList fun _ : String × ℕ => Manifest
  sessions : AList fun _ : String => SessionMeta
  blobs : AList fun _ : String => ℕ
  /-- The paths with a step in flight. -/
  busy : Finset (List String)
  tick : ℕ

def Inner.empty : Inner where
  manifests := ∅
  sessions := ∅
  blobs := ∅
  busy := ∅
  tick := 0

/-- What is in the store's directory. -/
structure Disk where
  manifests : AList fun _ : String × ℕ => Manifest
  sessions : AList fun _ : String => SessionMeta
  blobs : AList fun _ : String => List UInt8

structure World where
  files : Files
  disk : Disk
  inner : Inner
  /-- The system calls so far. -/
  clock : ℕ

structure Config where
  maxStoreBytes : ℕ
  maxFileBytes : ℕ

structure Env where
  /-- The store's directory. -/
  dir : List String
  cwd : List String
  cfg : Config
  sha256Hex : List UInt8 → String
  /-- The failure of the n-th system call. -/
  fault : ℕ → Option IoError

def Env.tmpDir (env : Env) : List String := env.dir ++ ["tmp"]

def Env.sessionDir (env : Env) (session : String) : List String := env.dir ++ ["sessions", session]

def Env.stepsDir (env : Env) (session : String) : List String := env.sessionDir session ++ ["steps"]

/-- `{seq:016}.json`. -/
def manifestName (seq : ℕ) : String := String.ofList ((Nat.toDigits 10 seq).leftpad 16 '0') ++ ".json"

def Env.manifestPath (env : Env) (session : String) (seq : ℕ) : List String := env.stepsDir session ++ [manifestName seq]

def shardOf (hex : String) : String := if 2 ≤ hex.length then String.ofList (hex.toList.take 2) else "00"

def Env.blobPath (env : Env) (hex : String) : List String := env.dir ++ ["blobs", shardOf hex, hex]

/-! ## System calls -/

section

variable (env : Env)

/-- One system call on a path. -/
def io {α : Type} (f : World → Except IoError α × World) : Prog World IoError α := .act fun w =>
  match env.fault w.clock with
  | some e => (.error e, { w with clock := w.clock + 1 })
  | none => f { w with clock := w.clock + 1 }

/-- A call that only looks. -/
def look {α : Type} (f : World → Except IoError α) : Prog World IoError α := io env fun w => (f w, w)

/-- A call with an effect that is not modelled. -/
def call (path : List String) : Prog World Error Unit := (look env fun _ => .ok ()).mapError (.io path)

/-- A call that changes the store's directory. -/
def change (path : List String) (f : Disk → Disk) : Prog World Error Unit :=
  (io env fun w => (.ok (), { w with disk := f w.disk })).mapError (.io path)

/-- `atomic_write`: a temporary file is made, written and synced, renamed to its place, and the directory synced. -/
def atomicWrite (dest : List String) (f : Disk → Disk) : Prog World Error Unit := do
  call env env.tmpDir
  call env env.tmpDir
  call env env.tmpDir
  change env dest f
  call env dest.dropLast

/-- A file of the store's directory is removed; one that is not there is fine. -/
def removeFile (path : List String) (there : Disk → Bool) (f : Disk → Disk) : Prog World Error Unit := do
  let removed ← .attempt (io env fun w =>
    if there w.disk then (.ok (), { w with disk := f w.disk }) else (.error .notFound, w))
  match removed with
  | .ok () => pure ()
  | .error .notFound => pure ()
  | .error e => .throw (.io path e)

/-- Where the kernel's walk leads. -/
def Files.resolve (files : Files) (start : List String) (comps : List (Comp String)) : Except IoError (List String) :=
  match FileTree.resolve files.view route 40 start comps with
  | .ok loc => .ok loc
  | .error .notFound => .error .notFound
  | .error .notDirectory => .error (.other "Not a directory (os error 20)")
  | .error .loop => .error (.other "Too many levels of symbolic links (os error 40)")

/-- The entry a path names: the walk goes through the links above it, not through itself. -/
def Files.locate (files : Files) (loc : List String) : Except IoError (List String) :=
  match loc.getLast? with
  | none => .ok []
  | some name => (files.resolve [] (loc.dropLast.map .name)).map (· ++ [name])

def Files.lstat (files : Files) (loc : List String) : Except IoError Node :=
  match files.locate loc with
  | .error e => .error e
  | .ok real =>
      match files.at? real with
      | some node => .ok node
      | none => .error .notFound

/-- `symlink_metadata`, and what is read with it. -/
def lstat (loc : List String) : Prog World IoError Node := look env fun w => w.files.lstat loc

/-- `fs::canonicalize`. -/
def canonicalize (rooted : Bool) (comps : List (Comp String)) : Prog World IoError (List String) :=
  look env fun w => w.files.resolve (if rooted then [] else env.cwd) comps

/-- What is in memory changes. -/
def memory (f : Inner → Inner) : Prog World Error Unit := .act fun w => (.ok (), { w with inner := f w.inner })

end

/-! ## Paths (`paths.rs`) -/

section

variable (env : Env)

structure Resolved where
  rel : List String
  abs : List String
  missingDirs : List (List String)
deriving DecidableEq

def refuse (p reason : String) : Error := .path p reason

/-- The granted folder, which must be a directory. -/
def canonicalRoot (shown : String) (rooted : Bool) (comps : List (Comp String)) : Prog World Error (List String) := do
  let loc ← (canonicalize env rooted comps).mapError fun _ => refuse shown "the granted folder does not exist"
  let found ← .attempt (lstat env loc)
  match found with
  | .ok .folder => pure loc
  | _ => .throw (refuse shown "the granted folder is not a directory")

/-- The components of `p` below the granted folder. -/
def belowRoot (rootCanon : List String) (rootGiven p : String) : Except Error (List (Comp String)) :=
  if hasRoot p then
    if rootCanon.map .name <+: components p then .ok ((components p).drop rootCanon.length)
    else if hasRoot rootGiven ∧ components rootGiven <+: components p then
      .ok ((components p).drop (components rootGiven).length)
    else .error (refuse p "outside the granted folder")
  else .ok (components p)

/-- Only plain names are accepted. -/
def plainParts (p : String) : List (Comp String) → Except Error (List String)
  | [] => .ok []
  | .name n :: rest => (plainParts p rest).map (n :: ·)
  | .up :: _ => .error (refuse p "'..' is not allowed")

/-- The directories above a path: none is a link, and the missing ones are told, shallowest first. -/
def walkParents (p : String) (root seen : List String) : List String → Prog World Error (List (List String))
  | [] => pure []
  | part :: rest => do
      let found ← .attempt (lstat env (root ++ seen ++ [part]))
      match found with
      | .ok (.link _ _) => .throw (refuse p "a parent directory is a symbolic link")
      | .ok .folder => walkParents p root (seen ++ [part]) rest
      | .ok _ => .throw (refuse p "a parent is not a directory")
      | .error .notFound => pure (rest.inits.map fun more => seen ++ [part] ++ more)
      | .error e => .throw (.io (root ++ seen ++ [part]) e)

def nonemptyParts (p : String) (parts : List String) : Except Error (List String) :=
  if parts = [] then .error (refuse p "empty path (the granted folder itself)") else .ok parts

/-- `resolve`. -/
def resolvePath (rootCanon : List String) (rootGiven p : String) : Prog World Error Resolved := do
  let comps ← .ofExcept (belowRoot rootCanon rootGiven p)
  let parts ← .ofExcept (plainParts p comps)
  let parts ← .ofExcept (nonemptyParts p parts)
  let missingDirs ← walkParents env p rootCanon [] parts.dropLast
  pure { rel := parts, abs := rootCanon ++ parts, missingDirs }

end

end AgentRuntime.Checkpoints
