import AgentRuntime.Guard.CheckPath
import AgentRuntime.Lib.Text
import AgentRuntime.Lib.TextSize
import AgentRuntime.Lib.Words

/-!
# `Grants.Folder` — folder grants (`agent-grants/src/lib.rs`)

A member grants access to a folder; `check` answers for one path and one operation. The file tree is static. A root is
stored as a text: what a stored document holds under `root` can be any text, and `validateState` decides whether it is a
root. `canonicalize` reports the stored spelling of what is there (`Disk.spelling`), which is another one than the
request's on a volume that ignores case.
-/

namespace AgentRuntime.Grants

open FileTree Guard Text Words

/-- Longest a full-access grant may live: 24 hours. -/
def fullAccessMaxTtlSecs : ℕ := 24 * 60 * 60

/-- Version of the persistence format. -/
def stateVersion : ℕ := 1

inductive Access where
  | read
  | write
deriving DecidableEq, Repr

/-- The operation an agent wants to perform. -/
inductive Op where
  | read
  | write
deriving DecidableEq, Repr

def Op.access : Op → Access
  | .read => .read
  | .write => .write

/-- How far below its root a grant reaches. -/
inductive GrantScope where
  /-- The root and everything below it. -/
  | subtree
  /-- The root and its direct entries only. -/
  | shallow
deriving DecidableEq, Repr

inductive GrantKind where
  | folder
  | fullAccess
deriving DecidableEq, Repr

/-- One stored grant. -/
structure Grant where
  id : String
  kind : GrantKind
  root : String
  access : Access
  scope : GrantScope
  grantedAt : ℕ
  /-- The grant allows nothing at or after this instant. -/
  expiresAt : Option ℕ
  grantedBy : String
  reason : String
  /-- Set once, never cleared. -/
  revokedAt : Option ℕ
deriving DecidableEq

/-! ## What a grant covers -/

/-- `Path::starts_with`, of a location and the text of a path. -/
def startsWith (path : Location) (base : String) : Bool :=
  path.rooted == hasRoot base && (components base).isPrefixOf (path.names.map .name)

/-- `Path` equality, of a location and the text of a path. -/
def isPath (path : Location) (other : String) : Bool :=
  path.rooted == hasRoot other && path.names.map .name == components other

/-- `Path::parent`. -/
def parent (path : Location) : Option Location := if path.names = [] then none else some path.pop

/-- `Path::parent` of a text says nothing. -/
def hasNoParent (path : String) : Bool :=
  if hasRoot path then components path == [] else path.toList == []

/-- `components().count()`, the root folder counted. -/
def componentCount (path : String) : ℕ := (components path).length + if hasRoot path then 1 else 0

/-- Live at `now`: not revoked, already granted and not expired. -/
def Grant.isActive (g : Grant) (now : ℕ) : Bool :=
  g.revokedAt.isNone && decide (g.grantedAt ≤ now) && g.expiresAt.all fun t => decide (now < t)

def Grant.covers (g : Grant) (path : Location) : Bool :=
  match g.scope with
  | .subtree => startsWith path g.root
  | .shallow => isPath path g.root || (parent path).any fun p => isPath p g.root

/-- The covering grant with the deepest root; of several, the last. -/
def mostSpecific (grants : List Grant) (path : Location) : Option Grant :=
  (grants.filter fun g => g.covers path).foldl (fun best g =>
    match best with
    | none => some g
    | some b => if componentCount b.root ≤ componentCount g.root then some g else some b) none

/-! ## Resolving -/

/-- What the grants look at: the tree and its spelling, Unicode, and the characters `{:?}` does not print. -/
structure Disk where
  unicode : Unicode
  files : FileSystem
  spelling : List String → List String
  unprinted : Char → Bool

/-- Why a check was denied. -/
inductive DenialReason where
  /-- The default-deny list. No grant overrides this. -/
  | denyList (d : Denied)
  /-- The resolved path is outside every live grant for this operation. -/
  | noGrant (op : Op) (path : Location)
  /-- The path changed while it was being checked, or could not be read. -/
  | unresolvable (what : String)
deriving DecidableEq

/-- `{:?}` of a category. -/
def categoryDebug : DenyCategory → String
  | .credentials => "Credentials"
  | .keychain => "Keychain"
  | .browserProfile => "BrowserProfile"
  | .walletStorage => "WalletStorage"
  | .citrateAppData => "CitrateAppData"
  | .shellHistory => "ShellHistory"
  | .dotEnv => "DotEnv"
  | .systemPath => "SystemPath"
  | .malformed => "Malformed"
  | .unresolvable => "Unresolvable"

def deniedText (d : Denied) : String := "denied (" ++ categoryDebug d.category ++ "): " ++ d.reason

def DenialReason.text : DenialReason → String
  | .denyList d => deniedText d
  | .noGrant op path =>
      "no live " ++ (match op with | .read => "Read" | .write => "Write") ++ " grant covers " ++ path.text
  | .unresolvable what => "path could not be resolved consistently: " ++ what

/-- `symlink_metadata`; nothing is at the empty path. -/
def inspect (fs : FileSystem) (l : Location) : Metadata :=
  if l.rooted = false ∧ l.names = [] then .absent else fs.symlinkMetadata l

/-- Where the kernel's walk leads, links followed to the end. -/
def followed (fs : FileSystem) (l : Location) : Except Errno (List String) :=
  resolve fs.view route maxSymlinks (if l.rooted then [] else fs.processDir) (l.names.map .name)

/-- `Path::is_dir`. -/
def isDir (fs : FileSystem) (l : Location) : Bool :=
  if l.rooted = false ∧ l.names = [] then false
  else
    match followed fs l with
    | .ok loc => fs.view loc == some .folder
    | .error _ => false

def errnoText : Errno → String
  | .notFound => "No such file or directory (os error 2)"
  | .notDirectory => "Not a directory (os error 20)"
  | .loop => "Too many levels of symbolic links (os error 40)"

section

variable (disk : Disk)

/-- `std::fs::canonicalize`. -/
def canonicalize (l : Location) : Except Errno (List String) :=
  (followed disk.files l).map disk.spelling

/-- The deepest ancestor of a location that is there, spelled as it is stored, with the names below it put back.
    `existing` has the names of the ancestor from the last to the first. -/
def spellExisting (path : Location) : List String → List String → Except String Location
  | existing, tail =>
      let here : Location := { rooted := path.rooted, names := existing.reverse }
      match inspect disk.files here with
      | .present | .symlink _ =>
          match canonicalize disk here with
          | .ok loc => .ok { rooted := true, names := loc ++ tail }
          | .error e => .error ("cannot resolve " ++ here.text ++ ": " ++ errnoText e)
      | .failed e => .error ("cannot inspect " ++ here.text ++ ": " ++ e)
      | .absent =>
          match existing with
          | [] => .ok path
          | name :: existing => spellExisting path existing (name :: tail)

/-- The on-disk spelling of an already resolved path. -/
def onDiskSpelling (path : Location) : Except String Location := spellExisting disk path path.names.reverse []

/-- The two answers of the guard must agree exactly. -/
def secondLook (path : String) (spelled canonical : Location) : Except DenialReason Location :=
  if canonical ≠ spelled then .error (.unresolvable (path ++ " resolved differently on a second look"))
  else .ok canonical

/-- The deny list on the kernel-style resolution of the request, then the on-disk spelling, then the guard again on
    that exact spelling. -/
def resolveChecked (path : String) (ctx : GuardContext) : Except DenialReason Location := do
  let resolved ← (checkPath disk.unicode disk.files ctx path).mapError .denyList
  let spelled ← (onDiskSpelling disk resolved).mapError .unresolvable
  let canonical ← (checkPath disk.unicode disk.files ctx spelled.text).mapError .denyList
  secondLook path spelled canonical

end

end AgentRuntime.Grants
