import AgentRuntime.Grants.Folder

/-!
# `Grants.Store` — the grant set (`FolderGrants`)

`grant` and `revoke` return their result and the set they leave. `fromState` loads a stored document, which
`validateState` checks whole: what a fresh grant must satisfy is restated there, grant by grant.
-/

namespace AgentRuntime.Grants

open FileTree Guard Text Words

/-- The persistence format core stores. -/
structure GrantState where
  version : ℕ
  /-- Next numeric id; every stored id is `g-<n>` with `n < nextId`. -/
  nextId : ℕ
  grants : List Grant

/-- `GrantState::default`. -/
def GrantState.default : GrantState where
  version := stateVersion
  nextId := 1
  grants := []

/-- A request to create a grant. -/
structure GrantRequest where
  kind : GrantKind
  root : String
  access : Access
  scope : GrantScope
  /-- `none` is until revoked (folder grants only). -/
  ttlSecs : Option ℕ
  grantedBy : String
  reason : String

/-- A folder grant covering `root` and its descendants, until revoked. -/
def GrantRequest.folder (root : String) (access : Access) (grantedBy reason : String) : GrantRequest where
  kind := .folder
  root := root
  access := access
  scope := .subtree
  ttlSecs := none
  grantedBy := grantedBy
  reason := reason

/-- The read-only full-access grant over `root`, expiring after `ttlSecs`. -/
def GrantRequest.fullAccess (root : String) (ttlSecs : ℕ) (grantedBy reason : String) : GrantRequest where
  kind := .fullAccess
  root := root
  access := .read
  scope := .subtree
  ttlSecs := some ttlSecs
  grantedBy := grantedBy
  reason := reason

/-- Why a grant could not be created, revoked or loaded. -/
inductive GrantError where
  | rootDenied (d : Denied)
  | rootNotADirectory (path : Location)
  | rootUnresolvable (what : String)
  | writeOnFilesystemRoot
  | fullAccessIsReadOnly
  | badTtl (reason : String)
  | missingGrantedBy
  | missingReason
  | unknownGrant (id : String)
  | alreadyRevoked (id : String)
  | invalidState (what : String)
deriving DecidableEq

/-- The answer to `check`. -/
inductive Decision where
  /-- The resolved path to do the I/O on, and the most specific live grant that covers it. -/
  | allowed (canonical : Location) (grantId : String)
  | denied (reason : DenialReason)
deriving DecidableEq

/-- Lifecycle state for the Grants list. -/
inductive GrantStatus where
  | notYetActive
  | active
  | expired
  | revoked
deriving DecidableEq, Repr

/-- One row of the Grants list. -/
structure GrantView where
  grant : Grant
  status : GrantStatus
  /-- Seconds until expiry, 0 once expired; `none` is until revoked. -/
  remainingSecs : Option ℕ
deriving DecidableEq

/-- The grant set plus the context paths are resolved in. -/
structure FolderGrants where
  state : GrantState
  home : String
  cwd : String

/-- Nothing but white space. -/
def isBlank (s : String) : Bool := s.toList.all isWhitespace

/-! ## Loading -/

/-- The number of an id. -/
def idNumber (id : String) : Option ℕ := (strip "g-".toList id.toList).bind parseU64

namespace FolderGrants

/-- An empty grant set. -/
def new (home cwd : String) : FolderGrants where
  state := .default
  home := home
  cwd := cwd

def guardCtx (me : FolderGrants) : GuardContext where
  home := me.home
  cwd := me.cwd
  projectRoots := []

section

variable (disk : Disk) (me : FolderGrants)

/-- The id of a stored grant, as a number, new among those `seen`. -/
def checkId (seen : List ℕ) (g : Grant) : Except GrantError ℕ :=
  match idNumber g.id with
  | none => .error (.invalidState ("bad id " ++ strDebug disk.unprinted g.id))
  | some n =>
      if n ≥ me.state.nextId then
        .error (.invalidState ("id " ++ g.id ++ " is not below next_id " ++ toString me.state.nextId))
      else if n ∈ seen then .error (.invalidState ("duplicate id " ++ g.id))
      else .ok n

/-- The root is absolute and normalized, and not in a deny location. -/
def checkRoot (g : Grant) : Except GrantError Unit :=
  if hasRoot g.root = false ∨ .up ∈ components g.root then
    .error (.invalidState (g.id ++ ": root " ++ g.root ++ " is not absolute and normalized"))
  else
    match checkPath disk.unicode disk.files me.guardCtx g.root with
    | .error d => .error (.invalidState (g.id ++ ": root is in a deny location (" ++ deniedText d ++ ")"))
    | .ok _ =>
        if g.access = .write ∧ hasNoParent g.root = true then
          .error (.invalidState (g.id ++ ": write on the filesystem root"))
        else .ok ()

/-- The time limits of a stored grant. -/
def checkTerms (g : Grant) : Except GrantError Unit :=
  if isBlank g.grantedBy then .error (.invalidState (g.id ++ ": missing granted_by"))
  else if isBlank g.reason then .error (.invalidState (g.id ++ ": missing reason"))
  else if g.expiresAt.any fun t => decide (t ≤ g.grantedAt) then
    .error (.invalidState (g.id ++ ": expires before it was granted"))
  else if g.kind = .fullAccess then
    if g.access ≠ .read then .error (.invalidState (g.id ++ ": full access is read-only"))
    else if g.expiresAt.any fun t => decide (t - g.grantedAt ≤ fullAccessMaxTtlSecs) then .ok ()
    else .error (.invalidState (g.id ++ ": full access must expire within 24 h"))
  else .ok ()

/-- Grant by grant, with the id numbers seen so far. -/
def validateGrants : List ℕ → List Grant → Except GrantError Unit
  | _, [] => .ok ()
  | seen, g :: rest => do
      let n ← checkId disk me seen g
      checkRoot disk me g
      checkTerms g
      validateGrants (n :: seen) rest

def validateState : Except GrantError Unit :=
  if me.state.version ≠ stateVersion then
    .error (.invalidState ("unknown version " ++ toString me.state.version))
  else validateGrants disk me [] me.state.grants

/-- Load a stored state, refusing it as a whole if any rule is broken. -/
def fromState (state : GrantState) (home cwd : String) : Except GrantError FolderGrants := do
  let me : FolderGrants := { state := state, home := home, cwd := cwd }
  validateState disk me
  pure me

/-! ## Granting and revoking -/

/-- When a requested grant expires. -/
def expiry (req : GrantRequest) (now : ℕ) : Except GrantError (Option ℕ) :=
  match req.ttlSecs with
  | some t =>
      if t = 0 then .error (.badTtl "a time limit must be at least one second")
      else if req.kind = .fullAccess ∧ fullAccessMaxTtlSecs < t then
        .error (.badTtl ("full access lasts at most " ++ toString fullAccessMaxTtlSecs ++ " s"))
      else
        match checkedAdd u64Bound now t with
        | some at_ => .ok (some at_)
        | none => .error (.badTtl "expiry overflows")
  | none =>
      if req.kind = .fullAccess then .error (.badTtl "full access always expires") else .ok none

/-- A request to create a grant that is well formed in itself, with its expiry. -/
def checkRequest (req : GrantRequest) (now : ℕ) : Except GrantError (Option ℕ) :=
  if isBlank req.grantedBy then .error .missingGrantedBy
  else if isBlank req.reason then .error .missingReason
  else if req.kind = .fullAccess ∧ req.access ≠ .read then .error .fullAccessIsReadOnly
  else expiry req now

/-- Resolve a requested root to the canonical folder a grant stores. -/
def canonicalRoot (root : String) : Except GrantError Location :=
  match resolveChecked disk root me.guardCtx with
  | .error (.denyList d) => .error (.rootDenied d)
  | .error other => .error (.rootUnresolvable other.text)
  | .ok spelled => if isDir disk.files spelled then .ok spelled else .error (.rootNotADirectory spelled)

def checkWriteRoot (req : GrantRequest) (root : Location) : Except GrantError Unit :=
  if req.access = .write ∧ (parent root).isNone then .error .writeOnFilesystemRoot else .ok ()

/-- The grant a request makes, and the next numeric id. -/
def prepare (req : GrantRequest) (now : ℕ) : Except GrantError (Grant × ℕ) := do
  let expiresAt ← checkRequest req now
  let root ← canonicalRoot disk me req.root
  checkWriteRoot req root
  match checkedAdd u64Bound me.state.nextId 1 with
  | none => .error (.invalidState "grant ids exhausted")
  | some next =>
      .ok
        ({ id := "g-" ++ toString me.state.nextId
           kind := req.kind
           root := root.text
           access := req.access
           scope := req.scope
           grantedAt := now
           expiresAt := expiresAt
           grantedBy := req.grantedBy
           reason := req.reason
           revokedAt := none }, next)

/-- Create a grant at `now` and return its id. -/
def grant (req : GrantRequest) (now : ℕ) : Except GrantError String × FolderGrants :=
  match prepare disk me req now with
  | .error e => (.error e, me)
  | .ok (g, next) =>
      (.ok g.id, { me with state := { me.state with grants := me.state.grants ++ [g], nextId := next } })

/-- The first grant with the id is revoked. -/
def setRevoked (id : String) (now : ℕ) : List Grant → List Grant
  | [] => []
  | g :: rest => if g.id = id then { g with revokedAt := some now } :: rest else g :: setRevoked id now rest

/-- Revoke a grant. Takes effect for every check from now on. -/
def revoke (id : String) (now : ℕ) : Except GrantError Unit × FolderGrants :=
  match me.state.grants.find? fun g => g.id == id with
  | none => (.error (.unknownGrant id), me)
  | some g =>
      if g.revokedAt.isSome then (.error (.alreadyRevoked id), me)
      else (.ok (), { me with state := { me.state with grants := setRevoked id now me.state.grants } })

/-! ## Answering -/

def statusAt (now : ℕ) (g : Grant) : GrantStatus :=
  if g.revokedAt.isSome then .revoked
  else if now < g.grantedAt then .notYetActive
  else if g.isActive now then .active
  else .expired

/-- Every grant, with its status and countdown at `now`. -/
def list (now : ℕ) : List GrantView :=
  me.state.grants.map fun g =>
    { grant := g, status := statusAt now g, remainingSecs := g.expiresAt.map fun t => t - now }

/-- The live grants of a kind for an operation. -/
def live (op : Op) (now : ℕ) (kind : GrantKind) : List Grant :=
  me.state.grants.filter fun g => g.kind == kind && g.access == op.access && g.isActive now

/-- Full access, read-only by construction. No project roots: full access never unlocks a `.env` file. -/
def checkFull (path : String) (op : Op) (now : ℕ) (canonical : Location) : Except DenialReason (Location × String) :=
  match live me op now .fullAccess with
  | [] => .error (.noGrant op canonical)
  | full => do
      let canonical ← resolveChecked disk path me.guardCtx
      match mostSpecific full canonical with
      | some g => .ok (canonical, g.id)
      | none => .error (.noGrant op canonical)

/-- Folder grants first: their roots are the guard's project roots. -/
def checkInner (path : String) (op : Op) (now : ℕ) : Except DenialReason (Location × String) := do
  let folders := live me op now .folder
  let ctx : GuardContext := { me.guardCtx with projectRoots := folders.map Grant.root }
  let canonical ← resolveChecked disk path ctx
  match mostSpecific folders canonical with
  | some g => .ok (canonical, g.id)
  | none => checkFull disk me path op now canonical

/-- May the agent perform `op` on `path` at `now`? -/
def check (path : String) (op : Op) (now : ℕ) : Decision :=
  match checkInner disk me path op now with
  | .ok (canonical, grantId) => .allowed canonical grantId
  | .error reason => .denied reason

end

end FolderGrants

end AgentRuntime.Grants
