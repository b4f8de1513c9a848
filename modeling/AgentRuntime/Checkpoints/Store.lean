import AgentRuntime.Checkpoints.State
import Mathlib

/-!
# `Checkpoints.Store` — beginning and ending a step (`agent-checkpoints/src/store.rs`)

`beginStep` takes a snapshot of every path a change will touch, makes room for it, and records a prepared step;
`finish` records what the change left and releases the paths.
-/

namespace AgentRuntime.Checkpoints

open AgentRuntime.Guard (hasRoot components)

inductive Change where
  | write (path sha256 : String)
  | delete (path : String)
  | rename (source target : String)

inductive Kind where
  | write (sha256 : String)
  | delete
  | renameFrom
  | renameTo (source : ℕ)
deriving DecidableEq

structure Plan where
  res : Resolved
  kind : Kind
deriving DecidableEq

/-- A snapshot that is not installed yet. -/
structure Staged where
  hex : String
  bytes : List UInt8

/-- A step that was begun. -/
structure Step where
  session : String
  seq : ℕ
deriving DecidableEq

section

variable (env : Env)

/-! ## What is durable -/

def writeManifest (m : Manifest) : Prog World Error Unit := do
  call env (env.stepsDir m.session)
  atomicWrite env (env.manifestPath m.session m.seq) fun d =>
    { d with manifests := d.manifests.insert (m.session, m.seq) m }

def writeMeta (session : String) (m : SessionMeta) : Prog World Error Unit := do
  call env (env.sessionDir session)
  atomicWrite env (env.sessionDir session ++ ["session.json"]) fun d =>
    { d with sessions := d.sessions.insert session m }

/-- `entry(session).or_default()`. -/
def Inner.metaOf (g : Inner) (session : String) : SessionMeta := (g.sessions.lookup session).getD .default

def Inner.setMeta (g : Inner) (session : String) (m : SessionMeta) : Inner :=
  { g with sessions := g.sessions.insert session m }

/-- The session is the one used last. -/
def Inner.used (session : String) (g : Inner) : Inner :=
  { g.setMeta session { g.metaOf session with lastUsed := g.tick + 1 } with tick := g.tick + 1 }

def touch (session : String) : Prog World Error Unit := do
  memory (Inner.used session)
  let m ← .read fun w => w.inner.metaOf session
  writeMeta env session m

/-! ## Room for a step -/

/-- The blobs that manifests refer to. -/
def Inner.referenced (g : Inner) : List String :=
  (g.manifests.entries.flatMap fun e => e.2.entries).filterMap fun e =>
    match e.before with
    | .file blob _ _ => some blob
    | _ => none

def Inner.dead (g : Inner) : List String := g.blobs.keys.filter fun hex => !g.referenced.contains hex

def removeBlobs : List String → Prog World Error Unit
  | [] => pure ()
  | hex :: rest => do
      removeFile env (env.blobPath hex) (fun d => decide (hex ∈ d.blobs)) fun d => { d with blobs := d.blobs.erase hex }
      memory fun g => { g with blobs := g.blobs.erase hex }
      removeBlobs rest

/-- Remove every blob no manifest refers to. -/
def gc : Prog World Error Unit := do
  let dead ← .read fun w => w.inner.dead
  removeBlobs env dead

def Inner.blobBytes (g : Inner) : ℕ := (g.blobs.entries.map fun e => e.2).sum

/-- The step of the session with the least number. -/
def Inner.oldest (g : Inner) (session : String) : Option ((String × ℕ) × Manifest) :=
  (g.manifests.entries.filterMap fun e => if e.1.1 = session then some (e.1, e.2) else none).foldl
    (fun best e =>
      match best with
      | some b => if e.1.2 < b.1.2 then some e else some b
      | none => some e) none

/-- Used before, or at the same time and first by its name. -/
def evictedBefore (a b : ℕ × String × ℕ) : Bool :=
  decide (a.1 < b.1 ∨ (a.1 = b.1 ∧ (a.2.1 < b.2.1 ∨ (a.2.1 = b.2.1 ∧ a.2.2 < b.2.2))))

/-- The step that is evicted next: the oldest of the session used least recently, if it is not in flight. -/
def Inner.victim (g : Inner) : Option (String × ℕ) :=
  let candidates := g.sessions.entries.filterMap fun e =>
    match g.oldest e.1 with
    | some (key, m) => if m.status ≠ .prepared then some (e.2.lastUsed, key.1, key.2) else none
    | none => none
  (candidates.foldl
    (fun best c =>
      match best with
      | some b => if evictedBefore c b then some c else some b
      | none => some c) none).map fun c => c.2

def Inner.prune (key : String × ℕ) (g : Inner) : Inner :=
  let m := g.metaOf key.1
  { g with manifests := g.manifests.erase key }.setMeta key.1 { m with prunedThrough := max m.prunedThrough key.2 }

def u64Max : ℕ := 2 ^ 64 - 1

/-- `total.saturating_add(needed) <= cap`. -/
def Inner.hasRoom (g : Inner) (needed cap : ℕ) : Bool := decide (min (g.blobBytes + needed) u64Max ≤ cap)

def evict (key : String × ℕ) : Prog World Error Unit := do
  removeFile env (env.manifestPath key.1 key.2) (fun d => decide (key ∈ d.manifests)) fun d =>
    { d with manifests := d.manifests.erase key }
  memory (Inner.prune key)
  let m ← .read fun w => w.inner.metaOf key.1
  writeMeta env key.1 m
  gc env

/-- One round for each step there is, and one more. -/
def pruneLoop (needed : ℕ) : ℕ → Prog World Error Unit
  | 0 => .throw (.storeFull needed env.cfg.maxStoreBytes)
  | rounds + 1 => do
      let g ← .read World.inner
      if g.hasRoom needed env.cfg.maxStoreBytes then pure ()
      else
        match g.victim with
        | none => .throw (.storeFull needed env.cfg.maxStoreBytes)
        | some key => do
            evict env key
            pruneLoop needed rounds

/-- Evict steps until `needed` more bytes fit. -/
def pruneToFit (needed : ℕ) : Prog World Error Unit := do
  let rounds ← .read fun w => w.inner.manifests.entries.length + 1
  pruneLoop env needed rounds

/-! ## Snapshots -/

/-- `blobs::stage`: the file is opened, copied and synced. -/
def stage (abs rel : List String) : Prog World Error Staged := do
  call env abs
  call env env.tmpDir
  let node ← (lstat env abs).mapError (.io abs)
  call env env.tmpDir
  call env env.tmpDir
  if env.cfg.maxFileBytes < node.bytes.length then
    .throw (.tooLarge (relText rel) node.bytes.length env.cfg.maxFileBytes)
  else pure { hex := env.sha256Hex node.bytes, bytes := node.bytes }

def unsupported (rel : List String) (reason : String) : Error := .unsupported (relText rel) reason

def isWrite : Kind → Bool
  | .write _ => true
  | _ => false

/-- What a link held before: its target, which is not followed. -/
def captureLink (p : Plan) (target : String) (utf8 : Bool) : Prog World Error (Prior × Option Staged) :=
  if isWrite p.kind then
    .throw (unsupported p.res.rel
      "is a symbolic link; writing through it is refused (the link itself may be deleted or renamed)")
  else do
    call env p.res.abs
    if utf8 then pure (.symlink target, none)
    else .throw (unsupported p.res.rel "is a symbolic link with a non-UTF-8 target")

def captureFile (p : Plan) (size mode : ℕ) : Prog World Error (Prior × Option Staged) :=
  if env.cfg.maxFileBytes < size then .throw (.tooLarge (relText p.res.rel) size env.cfg.maxFileBytes)
  else do
    let s ← stage env p.res.abs p.res.rel
    pure (.file s.hex s.bytes.length mode, some s)

/-- What a path holds before the change. -/
def capture (p : Plan) : Prog World Error (Prior × Option Staged) := do
  let found ← .attempt (lstat env p.res.abs)
  match found with
  | .error .notFound =>
      if p.kind = .renameFrom then .throw (unsupported p.res.rel "the rename source does not exist")
      else pure (.absent, none)
  | .error e => .throw (.io p.res.abs e)
  | .ok (.link target utf8) => captureLink env p target utf8
  | .ok .folder =>
      .throw (unsupported p.res.rel "is a directory; only files and symbolic links are checkpointed")
  | .ok .special => .throw (unsupported p.res.rel "is a special file")
  | .ok (.file bytes mode) => captureFile env p bytes.length mode

/-- What a path should hold once the change lands, given the entries before it. -/
def expectedAfter (entries : List Entry) : Kind → Fingerprint
  | .write sha256 => .file sha256
  | .delete | .renameFrom => .absent
  | .renameTo i => (entries[i]?.map fun e => e.before.fingerprint).getD .absent

def captureAll : List Plan → List Entry → List Staged → Prog World Error (List Entry × List Staged)
  | [], entries, staged => pure (entries, staged)
  | p :: plans, entries, staged => do
      let got ← capture env p
      captureAll plans
        (entries ++ [{ path := p.res.rel, before := got.1, expectedAfter := expectedAfter entries p.kind, after := none }])
        (staged ++ got.2.toList)

/-! ## Beginning a step -/

def planOne (rootCanon : List String) (root : String) (done : List Plan) : Change → Prog World Error (List Plan)
  | .write path sha256 => do
      let res ← resolvePath env rootCanon root path
      pure (done ++ [{ res, kind := .write sha256 }])
  | .delete path => do
      let res ← resolvePath env rootCanon root path
      pure (done ++ [{ res, kind := .delete }])
  | .rename source target => do
      let res ← resolvePath env rootCanon root source
      let res' ← resolvePath env rootCanon root target
      pure (done ++ [{ res, kind := .renameFrom }, { res := res', kind := .renameTo done.length }])

def planAll (rootCanon : List String) (root : String) : List Change → List Plan → Prog World Error (List Plan)
  | [], done => pure done
  | c :: changes, done => do
      let done ← planOne env rootCanon root done c
      planAll rootCanon root changes done

/-- The first path that is listed twice. -/
def listedTwice : List Plan → List (List String) → Option (List String)
  | [], _ => none
  | p :: plans, seen => if p.res.rel ∈ seen then some p.res.rel else listedTwice plans (seen ++ [p.res.rel])

def refuseTwice (plans : List Plan) : Except Error Unit :=
  match listedTwice plans [] with
  | some rel => .error (.path (relText rel) "listed more than once in one step")
  | none => .ok ()

/-- No path has a step in flight. -/
def refuseBusy (g : Inner) (plans : List Plan) : Except Error Unit :=
  match plans.find? fun p => decide (p.res.abs ∈ g.busy) with
  | some p => .error (.busy (relText p.res.rel))
  | none => .ok ()

/-- The bytes that are not stored yet, each content once. -/
def neededBytes (g : Inner) : List Staged → List String → ℕ
  | [], _ => 0
  | s :: staged, seen =>
      if s.hex ∈ g.blobs ∨ s.hex ∈ seen then neededBytes g staged seen
      else s.bytes.length + neededBytes g staged (seen ++ [s.hex])

def refuseLarge (needed : ℕ) : Except Error Unit :=
  if env.cfg.maxStoreBytes < needed then .error (.stepTooLarge needed env.cfg.maxStoreBytes) else .ok ()

/-- `blobs::install`; a blob that is there stays. -/
def installBlob (s : Staged) : Prog World Error Unit := do
  let there ← .read fun w => decide (s.hex ∈ w.disk.blobs)
  if there then pure ()
  else do
    call env (env.blobPath s.hex).dropLast
    change env (env.blobPath s.hex) fun d => { d with blobs := d.blobs.insert s.hex s.bytes }
    call env (env.blobPath s.hex).dropLast

def installAll : List Staged → Prog World Error Unit
  | [] => pure ()
  | s :: staged => do
      installBlob env s
      memory fun g => { g with blobs := g.blobs.insert s.hex s.bytes.length }
      installAll staged

/-- The directories a step will make, each once, shallowest first. -/
def createdDirs (plans : List Plan) : List (List String) :=
  let making := plans.filter fun p => isWrite p.kind || (match p.kind with | .renameTo _ => true | _ => false)
  ((making.flatMap fun p => p.res.missingDirs).foldl (fun dirs d => if d ∈ dirs then dirs else dirs ++ [d]) []).mergeSort
    fun d d' => decide (d.length ≤ d'.length)

/-- The session's next number is taken. -/
def Inner.allocate (session : String) (g : Inner) : Inner :=
  let m := g.metaOf session
  g.setMeta session { m with lastSeq := m.lastSeq + 1 }

def Inner.record (plans : List Plan) (m : Manifest) (g : Inner) : Inner :=
  { g with
    busy := g.busy ∪ (plans.map fun p => p.res.abs).toFinset
    manifests := g.manifests.insert (m.session, m.seq) m }

/-- A step that may be recorded, but for its number. -/
structure Admitted where
  plans : List Plan
  root : List String
  entries : List Entry

/-- The paths are resolved and captured, and the snapshots installed. -/
def prepare (root : String) (changes : List Change) : Prog World Error Admitted := do
  let rootCanon ← canonicalRoot env root (hasRoot root) (components root)
  let plans ← planAll env rootCanon root changes []
  .ofExcept (refuseTwice plans)
  let g ← .read World.inner
  .ofExcept (refuseBusy g plans)
  let (entries, staged) ← captureAll env plans [] []
  let g ← .read World.inner
  .ofExcept (refuseLarge env (neededBytes g staged []))
  pruneToFit env (neededBytes g staged [])
  installAll env staged
  pure { plans, root := rootCanon, entries }

/-- The step gets its number. -/
def number (session : String) (a : Admitted) : Prog World Error Manifest := do
  memory (Inner.allocate session)
  let g ← .read World.inner
  pure
    { session, seq := (g.metaOf session).lastSeq, root := a.root, status := .prepared, entries := a.entries,
      createdDirs := createdDirs a.plans }

/-- The step is recorded, on the disk and then in memory. -/
def recordStep (session root : String) (changes : List Change) : Prog World Error Step := do
  let a ← prepare env root changes
  let m ← number session a
  writeManifest env m
  memory (Inner.record a.plans m)
  pure { session, seq := m.seq }

def beginStep (session root : String) (changes : List Change) : Prog World Error Step := do
  let step ← recordStep env session root changes
  touch env session
  pure step

/-! ## Ending a step -/

/-- `fingerprint_now`. -/
def fingerprintNow (loc : List String) : Prog World Error Fingerprint := do
  let found ← .attempt (lstat env loc)
  match found with
  | .error .notFound => pure .absent
  | .error e => .throw (.io loc e)
  | .ok (.link target utf8) => do
      call env loc
      pure (if utf8 then .symlink target else .other "symlink with a non-UTF-8 target")
  | .ok .folder => pure (.other "directory")
  | .ok .special => pure (.other "special file")
  | .ok (.file bytes _) => do
      call env loc
      pure (.file (env.sha256Hex bytes))

def fingerprintAll (root : List String) : List Entry → Prog World Error (List Entry)
  | [] => pure []
  | e :: entries => do
      let now ← fingerprintNow env (root ++ e.path)
      let rest ← fingerprintAll root entries
      pure ({ e with after := some now } :: rest)

structure StepSummary where
  session : String
  seq : ℕ
  status : StepStatus
  paths : List String
  root : List String
deriving DecidableEq

def Manifest.summary (m : Manifest) : StepSummary where
  session := m.session
  seq := m.seq
  status := m.status
  paths := m.entries.map fun e => relText e.path
  root := m.root

/-- What the ended step is recorded as. -/
def ended (m : Manifest) (commit : Bool) : Prog World Error Manifest :=
  if commit then do
    let entries ← fingerprintAll env m.root m.entries
    pure { m with entries, status := .committed }
  else pure { m with status := .interrupted }

def writeEnded (m : Manifest) (commit : Bool) : Prog World Error Manifest := do
  let done ← ended env m commit
  writeManifest env done
  pure done

def Inner.release (m : Manifest) (g : Inner) : Inner :=
  { g with busy := g.busy \ (m.entries.map fun e => m.root ++ e.path).toFinset }

/-- A prepared step ends: its paths are released, whatever comes of it. -/
def endPrepared (key : String × ℕ) (m : Manifest) (commit : Bool) : Prog World Error StepSummary := do
  let res ← .attempt (writeEnded env m commit)
  memory (Inner.release m)
  let done ← .ofExcept res
  memory fun g => { g with manifests := g.manifests.insert key done }
  touch env key.1
  pure done.summary

def finish (session : String) (seq : ℕ) (commit : Bool) : Prog World Error StepSummary := do
  let found ← .read fun w => w.inner.manifests.lookup (session, seq)
  match found with
  | none => .throw (.notFound session seq)
  | some m => if m.status = .prepared then endPrepared env (session, seq) m commit else pure m.summary

/-- The steps still on record for a session, oldest first. -/
def Inner.steps (g : Inner) (session : String) : List StepSummary :=
  (((g.manifests.entries.filterMap fun e => if e.1.1 = session then some e.2 else none).mergeSort
    fun m m' => decide (m.seq ≤ m'.seq)).map Manifest.summary)

end

end AgentRuntime.Checkpoints
