import AgentRuntime.Checkpoints.Store

/-!
# `Checkpoints.Undo` — undoing steps, and opening the store (`agent-checkpoints/src/store.rs`)

An undo is checked as a whole before anything is restored. Opening the store reads what its directory holds; the steps
that were in flight are interrupted.
-/

namespace AgentRuntime.Checkpoints

open AgentRuntime.Guard (Location)

section

variable (env : Env)

/-! ## Restoring -/

/-- A call that changes the member's folder. -/
def edit (path : List String) (f : Files → Except IoError Files) : Prog World Error Unit :=
  (io env fun w =>
    match f w.files with
    | .ok files => (.ok (), { w with files })
    | .error e => (.error e, w)).mapError (.io path)

/-- `create_dir_all`, one directory after the other. -/
def Files.mkdirAll (files : Files) (seen : List String) : List String → Except IoError Files
  | [] => .ok files
  | name :: rest =>
      let dir := seen ++ [name]
      match files.resolve [] (dir.map .name) with
      | .ok real =>
          if files.at? real = some .folder then files.mkdirAll dir rest
          else .error (.other "File exists (os error 17)")
      | .error .notFound =>
          match files.locate dir with
          | .ok real => if (files.at? real).isSome then .error (.other "File exists (os error 17)")
              else (files.put real .folder).mkdirAll dir rest
          | .error e => .error e
      | .error e => .error e

/-- `rename` of a new entry over what is there. -/
def Files.replace (files : Files) (loc : List String) (node : Node) : Except IoError Files :=
  match files.locate loc with
  | .ok real =>
      if files.at? real = some .folder then .error (.other "Is a directory (os error 21)") else .ok (files.put real node)
  | .error e => .error e

def Files.removeFile (files : Files) (loc : List String) : Except IoError Files :=
  match files.locate loc with
  | .ok real =>
      match files.at? real with
      | none => .error .notFound
      | some .folder => .error (.other "Is a directory (os error 21)")
      | some _ => .ok (files.remove real)
  | .error e => .error e

/-- Only an empty directory is removed. -/
def Files.removeDir (files : Files) (loc : List String) : Except IoError Files :=
  match files.locate loc with
  | .ok real =>
      if files.at? real = some .folder ∧ files.isEmpty real = true then .ok (files.remove real)
      else .error (.other "Directory not empty (os error 39)")
  | .error e => .error e

def corruptText (hex : String) : String := "snapshot blob " ++ hex ++ " does not match its hash"

/-- The bytes of a blob, with its hash checked. -/
def readBlob (hex : String) : Prog World Error (List UInt8) := do
  call env (env.blobPath hex)
  let found ← .read fun w => w.disk.blobs.lookup hex
  match found with
  | none => .throw (.corrupt ("snapshot blob " ++ hex ++ " is missing"))
  | some bytes => if env.sha256Hex bytes = hex then pure bytes else .throw (.corrupt (corruptText hex))

/-- A new entry is made beside the path, renamed over it, and the directory synced. -/
def putBack (abs : List String) (node : Node) : Prog World Error Unit := do
  edit env abs fun files => files.replace abs node
  call env abs.dropLast

def locText (loc : List String) : String := Location.text { rooted := true, names := loc }

/-- Put `prior` back at `abs`. -/
def restore (abs : List String) : Prior → Prog World Error Unit
  | .absent => do
      let found ← .attempt (lstat env abs)
      match found with
      | .ok .folder => .throw (.unsupported (locText abs) "is now a directory; not removed")
      | .ok _ => edit env abs fun files => files.removeFile abs
      | .error .notFound => pure ()
      | .error e => .throw (.io abs e)
  | .file blob _ mode => do
      edit env abs.dropLast fun files => files.mkdirAll [] abs.dropLast
      let bytes ← readBlob env blob
      call env abs
      putBack env abs (.file bytes mode)
  | .symlink target => do
      edit env abs.dropLast fun files => files.mkdirAll [] abs.dropLast
      call env abs
      putBack env abs (.link target true)

/-! ## Undo -/

/-- What is shown of what was found. -/
def Fingerprint.text : Fingerprint → String
  | .absent => "absent"
  | .file sha256 => "file sha256:" ++ String.ofList (sha256.toList.take 12)
  | .symlink target => "symlink -> " ++ target
  | .other what => what

/-- The folder is still the same real directory, and no parent has become a link. -/
def recheckEntries (root : List String) : List Entry → Prog World Error Unit
  | [] => pure ()
  | e :: entries => do
      let _ ← walkParents env (relText e.path) root [] e.path.dropLast
      recheckEntries root entries

def sameRoot (m : Manifest) (now : List String) : Except Error Unit :=
  if now = m.root then .ok () else .error (.path (locText m.root) "the granted folder moved or is now a symbolic link")

def recheck : List Manifest → Prog World Error Unit
  | [] => pure ()
  | m :: steps => do
      let now ← canonicalRoot env (locText m.root) true (m.root.map .name)
      .ofExcept (sameRoot m now)
      recheckEntries env m.root m.entries
      recheck steps

/-- What each path would hold by then. -/
abbrev Virtual : Type := AList fun _ : List String => Fingerprint

def current (virt : Virtual) (abs : List String) : Prog World Error Fingerprint :=
  match virt.lookup abs with
  | some f => pure f
  | none => fingerprintNow env abs

def conflictOf (m : Manifest) (e : Entry) (now : Fingerprint) : List Conflict :=
  if now ≠ e.before.fingerprint ∧ now ≠ e.post then [{ seq := m.seq, path := relText e.path, found := now.text }] else []

def preflightEntries (m : Manifest) : List Entry → Virtual → Prog World Error (List Conflict × Virtual)
  | [], virt => pure ([], virt)
  | e :: entries, virt => do
      let now ← current env virt (m.root ++ e.path)
      let (more, virt) ← preflightEntries m entries (virt.insert (m.root ++ e.path) e.before.fingerprint)
      pure (conflictOf m e now ++ more, virt)

/-- The steps are checked as a whole, newest first. -/
def preflight : List Manifest → Virtual → Prog World Error (List Conflict)
  | [], _ => pure []
  | m :: steps, virt => do
      let (found, virt) ← preflightEntries env m m.entries virt
      let more ← preflight steps virt
      pure (found ++ more)

def refuseConflicts (conflicts : List Conflict) : Except Error Unit :=
  if conflicts = [] then .ok () else .error (.conflict conflicts)

def verifyEntries : List Entry → Prog World Error Unit
  | [] => pure ()
  | e :: entries => do
      match e.before with
      | .file blob _ _ => do
          let _ ← readBlob env blob
          verifyEntries entries
      | _ => verifyEntries entries

def verifyAll : List Manifest → Prog World Error Unit
  | [] => pure ()
  | m :: steps => do
      verifyEntries env m.entries
      verifyAll steps

def restoreEntries (root : List String) : List Entry → Prog World Error Unit
  | [] => pure ()
  | e :: entries => do
      restore env (root ++ e.path) e.before
      restoreEntries root entries

/-- Directories the step made are removed when they are empty; a failure is passed over. -/
def removeDirs (root : List String) : List (List String) → Prog World Error Unit
  | [] => pure ()
  | d :: dirs => do
      let _ ← (.attempt (edit env (root ++ d) fun files => files.removeDir (root ++ d)) : Prog World Error _)
      removeDirs root dirs

def undoOne (key : String) (m : Manifest) : Prog World Error Unit := do
  restoreEntries env m.root m.entries
  removeDirs env m.root m.createdDirs.reverse
  writeManifest env { m with status := .undone }
  memory fun g => { g with manifests := g.manifests.insert (key, m.seq) { m with status := .undone } }

def undoEach (session : String) : List Manifest → Prog World Error Unit
  | [] => pure ()
  | m :: steps => do
      undoOne env session m
      undoEach session steps

structure UndoReport where
  steps : List ℕ
  restored : List String
  prunedThrough : Option ℕ
deriving DecidableEq

def UndoReport.of (steps : List Manifest) : UndoReport where
  steps := steps.map Manifest.seq
  restored := steps.flatMap fun m => m.entries.map fun e => relText e.path
  prunedThrough := none

def refuseInFlight (g : Inner) (steps : List Manifest) : Except Error Unit :=
  match (steps.flatMap fun m => m.entries.map fun e => (m.root ++ e.path, e.path)).find? fun p => decide (p.1 ∈ g.busy) with
  | some p => .error (.busy (relText p.2))
  | none => .ok ()

def undoMany (session : String) (steps : List Manifest) : Prog World Error UndoReport := do
  let g ← .read World.inner
  .ofExcept (refuseInFlight g steps)
  recheck env steps
  let conflicts ← preflight env steps ∅
  .ofExcept (refuseConflicts conflicts)
  verifyAll env steps
  undoEach env session steps
  touch env session
  pure (.of steps)

/-- The first path of a step, which is told when the step is in flight. -/
def Manifest.firstPath (m : Manifest) : String := (m.entries.head?.map fun e => relText e.path).getD ""

/-- Why a step that is not on record cannot be undone. -/
def Inner.missing (g : Inner) (session : String) (seq : ℕ) : Error :=
  match g.sessions.lookup session with
  | some m => if 0 < seq ∧ seq ≤ m.prunedThrough then .pruned session seq else .notFound session seq
  | none => .notFound session seq

def undoStepIn (g : Inner) (session : String) (seq : ℕ) : Prog World Error UndoReport :=
  match g.manifests.lookup (session, seq) with
  | none => .throw (g.missing session seq)
  | some m =>
      match m.status with
      | .undone => .throw (.alreadyUndone session seq)
      | .prepared => .throw (.busy m.firstPath)
      | .committed | .interrupted => undoMany env session [m]

def undoStep (session : String) (seq : ℕ) : Prog World Error UndoReport := do
  let g ← .read World.inner
  undoStepIn env g session seq

/-- The steps of a session that are not undone, newest first. -/
def Inner.toUndo (g : Inner) (session : String) : List Manifest :=
  (g.manifests.entries.filterMap fun e => if e.1.1 = session ∧ e.2.status ≠ .undone then some e.2 else none).mergeSort
    fun m m' => decide (m'.seq ≤ m.seq)

def Inner.prunedOf (g : Inner) (session : String) : Option ℕ :=
  ((g.sessions.lookup session).map SessionMeta.prunedThrough).filter fun n => decide (0 < n)

def undoSessionIn (g : Inner) (session : String) : Prog World Error UndoReport :=
  match (g.toUndo session).find? fun m => decide (m.status = .prepared) with
  | some m => .throw (.busy m.firstPath)
  | none =>
      if g.toUndo session = [] then pure { steps := [], restored := [], prunedThrough := g.prunedOf session }
      else do
        let report ← undoMany env session (g.toUndo session)
        pure { report with prunedThrough := g.prunedOf session }

def undoSession (session : String) : Prog World Error UndoReport := do
  let g ← .read World.inner
  undoSessionIn env g session

/-! ## Opening -/

/-- A step that was in flight is interrupted. -/
def loadManifest (m : Manifest) : Prog World Error Manifest :=
  if m.status = .prepared then do
    writeManifest env { m with status := .interrupted }
    pure { m with status := .interrupted }
  else pure m

def Inner.loaded (session : String) (m : Manifest) (g : Inner) : Inner :=
  let old := g.metaOf session
  { g with manifests := g.manifests.insert (session, m.seq) m }.setMeta session { old with lastSeq := max old.lastSeq m.seq }

def refuseForeign (session : String) (m : Manifest) : Except Error Unit :=
  if m.session = session then .ok ()
  else .error (.corrupt (locText (env.manifestPath session m.seq) ++ " has an unexpected version or session"))

def loadSteps (session : String) : List Manifest → Prog World Error Unit
  | [] => pure ()
  | m :: steps => do
      call env (env.manifestPath session m.seq)
      .ofExcept (refuseForeign env session m)
      let m ← loadManifest env m
      memory (Inner.loaded session m)
      loadSteps session steps

/-- The sessions the directory knows of. -/
def Disk.known (d : Disk) : List String := (d.sessions.keys ++ d.manifests.keys.map Prod.fst).dedup

def Disk.stepsOf (d : Disk) (session : String) : List Manifest :=
  d.manifests.entries.filterMap fun e => if e.1.1 = session then some e.2 else none

def Inner.opened (session : String) (m : SessionMeta) (g : Inner) : Inner :=
  { g.setMeta session m with tick := max g.tick m.lastUsed }

def loadSessions : List String → Prog World Error Unit
  | [] => pure ()
  | session :: sessions => do
      call env (env.sessionDir session)
      let d ← .read World.disk
      memory (Inner.opened session ((d.sessions.lookup session).getD .default))
      call env (env.stepsDir session)
      loadSteps env session (d.stepsOf session)
      loadSessions sessions

def Inner.scanned (d : Disk) (g : Inner) : Inner :=
  { g with blobs := (d.blobs.entries.map fun e => (⟨e.1, e.2.length⟩ : Sigma fun _ : String => ℕ)).toAList }

/-- `CheckpointStore::open`, behind the lock. -/
def openStore : Prog World Error Unit := do
  call env env.dir
  call env env.tmpDir
  memory fun _ => .empty
  let d ← .read World.disk
  loadSessions env d.known
  call env env.dir
  memory (Inner.scanned d)
  gc env

end

end AgentRuntime.Checkpoints
