import AgentRuntime.Skills.Files
import AgentRuntime.Lib.SortedMap
import Mathlib.Data.String.Basic

/-!
# `Skills.Load` — loading a library of skills (`agent-loop/src/skills.rs`)

The sources are searched in their order, each by its folders or by its lock, and the first that has a skill of a name
provides it. How the text of a `SKILL.md` is read is a parameter (`Env.parseSkillMd`).
-/

namespace AgentRuntime.Skills

open AgentRuntime.Guard (hasRoot components)

def maxSkillFileBytes : ℕ := 64 * 1024
def maxRefBytes : ℕ := 128 * 1024
def maxSkillsPerSource : ℕ := 512
def maxScanDirs : ℕ := 4096
def maxScanDepth : ℕ := 6
def maxFilesListed : ℕ := 64
def maxResourceDepth : ℕ := 4
def maxLockedFileBytes : ℕ := 16 * 1024 * 1024

/-! ## Skills and reports -/

structure SkillFrontmatter where
  name : String
  description : String
  license : Option String
  compatibility : Option String
  metadata : List (String × String)
  allowedTools : List String
  extensions : List (String × String)
deriving DecidableEq

/-- Where a reviewed skill came from. -/
structure Provenance where
  source : String
  upstream : String
  commit : String
  license : String
  path : String
  verdict : String
  skillMdSha256 : String
  upstreamSkillMdSha256 : String
  intakeRewrite : Option String
deriving DecidableEq

structure Skill where
  name : String
  description : String
  /-- The label of the source it came from. -/
  source : String
  /-- The canonical folder. -/
  dir : List String
  body : String
  frontmatter : SkillFrontmatter
  refs : List String
  scripts : List String
  provenance : Option Provenance
  /-- What `skills.lock` pins for each listed file. -/
  refSha256 : List (String × String)
  stripped : List String
deriving DecidableEq

def Skill.mdPath (s : Skill) : Path := (Path.ofLoc s.dir).child "SKILL.md"

structure Rejected where
  path : Path
  reason : String

structure Shadowed where
  name : String
  keptSource : String
  droppedSource : String

structure LoadReport where
  rejected : List Rejected
  shadowed : List Shadowed

/-! ## The lock -/

structure LockSource where
  label : String
  upstream : String
  commit : String
  license : String

structure LockRef where
  path : String
  sha256 : String

structure LockedSkill where
  name : String
  source : String
  commit : String
  path : String
  verdict : String
  skillMdSha256 : String
  shippedSkillMdSha256 : Option String
  intakeRewrite : Option String
  refs : List LockRef
  stripped : List String

structure SkillLock where
  sources : List LockSource
  skills : List LockedSkill

def shippingVerdicts : List String := ["include-as-is", "include-with-scripts-stripped", "convert-script-to-capsule"]

def LockedSkill.ships (e : LockedSkill) : Bool := shippingVerdicts.contains e.verdict

def LockedSkill.shippedSha256 (e : LockedSkill) : String := e.shippedSkillMdSha256.getD e.skillMdSha256

/-- The skills the lock ships. -/
def SkillLock.admitted (lock : SkillLock) : List LockedSkill := lock.skills.filter LockedSkill.ships

def SkillLock.source (lock : SkillLock) (label : String) : Option LockSource :=
  lock.sources.find? fun s => s.label == label

structure SkillSource where
  label : String
  root : Path
  lock : Option SkillLock

/-! ## Finding skills -/

structure Env where
  fs : Fs
  /-- The frontmatter and the body, or why the text is refused. -/
  parseSkillMd : String → Except String (SkillFrontmatter × String)
  sha256Hex : List UInt8 → String

def isHidden (n : String) : Bool := n.toList.head? == some '.'

section

variable (fs : Fs)

/-- The folders in a folder that are searched, sorted. -/
def Fs.subdirs (dir : Path) : List Path :=
  ((fs.sortedNames dir).filter fun n => !isHidden n && fs.isDir (dir.child n)).map dir.child

def Fs.holdsSkill (dir : Path) : Bool := fs.isFile (dir.child "SKILL.md")

/-- The loop of `discover`: the folders left to visit, the stack, and what was found; whether the scan was stopped. -/
def discoverLoop : ℕ → List (Path × ℕ) → List Path → List Path × Bool
  | _, [], found => (found, false)
  | 0, _ :: _, found => (found, true)
  | left + 1, (dir, depth) :: stack, found =>
      if fs.holdsSkill dir then discoverLoop left stack (found ++ [dir])
      else if maxScanDepth ≤ depth then discoverLoop left stack found
      else discoverLoop left ((fs.subdirs dir).map (·, depth + 1) ++ stack) found

def discover (root : Path) : List Path × List Rejected :=
  let (found, stopped) := discoverLoop fs maxScanDirs [(root, 0)] []
  (found, if stopped then [⟨root, s!"scan stopped after {maxScanDirs} directories"⟩] else [])

/-! ## The files of a skill -/

/-- What is listed so far, and the folders still to be listed, at their place below the skill. -/
structure Listing where
  refs : List String
  scripts : List String
  pushed : List (List String)

def Listing.full (l : Listing) : Bool := decide (maxFilesListed ≤ l.refs.length + l.scripts.length)

/-- `rel_string`. -/
def relString (rel : List String) : String := String.ofList (['/'].intercalate (rel.map String.toList))

/-- A file is listed as a script or as a file to be read. -/
def Listing.add (l : Listing) (rel : List String) : Listing :=
  if relString rel = "SKILL.md" then l
  else if (relString rel).startsWith "scripts/" then { l with scripts := l.scripts ++ [relString rel] }
  else { l with refs := l.refs ++ [relString rel] }

/-- One entry of a folder of the skill. -/
def listEntry (dir : List String) (depth : ℕ) (l : Listing) (rel : List String) : Listing :=
  match fs.lstat (.ofLoc (dir ++ rel)) with
  | .error _ => l
  | .ok (_, .link _) =>
      match fs.canonicalize (.ofLoc (dir ++ rel)) with
      | .ok target => if dir <+: target ∧ fs.isFile (.ofLoc target) then l.add rel else l
      | .error _ => l
  | .ok (_, .folder) => if depth + 1 < maxResourceDepth then { l with pushed := l.pushed ++ [rel] } else l
  | .ok (loc, .file) => if fs.special loc then l else l.add rel

/-- The entries of one folder, until the listing is full. -/
def listEntries (dir sub : List String) (depth : ℕ) : List String → Listing → Listing
  | [], l => l
  | n :: ns, l =>
      if l.full then l
      else if isHidden n then listEntries dir sub depth ns l
      else listEntries dir sub depth ns (listEntry fs dir depth l (sub ++ [n]))

/-- A folder, and then the folders in it; the one pushed last comes first, with everything below it. -/
def listFolder (dir : List String) : ℕ → List String → List String × List String → List String × List String
  | levels, sub, (refs, scripts) =>
      let l := listEntries fs dir sub (maxResourceDepth - 1 - levels) (fs.sortedNames (.ofLoc (dir ++ sub)))
        ⟨refs, scripts, []⟩
      match levels with
      | 0 => (l.refs, l.scripts)
      | levels + 1 => l.pushed.reverse.foldl (fun done sub => listFolder dir levels sub done) (l.refs, l.scripts)

def sortTexts (texts : List String) : List String := texts.insertionSort (· ≤ ·)

/-- `list_resources`: the files to be read, and the scripts. -/
def listResources (dir : List String) : List String × List String :=
  let (refs, scripts) := listFolder fs dir (maxResourceDepth - 1) [] ([], [])
  (sortTexts refs, sortTexts scripts)

end

/-! ## Loading one skill -/

inductive SkillError where
  | tooLarge
  | notUtf8
  | io (kind : String)

def SkillError.toString : SkillError → String
  | .tooLarge => s!"SKILL.md is larger than {maxSkillFileBytes} bytes"
  | .notUtf8 => "SKILL.md is not UTF-8 text"
  | .io e => s!"read failed: {e}"

section

variable (env : Env)

/-- What `fs::canonicalize` gives, or the text of its error. -/
def canonicalOr (p : Path) (reason : String → String) : Except String (List String) :=
  (env.fs.canonicalize p).mapError fun e => reason (errnoText e)

/-- The text of a file, followed through links. -/
def readSkillMd (file : Path) : Except String String := do
  let loc ← canonicalOr env file fun e => (SkillError.io e).toString
  if maxSkillFileBytes < (env.fs.bytes loc).length then .error SkillError.tooLarge.toString
  else (fromUtf8 (env.fs.bytes loc)).elim (.error SkillError.notUtf8.toString) .ok

def checkDirName (dir : Path) (fm : SkillFrontmatter) : Except String Unit :=
  let dirName := dir.fileName.getD ""
  if dirName = fm.name then .ok () else .error s!"name '{fm.name}' does not match its directory '{dirName}'"

def loadOne (dir : Path) (source : String) : Except String Skill := do
  let text ← readSkillMd env (dir.child "SKILL.md")
  let (fm, body) ← env.parseSkillMd text
  checkDirName dir fm
  let canon ← canonicalOr env dir fun e => (SkillError.io e).toString
  pure
    { name := fm.name, description := fm.description, source, dir := canon, body, frontmatter := fm,
      refs := (listResources env.fs canon).1, scripts := (listResources env.fs canon).2, provenance := none,
      refSha256 := [], stripped := [] }

/-! ## Loading by the lock -/

/-- `read_pinned`: a regular file with the pinned hash. -/
def readPinned (p : Path) (want : String) (max : ℕ) : Except String (List UInt8) :=
  match env.fs.lstat p with
  | .error e => .error (errnoText e)
  | .ok (loc, kind) =>
      if kind ≠ .file ∨ env.fs.special loc then .error "not a regular file"
      else if max < (env.fs.bytes loc).length then .error s!"larger than {max} bytes"
      else if env.sha256Hex (env.fs.bytes loc) ≠ want then .error "does not match skills.lock"
      else .ok (env.fs.bytes loc)

/-- `safe_rel`: plain names only; a leading `.` is a component. -/
def safeRel (rel : String) : Bool :=
  !rel.isEmpty && !hasRoot rel && !rel.toList.contains '\\' && (rel.toList.splitOn '/').head? != some ['.'] &&
    (components rel).all fun c => match c with | .name _ => true | .up => false

/-- Why a locked skill is refused. -/
def lockReason (label : String) (e : LockedSkill) (reason : String) : String :=
  s!"source '{label}', skill '{e.name}': {reason}"

/-- A check of the lock's loader. -/
def ensure (cond : Bool) (r : Rejected) : Except Rejected Unit := if cond then .ok () else .error r

/-- The files that are pinned: listed, with their hashes. -/
def loadRefs (reject : Path → String → Rejected) (dir : List String) :
    List LockRef → List String → List (String × String) → Except Rejected (List String × List (String × String))
  | [], refs, pins => .ok (refs, pins)
  | r :: rest, refs, pins =>
      if maxFilesListed ≤ refs.length then .ok (refs, pins)
      else if !safeRel r.path || r.path.startsWith "scripts/" || r.path == "SKILL.md" then
        .error (reject ((Path.ofLoc dir).join r.path) s!"ref '{r.path}' is not allowed")
      else if (env.fs.canonicalize ((Path.ofLoc dir).join r.path)).toOption.any fun c => decide (dir <+: c) then
        match readPinned env ((Path.ofLoc dir).join r.path) r.sha256 maxLockedFileBytes with
        | .error e => .error (reject ((Path.ofLoc dir).join r.path) s!"ref '{r.path}' {e}")
        | .ok _ => loadRefs reject dir rest (refs ++ [r.path]) (SortedMap.insert r.path r.sha256 pins)
      else .error (reject ((Path.ofLoc dir).join r.path) s!"ref '{r.path}' is not staged inside the skill")

/-- The folder of a locked skill. -/
def lockedDir (root : List String) (reject : Path → String → Rejected) (e : LockedSkill) :
    Except Rejected (List String) := do
  let nominal := ((Path.ofLoc root).join e.source).join e.path
  ensure (safeRel e.source && safeRel e.path) (reject nominal "lock path is not a plain relative path")
  let dir ← (env.fs.canonicalize nominal).mapError fun err => reject nominal s!"not staged ({errnoText err})"
  ensure (decide (root <+: dir)) (reject nominal "resolves outside the staged tree")
  pure dir

/-- The `SKILL.md` of a locked skill. -/
def lockedMd (reject : Path → String → Rejected) (dir : List String) (e : LockedSkill) :
    Except Rejected (SkillFrontmatter × String) := do
  let md := (Path.ofLoc dir).child "SKILL.md"
  let bytes ← (readPinned env md e.shippedSha256 maxSkillFileBytes).mapError fun err => reject md s!"SKILL.md {err}"
  let text ← (fromUtf8 bytes).elim (.error (reject md SkillError.notUtf8.toString)) .ok
  let (fm, body) ← (env.parseSkillMd text).mapError (reject md)
  ensure (decide (fm.name = e.name)) (reject md s!"SKILL.md names '{fm.name}', the lock '{e.name}'")
  ensure (decide (dir.getLast? = some fm.name)) (reject md "name does not match its directory")
  pure (fm, body)

def LockedSkill.provenance (e : LockedSkill) (src : LockSource) : Provenance where
  source := e.source
  upstream := src.upstream
  commit := e.commit
  license := src.license
  path := e.path
  verdict := e.verdict
  skillMdSha256 := e.shippedSha256
  upstreamSkillMdSha256 := e.skillMdSha256
  intakeRewrite := e.intakeRewrite

def loadLockedOne (root : List String) (label : String) (lock : SkillLock) (e : LockedSkill) :
    Except Rejected Skill := do
  let reject := fun (path : Path) (reason : String) => (⟨path, lockReason label e reason⟩ : Rejected)
  let dir ← lockedDir env root reject e
  let (fm, body) ← lockedMd env reject dir e
  let (refs, pins) ← loadRefs env reject dir e.refs [] []
  match lock.source e.source with
  | none =>
      .error (reject ((Path.ofLoc dir).child "SKILL.md") s!"source '{e.source}' is not declared in the lock")
  | some src =>
      .ok
        { name := fm.name, description := fm.description, source := label, dir, body, frontmatter := fm,
          refs := sortTexts refs, scripts := [], provenance := some (e.provenance src), refSha256 := pins,
          stripped := sortTexts e.stripped }

/-- `load_locked`: one result for each skill the lock ships. -/
def loadLocked (root : Path) (label : String) (lock : SkillLock) : List (Except Rejected Skill) :=
  match env.fs.canonicalize root with
  | .error e => [.error ⟨root, s!"source '{label}': {errnoText e}"⟩]
  | .ok canon => lock.admitted.map (loadLockedOne env canon label lock)

/-! ## One source -/

/-- What a source has so far: the skills by their names, how many were accepted, and the refusals. -/
structure Found where
  byName : List (String × List Skill)
  accepted : ℕ
  rejected : List Rejected

def Found.copies (f : Found) (name : String) : List Skill := (f.byName.lookup name).getD []

def Found.push (f : Found) (s : Skill) : Found where
  byName := SortedMap.insert s.name (f.copies s.name ++ [s]) f.byName
  accepted := f.accepted + 1
  rejected := f.rejected

def Found.reject (f : Found) (r : Rejected) : Found := { f with rejected := f.rejected ++ [r] }

def tooMany (label : String) : String := s!"source '{label}' has more than {maxSkillsPerSource} skills"

/-- One result of the lock. -/
def acceptLocked (label : String) (f : Found) : Except Rejected Skill → Found
  | .error r => f.reject r
  | .ok s => if maxSkillsPerSource ≤ f.accepted then f.reject ⟨s.mdPath, tooMany label⟩ else f.push s

/-- One folder; the same folder reached twice is one skill. -/
def acceptDir (label : String) (f : Found) (dir : Path) : Found :=
  if maxSkillsPerSource ≤ f.accepted then f.reject ⟨dir.child "SKILL.md", tooMany label⟩
  else
    match loadOne env dir label with
    | .error reason => f.reject ⟨dir.child "SKILL.md", reason⟩
    | .ok s => if (f.copies s.name).any fun c => c.dir == s.dir then f else f.push s

def scanSource (src : SkillSource) : Found :=
  match src.lock with
  | some lock => (loadLocked env src.root src.label lock).foldl (acceptLocked src.label) ⟨[], 0, []⟩
  | none =>
      (discover env.fs src.root).1.foldl (acceptDir env src.label) ⟨[], 0, (discover env.fs src.root).2⟩

/-! ## All sources -/

/-- The library while it is loaded, with the names that an earlier source holds more than once. -/
structure Loading where
  skills : List (String × Skill)
  ambiguous : List String
  report : LoadReport

def Loading.reject (l : Loading) (rs : List Rejected) : Loading :=
  { l with report := { l.report with rejected := l.report.rejected ++ rs } }

def duplicateReason (label name : String) : String :=
  s!"duplicate skill name '{name}' in source '{label}' (ambiguous; none loaded)"

def ambiguousReason (label name : String) : String :=
  s!"skill name '{name}' is ambiguous in a higher-precedence source; not loaded from '{label}'"

/-- A source has one skill of the name. -/
def provide (label name : String) (l : Loading) (s : Skill) : Loading :=
  match l.skills.lookup name with
  | some kept => { l with report := { l.report with shadowed := l.report.shadowed ++ [⟨name, kept.source, label⟩] } }
  | none =>
      if name ∈ l.ambiguous then l.reject [⟨s.mdPath, ambiguousReason label name⟩]
      else { l with skills := SortedMap.insert name s l.skills }

/-- One name of a source. -/
def mergeName (label : String) (l : Loading) : String × List Skill → Loading
  | (_, []) => l
  | (name, [s]) => provide label name l s
  | (name, copies) =>
      let l := l.reject (copies.map fun c => ⟨c.mdPath, duplicateReason label name⟩)
      { l with ambiguous := name :: l.ambiguous }

def loadSource (l : Loading) (src : SkillSource) : Loading :=
  if env.fs.isDir src.root then
    (scanSource env src).byName.foldl (mergeName src.label) (l.reject (scanSource env src).rejected)
  else l.reject [⟨src.root, s!"source '{src.label}': not a directory"⟩]

structure SkillLibrary where
  skills : List (String × Skill)
  report : LoadReport

/-- `SkillLibrary::load`. -/
def load (sources : List SkillSource) : SkillLibrary :=
  let l := sources.foldl (loadSource env) ⟨[], [], ⟨[], []⟩⟩
  ⟨l.skills, l.report⟩

def SkillLibrary.get (lib : SkillLibrary) (name : String) : Option Skill := lib.skills.lookup name

end

end AgentRuntime.Skills
