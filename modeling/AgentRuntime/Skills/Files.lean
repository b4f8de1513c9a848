import AgentRuntime.Guard.Path
import Mathlib.Data.List.Dedup
import Mathlib.Data.List.Sort
import Mathlib.Data.String.Basic

/-!
# `Skills.Files` — the files a skill loader sees (`agent-loop/src/skills.rs`)

A file tree that does not change, with symbolic links and special files, and what the loader asks of it. The names are
UTF-8, and everything in the tree can be read.
-/

namespace AgentRuntime.Skills

open FileTree
open AgentRuntime.Guard (hasRoot components route NormalName)

/-! ## Paths -/

/-- `PathBuf`: from the root or from the working directory, through its components. -/
abbrev Path : Type := Route String

def Path.ofText (p : String) : Path := route p

namespace Path

/-- `Path::join` with a plain name. -/
def child (p : Path) (n : String) : Path := { p with comps := p.comps ++ [.name n] }

/-- `Path::join`: a path with a root replaces the one before it. -/
def join (p : Path) (rel : String) : Path :=
  if hasRoot rel then ofText rel else { p with comps := p.comps ++ components rel }

/-- `Path::file_name`. -/
def fileName (p : Path) : Option String :=
  match p.comps.getLast? with
  | some (.name n) => some n
  | _ => none

/-- The path of a location. -/
def ofLoc (loc : List String) : Path where
  rooted := true
  comps := loc.map .name

end Path

/-! ## The tree -/

structure Fs where
  tree : Tree String String
  /-- Something that is neither a regular file, a folder nor a link. -/
  special : List String → Bool
  bytes : List String → List UInt8
  cwd : List String
  cwd_unlinked : Unlinked tree.view cwd
  named : ∀ loc n, tree.view (loc ++ [n]) ≠ none → NormalName n

namespace Fs

variable (fs : Fs)

def view : View String String := fs.tree.view

/-- `fs::canonicalize`. -/
def canonicalize (p : Path) : Except Errno (List String) :=
  resolve fs.view route 40 (if p.rooted then [] else fs.cwd) p.comps

/-- A regular file is at the location. -/
def regular (loc : List String) : Bool := decide (fs.view loc = some .file) && !fs.special loc

/-- `Path::is_file`; links are followed. -/
def isFile (p : Path) : Bool :=
  match fs.canonicalize p with
  | .ok loc => fs.regular loc
  | .error _ => false

/-- `Path::is_dir`. -/
def isDir (p : Path) : Bool :=
  match fs.canonicalize p with
  | .ok loc => decide (fs.view loc = some .folder)
  | .error _ => false

/-- What a folder holds. -/
def names (loc : List String) : List String :=
  match fs.tree.find loc with
  | some (.folder entries) => (entries.map Prod.fst).dedup
  | _ => []

/-- The names `read_dir` tells, sorted. -/
def sortedNames (p : Path) : List String :=
  match fs.canonicalize p with
  | .ok loc => (fs.names loc).insertionSort (· ≤ ·)
  | .error _ => []

/-- `symlink_metadata`: what the path names, and where it is; the links above it are followed, it is not. -/
def lstat (p : Path) : Except Errno (List String × Kind String) :=
  match p.comps.getLast? with
  | some (.name n) =>
      match fs.canonicalize { p with comps := p.comps.dropLast } with
      | .error e => .error e
      | .ok parent =>
          match fs.view (parent ++ [n]) with
          | some kind => .ok (parent ++ [n], kind)
          | none => .error .notFound
  | _ =>
      match fs.canonicalize p with
      | .error e => .error e
      | .ok loc => .ok (loc, .folder)

theorem view_grounded : Grounded fs.view := fs.tree.view_grounded

variable {fs}

theorem canonicalize_ofLoc {loc : List String} (h : Unlinked fs.view loc) (hsome : fs.view loc ≠ none) :
    fs.canonicalize (.ofLoc loc) = .ok loc :=
  resolve_present fs.view_grounded h hsome

/-- By a location without links, one gets there or nowhere. -/
theorem canonicalize_ofLoc_eq {loc d : List String} (h : Unlinked fs.view loc)
    (hd : fs.canonicalize (.ofLoc loc) = .ok d) : d = loc := by
  have hnames : ∀ follow, resolveWith fs.view route follow [] (loc.map .name) = .ok d → d = loc := by
    intro follow hd
    rcases @resolveWith_names _ _ fs.view route fs.view_grounded follow [] loc h with hok | ⟨⟨e, -, herr⟩, -⟩
    · rw [hok] at hd
      exact (Except.ok.inj hd).symm
    · rw [herr] at hd
      cases hd
  exact hnames _ hd

theorem isFile_ofLoc {loc : List String} (h : Unlinked fs.view loc) : fs.isFile (.ofLoc loc) = fs.regular loc := by
  unfold isFile
  cases hd : fs.canonicalize (.ofLoc loc) with
  | ok d => exact congrArg fs.regular (canonicalize_ofLoc_eq h hd)
  | error e =>
      have hnone : fs.view loc = none := by
        by_contra hsome
        rw [canonicalize_ofLoc h hsome] at hd
        cases hd
      unfold regular
      rw [hnone]
      rfl

/-- The links above the last name are followed. -/
theorem lstat_concat (loc : List String) (n : String) : fs.lstat (.ofLoc (loc ++ [n])) =
    match fs.canonicalize (.ofLoc loc) with
    | .error e => .error e
    | .ok parent =>
        match fs.view (parent ++ [n]) with
        | some kind => .ok (parent ++ [n], kind)
        | none => .error .notFound := by
  have hlast : (Path.ofLoc (loc ++ [n])).comps.getLast? = some (.name n) := by
    unfold Path.ofLoc
    rw [List.map_append]
    exact List.getLast?_concat
  have hdrop : ({ Path.ofLoc (loc ++ [n]) with comps := (Path.ofLoc (loc ++ [n])).comps.dropLast } : Path) =
      Path.ofLoc loc := by
    unfold Path.ofLoc
    rw [List.map_append]
    exact congrArg (Route.mk true) List.dropLast_concat
  unfold lstat
  rw [hlast]
  simp only [hdrop]

theorem lstat_ofLoc {loc : List String} {n : String} {kind : Kind String} (h : Unlinked fs.view loc)
    (hkind : fs.view (loc ++ [n]) = some kind) : fs.lstat (.ofLoc (loc ++ [n])) = .ok (loc ++ [n], kind) := by
  have hparent : fs.view loc ≠ none := by
    rw [fs.view_grounded loc n (by rw [hkind]; exact nofun)]
    exact nofun
  rw [lstat_concat, canonicalize_ofLoc h hparent]
  simp only [hkind]

theorem lstat_ofLoc_ok {loc d : List String} {n : String} {kind : Kind String} (h : Unlinked fs.view loc)
    (hd : fs.lstat (.ofLoc (loc ++ [n])) = .ok (d, kind)) : d = loc ++ [n] ∧ fs.view (loc ++ [n]) = some kind := by
  rw [lstat_concat] at hd
  cases hparent : fs.canonicalize (Path.ofLoc loc) with
  | error e =>
      rw [hparent] at hd
      cases hd
  | ok parent =>
      rw [hparent] at hd
      obtain rfl := canonicalize_ofLoc_eq h hparent
      simp only at hd
      cases hkind : fs.view (parent ++ [n]) with
      | none =>
          rw [hkind] at hd
          cases hd
      | some k =>
          rw [hkind] at hd
          cases hd
          exact ⟨rfl, rfl⟩

end Fs

theorem Path.ofLoc_child (loc : List String) (n : String) : (Path.ofLoc loc).child n = .ofLoc (loc ++ [n]) := by
  unfold Path.child Path.ofLoc
  rw [List.map_append]
  rfl

/-- `ErrorKind`'s text. -/
def errnoText : Errno → String
  | .notFound => "entity not found"
  | .notDirectory => "not a directory"
  | .loop => "filesystem loop or indirection limit (e.g. symlink loop)"

/-- `String::from_utf8`. -/
def fromUtf8 (bytes : List UInt8) : Option String := String.fromUTF8? bytes.toByteArray

theorem fromUtf8_toByteArray (s : String) : fromUtf8 s.toByteArray.data.toList = some s := by
  have hbytes : s.toByteArray.data.toList.toByteArray = s.toByteArray := ByteArray.ext (by rw [List.data_toByteArray])
  unfold fromUtf8 String.fromUTF8?
  rw [hbytes, dif_pos s.isValidUTF8]
  rfl

end AgentRuntime.Skills
