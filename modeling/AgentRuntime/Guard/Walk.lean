import AgentRuntime.Guard.Rules

/-!
# `Guard.Walk` — resolving a request like the kernel (`check_path`)

The tree is static. `walk` goes through a path's components and stops at every link to walk the joined target from its
start, with one budget of links for the whole request; the budget it returns is part of its type, so that the walk is
seen to end.
-/

namespace AgentRuntime.Guard

open FileTree

/-- The kernel's own bound on the links of one lookup, and the guard's. -/
def maxSymlinks : ℕ := 40

/-- What the root folder holds, and the folder the process is in. -/
structure FileSystem where
  entries : List (String × Tree String String)
  processDir : List String
  /-- Any other failure of looking at a location. -/
  inspectError : Location → Option String

/-- What `symlink_metadata` says of a location. -/
inductive Metadata where
  | absent
  | present
  | symlink (target : String)
  | failed (error : String)
deriving DecidableEq

/-- What looking at a file, a link or a folder says, or at nothing. -/
def Metadata.ofKind : Option (Kind String) → Metadata
  | none => .absent
  | some (.link target) => .symlink target
  | some _ => .present

theorem Metadata.ofKind_symlink {found : Option (Kind String)} {target : String}
    (h : Metadata.ofKind found = .symlink target) : found = some (.link target) := by
  unfold Metadata.ofKind at h
  split at h
  · cases h
  · cases h
    rfl
  · cases h

namespace FileSystem

/-- What is there, the root folder at the top. -/
def view (fs : FileSystem) : View String String := Tree.view (.folder fs.entries)

/-- `symlink_metadata`: the kernel walks to the folder of a location, links included, and looks at its last name. -/
def symlinkMetadata (fs : FileSystem) (l : Location) : Metadata :=
  match fs.inspectError l with
  | some e => .failed e
  | none =>
      let start := if l.rooted then [] else fs.processDir
      match resolve fs.view route maxSymlinks start (l.names.dropLast.map .name) with
      | .error .loop => .failed "Too many levels of symbolic links (os error 40)"
      | .error _ => .absent
      | .ok dir => .ofKind (fs.view (dir ++ l.names.getLast?.toList))

end FileSystem

/-- Where relative paths and `~` resolve, and which roots may hold `.env` files. -/
structure GuardContext where
  home : String
  cwd : String
  projectRoots : List String

def denied (category : DenyCategory) (reason : String) : Denied where
  category := category
  reason := reason

/-- Turn the caller's string into an absolute, unresolved path. -/
def interpret (input : String) (ctx : GuardContext) : Except Denied String :=
  if input.toList = [] then .error (denied .malformed "empty path")
  else if input.toList.contains '\x00' then .error (denied .malformed "path contains a NUL byte")
  else
    let unified := input.toList.map fun c => if c = '\\' then '/' else c
    let expanded : Except Denied String :=
      if unified = ['~'] then .ok ctx.home
      else if ['~', '/'].isPrefixOf unified then
        .ok (join ctx.home (String.ofList ((unified.drop 2).dropWhile fun c => c = '/')))
      else if unified.head? = some '~' then
        .error (denied .malformed "`~user` paths are not supported; use an absolute path")
      else .ok (String.ofList unified)
    expanded.map fun expanded => if hasRoot expanded then expanded else join ctx.cwd expanded

section

variable (fs : FileSystem) (check : Location → Except Denied Unit)

/-- The components of `path` from `cur` on, with `links` links to go. -/
def walkFrom (path : String) (links : ℕ) (cur : Location) :
    List (Comp String) → Except Denied {r : Location × ℕ // r.2 ≤ links}
  | [] => .ok ⟨(cur, links), le_rfl⟩
  | .up :: rest =>
      match check cur.pop with
      | .error e => .error e
      | .ok () => walkFrom path links cur.pop rest
  | .name n :: rest =>
      match check (cur.push n) with
      | .error e => .error e
      | .ok () =>
          match fs.symlinkMetadata (cur.push n) with
          | .failed e => .error (denied .unresolvable ("cannot inspect " ++ (cur.push n).text ++ ": " ++ e))
          | .absent | .present =>
              match check (cur.push n) with
              | .error e => .error e
              | .ok () => walkFrom path links (cur.push n) rest
          | .symlink target =>
              match links with
              | 0 => .error (denied .unresolvable ("too many symlinks resolving " ++ path))
              | links + 1 =>
                  -- The nested walk starts anew: at the root, which is checked, or nowhere.
                  let joined := join cur.text target
                  let start : Location := { rooted := hasRoot joined, names := [] }
                  match if start.rooted then check start else .ok () with
                  | .error e => .error e
                  | .ok () =>
                      match walkFrom joined links start (components joined) with
                      | .error e => .error e
                      | .ok ⟨(cur, left), hleft⟩ =>
                          match check cur with
                          | .error e => .error e
                          | .ok () =>
                              match walkFrom path left cur rest with
                              | .error e => .error e
                              | .ok ⟨r, hr⟩ => .ok ⟨r, hr.trans (Nat.le_succ_of_le hleft)⟩
termination_by comps => (links, comps.length)

/-- Resolve like the kernel; `check` runs on every location visited. -/
def walk (path : String) (links : ℕ) : Except Denied Location :=
  let start : Location := { rooted := hasRoot path, names := [] }
  match if start.rooted then check start else .ok () with
  | .error e => .error e
  | .ok () => (walkFrom fs check path links start (components path)).map fun r => r.1.1

end

/-- The project roots, resolved without the deny list; one that cannot be is left out. -/
def resolvedRoots (fs : FileSystem) (ctx : GuardContext) : List Location :=
  ctx.projectRoots.filterMap fun r =>
    (walk fs (fun _ => .ok ()) (if hasRoot r then r else join ctx.cwd r) maxSymlinks).toOption

/-- The default-deny check: the resolved path to use, or why it is denied. -/
def checkPath (u : Unicode) (fs : FileSystem) (ctx : GuardContext) (input : String) : Except Denied Location := do
  let path ← interpret input ctx
  let check := checkLocation u (resolvedRoots fs ctx)
  check (lexical path)
  let resolved ← walk fs check path maxSymlinks
  check resolved
  return resolved

end AgentRuntime.Guard
