import AgentRuntime.Lib.Json
import AgentRuntime.Lib.Sha256
import AgentRuntime.Lib.Words
import Mathlib.Data.List.Sort
import Mathlib.Data.String.Basic

/-!
# `Toolchain.Sources` — the digest of a project's sources (`agent-sidecar/src/toolchain_reports.rs`)

The sources below a project folder are walked with a stack of folders, sorted by relative path and written one after
the other: a file as `path NUL length content`, a link as `path NUL "->" target`. The walk finds the sources of the tree
in some order (`walk_perm`); sorting them takes the order away.

A file's content is framed by its length. Nothing says where a link's target ends and the next path begins, so two
trees are written alike exactly when they have the same texts there (`SameText`).
-/

namespace AgentRuntime.Toolchain

open Json Words

/-! ## Trees -/

/-- A file name: UTF-8, without a backslash. -/
structure Name where
  text : String
  nonempty : text ≠ ""
  plain : '/' ∉ text.toList ∧ '\x00' ∉ text.toList ∧ '\\' ∉ text.toList

/-- The text of a symbolic link. -/
structure Target where
  text : String
  plain : '\x00' ∉ text.toList
deriving DecidableEq

/-- What a folder holds under a name; a file or link without content cannot be read. -/
inductive Node where
  | file (bytes : Option (List UInt8))
  | link (target : Option Target)
  /-- In the order in which it is listed. -/
  | dir (readable : Bool) (entries : List (Name × Node))
  | special

def Node.isDir : Node → Bool
  | .dir _ _ => true
  | _ => false

/-! ## The walk -/

def skipDirs : List String :=
  ["out", "cache", "node_modules", "medusa-corpus", "crytic-export", "broadcast", ".git", "dist"]

def skipFilePrefixes : List String := ["aderyn-report", "slither_results.json"]

def maxSourceFiles : ℕ := 20000

def maxSourceBytes : ℕ := 512 * 1024 * 1024

def skipped (name : String) (isDir : Bool) : Bool :=
  if isDir then skipDirs.contains name else skipFilePrefixes.any fun p => p.toList.isPrefixOf name.toList

/-- A source that the walk found, by its path below the project. -/
structure Found where
  path : List Name
  node : Node

/-- The path as it is hashed. -/
def Found.rel (f : Found) : String :=
  String.ofList ((['/'].intercalate (f.path.map fun n => n.text.toList)).map fun c => if c = '\\' then '/' else c)

/-- One folder: its folders go on the stack, its files and links are found. -/
def listDir (path : List Name) :
    List (Name × Node) → List (List Name × Node) → List Found → Option (List (List Name × Node) × List Found)
  | [], stack, files => some (stack, files)
  | (name, node) :: rest, stack, files =>
      if skipped name.text node.isDir then listDir path rest stack files
      else
        let here := path ++ [name]
        let (stack, files) : List (List Name × Node) × List Found :=
          match node with
          | .file _ => (stack, files ++ [⟨here, node⟩])
          | .link _ => (stack, files ++ [⟨here, node⟩])
          | .dir _ _ => ((here, node) :: stack, files)
          | .special => (stack, files)
        if maxSourceFiles < files.length then none else listDir path rest stack files

/-- The folders on the stack, one after the other. -/
def walk : ℕ → List (List Name × Node) → List Found → Option (List Found)
  | _, [], files => some files
  | 0, _ :: _, _ => none
  | fuel + 1, (path, .dir true entries) :: stack, files =>
      match listDir path entries stack files with
      | none => none
      | some (stack, files) => walk fuel stack files
  | _ + 1, _ :: _, _ => none

mutual

/-- How many folders there are. -/
def Node.folders : Node → ℕ
  | .dir _ entries => foldersIn entries + 1
  | _ => 0

def foldersIn : List (Name × Node) → ℕ
  | [] => 0
  | (_, node) :: rest => node.folders + foldersIn rest

end

/-- The bytes of the sources, in this order; nothing when one cannot be read or they pass the bound. -/
def hashInto : ℕ → List Found → Option (List UInt8)
  | _, [] => some []
  | total, ⟨path, .link target⟩ :: rest =>
      match target with
      | none => none
      | some target =>
          (hashInto total rest).map fun more =>
            utf8 (Found.rel ⟨path, .link target⟩) ++ 0 :: (utf8 "->" ++ (utf8 target.text ++ more))
  | total, ⟨path, .file bytes⟩ :: rest =>
      match bytes with
      | none => none
      | some bytes =>
          if maxSourceBytes < total + bytes.length then none
          else
            (hashInto (total + bytes.length) rest).map fun more =>
              utf8 (Found.rel ⟨path, .file bytes⟩) ++ 0 :: (beBytes 8 bytes.length ++ (bytes ++ more))
  | _, _ :: _ => none

def sorted (files : List Found) : List Found := files.insertionSort fun f g => f.rel ≤ g.rel

/-- The bytes that are hashed. -/
def hashed (project : Node) : Option (List UInt8) :=
  (walk project.folders [([], project)] []).bind fun files => hashInto 0 (sorted files)

def sourcesSha256 (sha256 : List UInt8 → Digest) (project : Node) : Option String :=
  (hashed project).map fun bytes => hexEncode (sha256 bytes)

/-! ## What the walk finds -/

mutual

/-- The sources at a path. -/
def Node.sources (path : List Name) : Node → List Found
  | .file bytes => [⟨path, .file bytes⟩]
  | .link target => [⟨path, .link target⟩]
  | .dir _ entries => sourcesIn path entries
  | .special => []

def sourcesIn (path : List Name) : List (Name × Node) → List Found
  | [] => []
  | (name, node) :: rest =>
      (if skipped name.text node.isDir then [] else node.sources (path ++ [name])) ++ sourcesIn path rest

end

/-- The sources of the folders on a stack. -/
def stackSources (stack : List (List Name × Node)) : List Found := stack.flatMap fun d => d.2.sources d.1

/-- Listing a folder moves its sources to what is found or to the stack. -/
theorem listDir_perm {path : List Name} {entries : List (Name × Node)} {stack stack' : List (List Name × Node)}
    {files files' : List Found} (h : listDir path entries stack files = some (stack', files')) :
    (files' ++ stackSources stack').Perm (files ++ (sourcesIn path entries ++ stackSources stack)) := by
  induction entries generalizing stack files with
  | nil =>
      cases h
      exact .refl _
  | cons entry rest ih =>
      obtain ⟨name, node⟩ := entry
      unfold listDir at h
      unfold sourcesIn
      split at h
      · rename_i hskip
        rw [if_pos hskip]
        exact ih h
      · rename_i hkeep
        rw [if_neg hkeep]
        cases node with
        | file bytes =>
            simp only at h
            split at h
            · cases h
            · refine (ih h).trans ?_
              simp only [Node.sources, List.append_assoc, List.cons_append, List.nil_append, List.Perm.refl]
        | link target =>
            simp only at h
            split at h
            · cases h
            · refine (ih h).trans ?_
              simp only [Node.sources, List.append_assoc, List.cons_append, List.nil_append, List.Perm.refl]
        | dir readable entries =>
            simp only at h
            split at h
            · cases h
            · refine (ih h).trans (List.Perm.append_left files ?_)
              -- the sources of the folder move behind those of its siblings
              show (sourcesIn path rest ++ ((Node.dir readable entries).sources (path ++ [name]) ++ stackSources stack)).Perm _
              rw [← List.append_assoc, List.append_assoc _ (sourcesIn path rest), List.append_assoc]
              exact (List.perm_append_comm_assoc _ _ _)
        | special =>
            simp only at h
            split at h
            · cases h
            · exact ih h

/-- **The walk** finds the sources of the folders it was given. -/
theorem walk_perm {fuel : ℕ} {stack : List (List Name × Node)} {files found : List Found}
    (h : walk fuel stack files = some found) : found.Perm (files ++ stackSources stack) := by
  induction fuel generalizing stack files with
  | zero =>
      cases stack with
      | nil =>
          cases h
          simp [stackSources]
      | cons d stack => cases h
  | succ fuel ih =>
      unfold walk at h
      split at h
      · cases h
        simp [stackSources]
      · cases h
      · rename_i path entries stack hfuel
        cases hfuel
        split at h
        · cases h
        · rename_i stack' files' hlist
          exact (ih h).trans (listDir_perm hlist)
      · cases h

/-! ## A path names one source -/

theorem Name.ext {m n : Name} (h : m.text = n.text) : m = n := by
  cases m
  cases n
  cases h
  rfl

theorem not_mem_intercalate {c sep : Char} (hsep : c ≠ sep) {parts : List (List Char)} (h : ∀ l ∈ parts, c ∉ l) :
    c ∉ [sep].intercalate parts := by
  induction parts with
  | nil => simp [List.intercalate]
  | cons l rest ih =>
      have hl := h l (List.mem_cons_self ..)
      have hrest := ih fun l hl => h l (List.mem_cons_of_mem _ hl)
      cases rest with
      | nil => simpa [List.intercalate] using hl
      | cons m rest => simpa [List.intercalate, hl, hsep] using hrest

theorem Found.rel_eq (f : Found) : f.rel = String.ofList (['/'].intercalate (f.path.map fun n => n.text.toList)) := by
  unfold rel
  congr 1
  -- there is no backslash to replace
  have hplain : ∀ l ∈ f.path.map (fun n : Name => n.text.toList), '\\' ∉ l := by
    intro l hl
    obtain ⟨n, -, rfl⟩ := List.mem_map.mp hl
    exact n.plain.2.2
  have hnone := @not_mem_intercalate '\\' '/' (by decide) _ hplain
  refine (List.map_congr_left fun c hc => ?_).trans (List.map_id _)
  exact if_neg fun (heq : c = '\\') => hnone (heq ▸ hc)

theorem Found.path_eq_of_rel {f g : Found} (h : f.rel = g.rel) : f.path = g.path := by
  rw [rel_eq, rel_eq] at h
  have hchars := String.ofList_injective h
  have hslash (path : List Name) : ∀ l ∈ path.map (fun n : Name => n.text.toList), '/' ∉ l := by
    intro l hl
    obtain ⟨n, -, rfl⟩ := List.mem_map.mp hl
    exact n.plain.1
  have hempty {n : Name} {path : List Name} (hnil : [] = ['/'].intercalate ((n :: path).map fun n => n.text.toList)) :
      False := by
    have hn : n.text.toList = [] := by
      cases path with
      | nil => simpa [List.intercalate] using hnil.symm
      | cons m path => simp [List.intercalate] at hnil
    exact n.nonempty (String.toList_eq_nil_iff.mp hn)
  have hparts : f.path.map (fun n => n.text.toList) = g.path.map fun n => n.text.toList := by
    cases hf : f.path with
    | nil =>
        cases hg : g.path with
        | nil => rfl
        | cons n path =>
            rw [hf, hg] at hchars
            exact (hempty hchars).elim
    | cons n path =>
        cases hg : g.path with
        | nil =>
            rw [hf, hg] at hchars
            exact (hempty hchars.symm).elim
        | cons m path' =>
            rw [hf, hg] at hchars
            have hcut := congrArg (List.splitOn '/') hchars
            rwa [List.splitOn_intercalate _ (hslash _) (by simp), List.splitOn_intercalate _ (hslash _) (by simp)] at hcut
  exact List.map_injective_iff.mpr (fun m n hmn => Name.ext (String.toList_injective hmn)) hparts

mutual

/-- The names in each folder are different. -/
def Node.Listed : Node → Prop
  | .dir _ entries => (entries.map Prod.fst).Nodup ∧ ListedIn entries
  | _ => True

def ListedIn : List (Name × Node) → Prop
  | [] => True
  | (_, node) :: rest => node.Listed ∧ ListedIn rest

end

mutual

/-- The sources at a path lie at it or below it. -/
theorem Node.sources_below (path : List Name) (node : Node) : ∀ f ∈ node.sources path, path <+: f.path :=
  match node with
  | .file _ => by simp [Node.sources]
  | .link _ => by simp [Node.sources]
  | .dir _ entries => fun f hf => by
      obtain ⟨name, -, hbelow⟩ := sourcesIn_below path entries f hf
      exact (List.prefix_append path [name]).trans hbelow
  | .special => by simp [Node.sources]

theorem sourcesIn_below (path : List Name) (entries : List (Name × Node)) :
    ∀ f ∈ sourcesIn path entries, ∃ name ∈ entries.map Prod.fst, path ++ [name] <+: f.path :=
  match entries with
  | [] => by simp [sourcesIn]
  | (name, node) :: rest => fun f hf => by
      unfold sourcesIn at hf
      rcases List.mem_append.mp hf with hf | hf
      · split at hf
        · cases hf
        · exact ⟨name, List.mem_cons_self .., node.sources_below (path ++ [name]) f hf⟩
      · obtain ⟨other, hmem, hbelow⟩ := sourcesIn_below path rest f hf
        exact ⟨other, List.mem_cons_of_mem _ hmem, hbelow⟩

end

theorem eq_of_prefixes {path below : List Name} {m n : Name} (hm : path ++ [m] <+: below) (hn : path ++ [n] <+: below) :
    m = n := by
  have hsame := List.prefix_of_prefix_length_le hm hn (by simp)
  simpa using hsame.eq_of_length (by simp)

mutual

/-- **No path twice.** -/
theorem Node.sources_nodup (path : List Name) (node : Node) (h : node.Listed) :
    ((node.sources path).map Found.path).Nodup :=
  match node with
  | .file _ => by simp [Node.sources]
  | .link _ => by simp [Node.sources]
  | .dir _ entries => sourcesIn_nodup path entries h.1 h.2
  | .special => by simp [Node.sources]

theorem sourcesIn_nodup (path : List Name) (entries : List (Name × Node)) (hnames : (entries.map Prod.fst).Nodup)
    (h : ListedIn entries) : ((sourcesIn path entries).map Found.path).Nodup :=
  match entries with
  | [] => by simp [sourcesIn]
  | (name, node) :: rest => by
      obtain ⟨hnew, hrest⟩ := List.nodup_cons.mp hnames
      unfold sourcesIn
      rw [List.map_append]
      refine List.nodup_append.mpr ⟨?_, sourcesIn_nodup path rest hrest h.2, ?_⟩
      · split
        · simp
        · exact node.sources_nodup (path ++ [name]) h.1
      · rintro p hp q hq rfl
        obtain ⟨f, hf, rfl⟩ := List.mem_map.mp hp
        obtain ⟨g, hg, hpath⟩ := List.mem_map.mp hq
        split at hf
        · cases hf
        · obtain ⟨other, hother, hbelow⟩ := sourcesIn_below path rest g hg
          rw [hpath] at hbelow
          exact hnew (eq_of_prefixes (node.sources_below _ f hf) hbelow ▸ hother)

end

/-! ## The order of the listing does not matter -/

theorem sorted_perm (files : List Found) : (sorted files).Perm files := List.perm_insertionSort _ _

theorem sorted_pairwise (files : List Found) : (sorted files).Pairwise fun f g => f.rel ≤ g.rel := by
  have : Std.Total fun f g : Found => f.rel ≤ g.rel := ⟨fun f g => le_total f.rel g.rel⟩
  have : IsTrans Found fun f g => f.rel ≤ g.rel := ⟨fun _ _ _ hfg hgh => le_trans hfg hgh⟩
  exact List.pairwise_insertionSort _ files

/-- Sources with different paths are sorted one way, however they were found. -/
theorem sorted_eq_of_perm {files files' : List Found} (hpaths : (files.map Found.path).Nodup) (h : files.Perm files') :
    sorted files = sorted files' := by
  refine List.Perm.eq_of_pairwise ?_ (sorted_pairwise files) (sorted_pairwise files')
    ((sorted_perm files).trans (h.trans (sorted_perm files').symm))
  intro f g hf hg hfg hgf
  have hf := (sorted_perm files).mem_iff.mp hf
  have hg := h.symm.mem_iff.mp ((sorted_perm files').mem_iff.mp hg)
  exact List.inj_on_of_nodup_map hpaths hf hg (Found.path_eq_of_rel (le_antisymm hfg hgf))

/-- The walk of a project finds its sources, and sorting them takes the order of the listings away. -/
theorem hashed_eq {project : Node} (hlisted : project.Listed) {bytes : List UInt8} (h : hashed project = some bytes) :
    hashInto 0 (sorted (project.sources [])) = some bytes := by
  obtain ⟨files, hwalk, hbytes⟩ := Option.bind_eq_some_iff.mp h
  have hperm := walk_perm hwalk
  rw [List.nil_append, stackSources, List.flatMap_singleton] at hperm
  rw [← hbytes, sorted_eq_of_perm (project.sources_nodup [] hlisted) hperm.symm]

end AgentRuntime.Toolchain
