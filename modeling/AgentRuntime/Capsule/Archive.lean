import AgentRuntime.Lib.Json
import AgentRuntime.Lib.Juxtaposed
import AgentRuntime.Lib.Sha256
import AgentRuntime.Lib.SortedMap
import AgentRuntime.Lib.Utf8Lossy
import AgentRuntime.Lib.Acceptor

/-!
# `Capsule.Archive` — what a capsule's content hash binds (`agent/core/src/capsule/archive.rs`)

A `.cps` archive is unpacked into its parts, and the content hash is taken over the parts: the digest and the path of
each entry, in the order of the paths, one after the other. Unpacking (`zstd`, `tar`) is a parameter.
-/

namespace AgentRuntime.Capsule

open Utf8 Text

/-! ## Reading an archive -/

/-- One entry of the unpacked archive. -/
structure TarEntry where
  path : List UInt8
  bytes : List UInt8
deriving DecidableEq

/-- What decompressing and unpacking under a cap yields: the entries, as far as they can be read. -/
abbrev Unpack : Type := List UInt8 → ℕ → Except String (List (Except String TarEntry))

structure ArchiveContents where
  manifest : List UInt8
  wit : List UInt8
  wasm : List UInt8
  procedure : List UInt8
  /-- Keyed by the path. -/
  gherkin : List (String × List UInt8)
  /-- Keyed by the path. -/
  specs : List (String × List UInt8)
  /-- Keyed by the file name. -/
  signatures : List (String × List UInt8)
deriving DecidableEq

def ArchiveContents.empty : ArchiveContents where
  manifest := []
  wit := []
  wasm := []
  procedure := []
  gherkin := []
  specs := []
  signatures := []

/-- `str::starts_with`. -/
def startsWith (s start : String) : Bool := start.toList.isPrefixOf s.toList

def addEntry (out : ArchiveContents) (entry : Except String TarEntry) : Except String ArchiveContents :=
  match entry with
  | .error e => .error e
  | .ok e =>
      let path := fromUtf8Lossy e.path
      if path.toList.getLast? = some '/' then .ok out
      else if path = "manifest.toml" then .ok { out with manifest := e.bytes }
      else if path = "capsule.wit" then .ok { out with wit := e.bytes }
      else if path = "capsule.wasm" then .ok { out with wasm := e.bytes }
      else if path = "procedure.md" then .ok { out with procedure := e.bytes }
      else if startsWith path "gherkin/" then .ok { out with gherkin := SortedMap.insert path e.bytes out.gherkin }
      else if startsWith path "specs/" then .ok { out with specs := SortedMap.insert path e.bytes out.specs }
      else if startsWith path "SIGNATURES/" then
        let fname := String.ofList (path.toList.drop "SIGNATURES/".length)
        .ok { out with signatures := SortedMap.insert fname e.bytes out.signatures }
      else .error ("unexpected archive entry: " ++ path)

def validateStructure (a : ArchiveContents) : Except String Unit :=
  if a.manifest = [] then .error "missing manifest.toml"
  else if a.wit = [] then .error "missing capsule.wit"
  else if a.wasm = [] then .error "missing capsule.wasm"
  else if a.procedure = [] then .error "missing procedure.md"
  else if (a.signatures.any fun s => s.1 == "publisher.sig") = false then
    .error "missing SIGNATURES/publisher.sig"
  else .ok ()

def readArchiveCapped (unpack : Unpack) (archive : List UInt8) (maxDecompressed : ℕ) :
    Except String ArchiveContents := do
  let entries ← unpack archive maxDecompressed
  let out ← entries.foldlM addEntry .empty
  validateStructure out
  return out

/-! ## The content hash -/

def contentHashDomain : List UInt8 := Json.utf8 "CIT-AGENT-CAPSULE-CONTENT-HASH-v2"

/-- The line whose value the hash leaves out. -/
def isHashLine (line : List Char) : Bool :=
  let trimmed := line.dropWhile isWhitespace
  "content_hash".toList.isPrefixOf trimmed && trimmed.contains '='

/-- The line that stands for it. -/
def blankLine (line : List Char) : List Char := line.takeWhile isWhitespace ++ "content_hash = \"\"".toList

/-- The first such line is blanked. -/
def normalizeLines : List (List Char) → List (List Char)
  | [] => []
  | line :: lines => if isHashLine line then blankLine line :: lines else line :: normalizeLines lines

def normalizeManifestForHash (manifest : List UInt8) : List UInt8 :=
  Json.utf8 (String.ofList ((normalizeLines (lines (textOf manifest))).flatMap fun line => line ++ ['\n']))

/-- What the hash covers, with the paths. -/
def coveredEntries (a : ArchiveContents) : List (String × List UInt8) :=
  [("manifest.toml", normalizeManifestForHash a.manifest), ("capsule.wit", a.wit), ("capsule.wasm", a.wasm),
    ("procedure.md", a.procedure)] ++ a.gherkin ++ a.specs

/-- The same, in the order of the paths. -/
def sortedEntries (a : ArchiveContents) : List (String × List UInt8) :=
  (coveredEntries a).insertionSort fun x y => x.1 ≤ y.1

section

variable (sha256 : List UInt8 → Digest)

/-- The digest of an entry, and its path. -/
def digested (e : String × List UInt8) : List UInt8 × List UInt8 := ((sha256 e.2).toList, Json.utf8 e.1)

def bundleBytes (a : ArchiveContents) : List UInt8 :=
  contentHashDomain ++ Juxtaposed.juxtapose ((sortedEntries a).map (digested sha256))

def computeContentHash (a : ArchiveContents) : String := "sha256:" ++ hexEncode (sha256 (bundleBytes sha256 a))

/-- Everything that is hashed. -/
def hashInputs (a : ArchiveContents) : List (List UInt8) := bundleBytes sha256 a :: (coveredEntries a).map Prod.snd

end

/-! ## Archives that are read -/

/-- The entries of a directory, in the order of their paths. -/
structure Directory (start : String) (entries : List (String × List UInt8)) : Prop where
  ascending : SortedMap.Ascending entries
  inside : ∀ e ∈ entries, startsWith e.1 start = true

theorem Directory.insert {start : String} {entries : List (String × List UInt8)} (h : Directory start entries)
    {path : String} (hpath : startsWith path start = true) (bytes : List UInt8) :
    Directory start (SortedMap.insert path bytes entries) := by
  refine ⟨h.ascending.insert path bytes, ?_⟩
  intro e he
  rcases SortedMap.mem_insert he with rfl | he
  · exact hpath
  · exact h.inside e he

/-- What reading keeps of the directories. -/
structure Arranged (a : ArchiveContents) : Prop where
  gherkin : Directory "gherkin/" a.gherkin
  specs : Directory "specs/" a.specs

theorem addEntry_arranged {out out' : ArchiveContents} {entry : Except String TarEntry} (h : Arranged out)
    (hadd : addEntry out entry = .ok out') : Arranged out' := by
  unfold addEntry at hadd
  split at hadd
  · cases hadd
  · simp only at hadd
    split at hadd
    · cases hadd
      exact h
    · split at hadd
      · cases hadd
        exact ⟨h.gherkin, h.specs⟩
      · split at hadd
        · cases hadd
          exact ⟨h.gherkin, h.specs⟩
        · split at hadd
          · cases hadd
            exact ⟨h.gherkin, h.specs⟩
          · split at hadd
            · cases hadd
              exact ⟨h.gherkin, h.specs⟩
            · split at hadd
              · rename_i hstart
                cases hadd
                exact ⟨h.gherkin.insert hstart _, h.specs⟩
              · split at hadd
                · rename_i hstart
                  cases hadd
                  exact ⟨h.gherkin, h.specs.insert hstart _⟩
                · split at hadd
                  · cases hadd
                    exact ⟨h.gherkin, h.specs⟩
                  · cases hadd

theorem readArchiveCapped_arranged {unpack : Unpack} {archive : List UInt8} {cap : ℕ} {a : ArchiveContents}
    (h : readArchiveCapped unpack archive cap = .ok a) : Arranged a := by
  unfold readArchiveCapped at h
  obtain ⟨entries, -, h⟩ := Except.bind_eq_ok.mp h
  obtain ⟨out, hout, h⟩ := Except.bind_eq_ok.mp h
  obtain ⟨u, -, h⟩ := Except.bind_eq_ok.mp h
  cases h
  have hempty : Directory "gherkin/" [] ∧ Directory "specs/" [] := by
    constructor
    · exact ⟨List.Pairwise.nil, by simp⟩
    · exact ⟨List.Pairwise.nil, by simp⟩
  exact Except.foldlM_invariant (fun out entry out' => addEntry_arranged) ⟨hempty.1, hempty.2⟩ hout

/-! ## From the entries back to the parts -/

/-- The covered entries with a path of some kind. -/
theorem filter_coveredEntries {a : ArchiveContents} (h : Arranged a) :
    (coveredEntries a).filter (fun e => e.1 == "manifest.toml") =
        [("manifest.toml", normalizeManifestForHash a.manifest)] ∧
      (coveredEntries a).filter (fun e => e.1 == "capsule.wit") = [("capsule.wit", a.wit)] ∧
      (coveredEntries a).filter (fun e => e.1 == "capsule.wasm") = [("capsule.wasm", a.wasm)] ∧
      (coveredEntries a).filter (fun e => e.1 == "procedure.md") = [("procedure.md", a.procedure)] ∧
      (coveredEntries a).filter (fun e => startsWith e.1 "gherkin/") = a.gherkin ∧
      (coveredEntries a).filter (fun e => startsWith e.1 "specs/") = a.specs := by
  have hnone : ∀ {start : String} {entries : List (String × List UInt8)} (p : String → Bool),
      Directory start entries → (∀ s, startsWith s start = true → p s = false) →
      entries.filter (fun e => p e.1) = [] := by
    intro start entries p hdir hp
    rw [List.filter_eq_nil_iff]
    intro e he
    simp [hp e.1 (hdir.inside e he)]
  have hall : ∀ {start : String} {entries : List (String × List UInt8)}, Directory start entries →
      entries.filter (fun e => startsWith e.1 start) = entries := by
    intro start entries hdir
    rw [List.filter_eq_self]
    exact hdir.inside
  have hname : ∀ (name start : String), startsWith name start = false →
      ∀ s, startsWith s start = true → (s == name) = false := by
    intro name start hnot s hs
    rw [beq_eq_false_iff_ne]
    rintro rfl
    rw [hnot] at hs
    cases hs
  have hother : ∀ (start start' : String), start.toList.head? ≠ start'.toList.head? → start ≠ "" → start' ≠ "" →
      ∀ s, startsWith s start = true → startsWith s start' = false := by
    intro start start' hhead hne hne' s hs
    unfold startsWith at hs ⊢
    rw [List.isPrefixOf_iff_prefix] at hs
    apply Bool.eq_false_iff.mpr
    intro hs'
    rw [List.isPrefixOf_iff_prefix] at hs'
    obtain ⟨t, ht⟩ := hs
    obtain ⟨t', ht'⟩ := hs'
    have hfirst : ∀ x : String, x ≠ "" → ∀ r, (x.toList ++ r).head? = x.toList.head? := by
      intro x hx r
      cases hchars : x.toList with
      | nil => exact absurd (String.toList_eq_nil_iff.mp hchars) hx
      | cons c cs => rfl
    apply hhead
    rw [← hfirst start hne t, ← hfirst start' hne' t', ht, ht']
  unfold coveredEntries
  simp only [List.filter_append]
  refine ⟨?_, ?_, ?_, ?_, ?_, ?_⟩
  · rw [hnone _ h.gherkin (hname "manifest.toml" "gherkin/" (by decide)),
      hnone _ h.specs (hname "manifest.toml" "specs/" (by decide))]
    rfl
  · rw [hnone _ h.gherkin (hname "capsule.wit" "gherkin/" (by decide)),
      hnone _ h.specs (hname "capsule.wit" "specs/" (by decide))]
    rfl
  · rw [hnone _ h.gherkin (hname "capsule.wasm" "gherkin/" (by decide)),
      hnone _ h.specs (hname "capsule.wasm" "specs/" (by decide))]
    rfl
  · rw [hnone _ h.gherkin (hname "procedure.md" "gherkin/" (by decide)),
      hnone _ h.specs (hname "procedure.md" "specs/" (by decide))]
    rfl
  · rw [hall h.gherkin, hnone (fun s => startsWith s "gherkin/") h.specs
      (hother "specs/" "gherkin/" (by decide) (by decide) (by decide))]
    simp [startsWith]
  · rw [hall h.specs, hnone (fun s => startsWith s "specs/") h.gherkin
      (hother "gherkin/" "specs/" (by decide) (by decide) (by decide))]
    simp [startsWith]

/-- The parts, but for what the manifest is normalized from. -/
structure SameParts (a b : ArchiveContents) : Prop where
  wit : a.wit = b.wit
  wasm : a.wasm = b.wasm
  procedure : a.procedure = b.procedure
  gherkin : a.gherkin = b.gherkin
  specs : a.specs = b.specs

/-- The sorted entries determine the parts. -/
theorem parts_of_sortedEntries_eq {a b : ArchiveContents} (ha : Arranged a) (hb : Arranged b)
    (h : sortedEntries a = sortedEntries b) :
    normalizeManifestForHash a.manifest = normalizeManifestForHash b.manifest ∧ SameParts a b := by
  have hperm : (coveredEntries a).Perm (coveredEntries b) := by
    apply ((coveredEntries a).perm_insertionSort fun x y => x.1 ≤ y.1).symm.trans
    show (sortedEntries a).Perm _
    rw [h]
    exact (coveredEntries b).perm_insertionSort fun x y => x.1 ≤ y.1
  have hpart : ∀ {p : String × List UInt8 → Bool} {x y : String × List UInt8}, (coveredEntries a).filter p = [x] →
      (coveredEntries b).filter p = [y] → x.2 = y.2 := by
    intro p x y hx hy
    have hsame := hperm.filter p
    rw [hx, hy, List.singleton_perm_singleton] at hsame
    rw [hsame]
  obtain ⟨hm, hwit, hwasm, hproc, hgherkin, hspecs⟩ := filter_coveredEntries ha
  obtain ⟨hm', hwit', hwasm', hproc', hgherkin', hspecs'⟩ := filter_coveredEntries hb
  refine ⟨hpart hm hm', hpart hwit hwit', hpart hwasm hwasm', hpart hproc hproc', ?_, ?_⟩
  · have hsame := hperm.filter fun e => startsWith e.1 "gherkin/"
    rw [hgherkin, hgherkin'] at hsame
    exact SortedMap.eq_of_perm ha.gherkin.ascending hb.gherkin.ascending hsame
  · have hsame := hperm.filter fun e => startsWith e.1 "specs/"
    rw [hspecs, hspecs'] at hsame
    exact SortedMap.eq_of_perm ha.specs.ascending hb.specs.ascending hsame

end AgentRuntime.Capsule
