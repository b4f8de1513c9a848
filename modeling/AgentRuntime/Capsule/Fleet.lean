import AgentRuntime.Capsule.Verified

/-!
# `Capsule.Fleet` — loading the capsule fleet (`agent/core/src/capsule/dispatch.rs`, `allowlist.rs`)

The folders of the capsule directory are taken one by one, in the order they are listed. A folder with an archive is
loaded when the archive is verified and allowlisted; one with loose files is loaded for listing only. Three tables are
filled, each keyed by a capsule's name.

A call runs an admitted archive and nothing else (`gate_admitted`). But the name a loose manifest gives takes an
admitted capsule of that name away, and loose files that cannot be read end the load: a directory is decided folder by
folder exactly when neither happens (`decided_iff_separate`).
-/

namespace AgentRuntime.Capsule

open Text Guard

/-! ## The allowlist -/

structure AllowEntry where
  name : String
  minVersion : String
  contentHashes : List String

structure FleetAllowlist where
  entries : List AllowEntry

def parseVersion (v : String) : Option (ℕ × ℕ × ℕ) :=
  match v.toList.splitOn '.' with
  | [major, minor, patch] => do return (← parseU64 major, ← parseU64 minor, ← parseU64 patch)
  | _ => none

/-- The order of versions: by the major number, the minor one and the patch. -/
def versionLt (v w : ℕ × ℕ × ℕ) : Bool :=
  v.1 < w.1 || (v.1 == w.1 && (v.2.1 < w.2.1 || (v.2.1 == w.2.1 && v.2.2 < w.2.2)))

/-- Admit or refuse a verified manifest. -/
def FleetAllowlist.check (debug : String → String) (allowlist : FleetAllowlist) (m : Manifest) :
    Except String Unit :=
  let name := m.capsule.name
  match allowlist.entries.find? fun e => e.name == name with
  | none => .error ("capsule " ++ debug name ++ " is not on the fleet allowlist")
  | some entry =>
      match parseVersion m.capsule.version with
      | none =>
          .error ("capsule " ++ debug name ++ " version " ++ debug m.capsule.version ++
            " is not a plain major.minor.patch")
      | some have' =>
          match parseVersion entry.minVersion with
          | none => .error ("allowlist floor for " ++ debug name ++ " is malformed")
          | some floor =>
              if versionLt have' floor = true then
                .error ("capsule " ++ debug name ++ " version " ++ m.capsule.version ++
                  " is below the allowlist floor " ++ entry.minVersion ++ " (rollback refused)")
              else if entry.contentHashes.contains m.capsule.contentHash = false then
                .error ("capsule " ++ debug name ++ " content_hash " ++ m.capsule.contentHash ++
                  " is not an allowlisted build")
              else .ok ()

/-- The manifest's capsule is on the list: its name, its version at or above the floor, and its hash. -/
def FleetAllowlist.Admits (allowlist : FleetAllowlist) (m : Manifest) : Prop :=
  ∃ entry version floor, allowlist.entries.find? (fun e => e.name == m.capsule.name) = some entry ∧
    parseVersion m.capsule.version = some version ∧ parseVersion entry.minVersion = some floor ∧
    versionLt version floor = false ∧ m.capsule.contentHash ∈ entry.contentHashes

theorem FleetAllowlist.check_ok {debug : String → String} {allowlist : FleetAllowlist} {m : Manifest} :
    allowlist.check debug m = .ok () ↔ allowlist.Admits m := by
  unfold FleetAllowlist.check FleetAllowlist.Admits
  constructor
  · intro h
    simp only at h
    split at h
    · cases h
    · rename_i entry hentry
      split at h
      · cases h
      · rename_i version hversion
        split at h
        · cases h
        · rename_i floor hfloor
          split at h
          · cases h
          · rename_i hlt
            split at h
            · cases h
            · rename_i hhash
              rw [Bool.not_eq_false, List.contains_iff_mem] at hhash
              exact ⟨entry, version, floor, hentry, hversion, hfloor, Bool.not_eq_true _ ▸ hlt, hhash⟩
  · rintro ⟨entry, version, floor, hentry, hversion, hfloor, hlt, hhash⟩
    simp [hentry, hversion, hfloor, hlt, hhash]

/-! ## The directory -/

/-- A file as it is found: not there, or what reading it yields. -/
abbrev FileRead : Type := Option (Except String (List UInt8))

/-- A subfolder, with the files the loader looks for. -/
structure Folder where
  path : String
  /-- The last component of the path. -/
  dirName : String
  /-- `<dirName>.cps`. -/
  cps : FileRead
  /-- `manifest.toml`. -/
  manifest : FileRead
  /-- `capsule.wasm`. -/
  wasm : FileRead

inductive DirEntry where
  | other
  | folder (f : Folder)

/-- What listing the directory yields, entry by entry. -/
abbrev Listing : Type := Except String (List (Except String DirEntry))

structure CapsuleDispatch where
  capsules : String → Option Capsule
  unverified : List String
  refused : String → Option String

def CapsuleDispatch.empty : CapsuleDispatch where
  capsules := fun _ => none
  unverified := []
  refused := fun _ => none

section

variable (crates : Crates) (allowlist : FleetAllowlist)

/-- The archive of a folder, verified. -/
def Folder.fromCps (f : Folder) (file : Except String (List UInt8)) : Except AgentError Capsule :=
  match file with
  | .error e =>
      .error (.capsule ("open " ++ crates.debug (join f.path (f.dirName ++ ".cps")) ++ ": " ++ e))
  | .ok bytes => fromArchiveVerified crates bytes registry

def CapsuleDispatch.loadArchive (d : CapsuleDispatch) (f : Folder) (file : Except String (List UInt8)) :
    CapsuleDispatch :=
  match f.fromCps crates file with
  | .error e =>
      let reason := "failed load verification (signature, content hash or manifest checks), so it will not load: " ++
        e.show
      { d with refused := Function.update d.refused f.dirName (some reason) }
  | .ok capsule =>
      match allowlist.check crates.debug capsule.manifest with
      | .error reason => { d with refused := Function.update d.refused capsule.name (some reason) }
      | .ok () => { d with capsules := Function.update d.capsules capsule.name (some capsule) }

/-- `fs::read_to_string`. -/
def readToString (file : Except String (List UInt8)) : Except String String :=
  file.bind fun bytes =>
    match fromUtf8 bytes with
    | some text => .ok text
    | none => .error "stream did not contain valid UTF-8"

/-- A capsule of loose files: its wasm, and nothing else of an archive. -/
def looseCapsule (manifest : Manifest) (wasm : List UInt8) : Capsule where
  manifest := manifest
  archive := { ArchiveContents.empty with wasm := wasm }

def CapsuleDispatch.loadLoose (d : CapsuleDispatch) (f : Folder) (manifestFile wasmFile : Except String (List UInt8)) :
    Except AgentError CapsuleDispatch := do
  let manifestStr ← (readToString manifestFile).mapError fun e => .capsule ("read manifest: " ++ e)
  match Manifest.parse crates.debug crates.toml manifestStr with
  | .error e =>
      let reason := "its manifest was refused, so it will not load: " ++ e.show
      return { d with refused := Function.update d.refused f.dirName (some reason) }
  | .ok manifest =>
      let wasm ← wasmFile.mapError fun e => .capsule ("read wasm: " ++ e)
      return { d with
        unverified := manifest.capsule.name :: d.unverified
        capsules := Function.update d.capsules manifest.capsule.name (some (looseCapsule manifest wasm)) }

def CapsuleDispatch.loadEntry (d : CapsuleDispatch) : DirEntry → Except AgentError CapsuleDispatch
  | .other => .ok d
  | .folder f =>
      match f.cps with
      | some file => .ok (d.loadArchive crates allowlist f file)
      | none =>
          match f.manifest, f.wasm with
          | some manifestFile, some wasmFile => d.loadLoose crates f manifestFile wasmFile
          | _, _ => .ok d

def loadFromDirWithAllowlist (dir : String) (listing : Listing) : Except AgentError CapsuleDispatch := do
  let entries ← listing.mapError fun e => .capsule ("read capsule dir " ++ crates.debug dir ++ ": " ++ e)
  entries.foldlM (fun d entry => do
    let entry ← entry.mapError fun e => .capsule ("read_dir entry: " ++ e)
    d.loadEntry crates allowlist entry) .empty

end

/-! ## Calls -/

namespace CapsuleDispatch

variable (debug : String → String) (d : CapsuleDispatch)

def isRunnable (name : String) : Bool := (d.capsules name).isSome && !d.unverified.contains name

def notLoaded (name : String) : AgentError :=
  match d.refused name with
  | some reason => .capsule ("capsule " ++ debug name ++ " refused by the fleet allowlist: " ++ reason)
  | none => .capsule ("capsule " ++ debug name ++ " not loaded")

/-- The capsule a call instantiates. -/
def gate (name : String) : Except AgentError Capsule :=
  match d.capsules name with
  | none => .error (d.notLoaded debug name)
  | some capsule =>
      if d.unverified.contains name = true then
        .error (.capsule ("refusing to instantiate unverified capsule " ++ debug name ++ ": it is not bound to a " ++
          "valid manifest content_hash + publisher signature. Pack and sign it with cit-capsule-pack (CIT-AGENT-3e)."))
      else .ok capsule

/-- A call: the gate, and what `run` does with the capsule (its sandbox, its linker and its code). -/
def callRawIn {α : Type} (run : Capsule → Except AgentError α) (name : String) : Except AgentError α :=
  (d.gate debug name).bind run

theorem gate_ok {debug : String → String} {d : CapsuleDispatch} {name : String} {c : Capsule} :
    d.gate debug name = .ok c ↔ d.capsules name = some c ∧ name ∉ d.unverified := by
  unfold gate
  cases hc : d.capsules name with
  | none => simp
  | some c' =>
      by_cases hu : name ∈ d.unverified
      · simp [hu]
      · simp [hu]

theorem isRunnable_iff {debug : String → String} {d : CapsuleDispatch} {name : String} :
    d.isRunnable name = true ↔ ∃ c, d.gate debug name = .ok c := by
  unfold isRunnable
  rw [Bool.and_eq_true, Option.isSome_iff_exists]
  simp only [gate_ok]
  constructor
  · rintro ⟨⟨c, hc⟩, hu⟩
    exact ⟨c, hc, by simpa using hu⟩
  · rintro ⟨c, hc, hu⟩
    exact ⟨⟨c, hc⟩, by simpa using hu⟩

end CapsuleDispatch

/-! ## What the folders hold -/

section

variable (crates : Crates) (allowlist : FleetAllowlist)

/-- The folder holds an archive of the capsule that is verified and allowlisted. -/
def Folder.Admitted (f : Folder) (c : Capsule) : Prop :=
  ∃ bytes, f.cps = some (.ok bytes) ∧ Verified crates bytes registry c ∧ allowlist.Admits c.manifest

/-- The loose manifest of the folder, which has no archive, is read and accepted. -/
def Folder.Loose (f : Folder) (m : Manifest) : Prop :=
  f.cps = none ∧ f.wasm ≠ none ∧ ∃ file text, f.manifest = some file ∧ readToString file = .ok text ∧
    Manifest.parse crates.debug crates.toml text = .ok m

/-- The loose files of the folder, which has no archive, can be read: the manifest as a text, and the wasm if that
    manifest is accepted. -/
def Folder.Readable (f : Folder) : Prop :=
  f.cps = none → ∀ manifestFile wasmFile, f.manifest = some manifestFile → f.wasm = some wasmFile →
    (∃ text, readToString manifestFile = .ok text) ∧ ((∃ m, f.Loose crates m) → ∃ wasm, wasmFile = .ok wasm)

/-- What one entry does to the tables of capsules. -/
structure EntryStep (d d' : CapsuleDispatch) (e : DirEntry) : Prop where
  unverified : ∀ n, n ∈ d'.unverified ↔
    n ∈ d.unverified ∨ ∃ f m, e = .folder f ∧ f.Loose crates m ∧ m.capsule.name = n
  held : ∀ n c, d'.capsules n = some c → d.capsules n = some c ∨
    c.name = n ∧ (n ∈ d'.unverified ∨ ∃ f, e = .folder f ∧ f.Admitted crates allowlist c)
  kept : ∀ n, d.capsules n ≠ none → d'.capsules n ≠ none
  there : ∀ f c, e = .folder f → f.Admitted crates allowlist c → d'.capsules c.name ≠ none

variable {crates allowlist}

/-! ## One folder -/

/-- An entry without a capsule. -/
theorem EntryStep.same {d d' : CapsuleDispatch} {e : DirEntry} (hcapsules : d'.capsules = d.capsules)
    (hunverified : d'.unverified = d.unverified) (hadmitted : ∀ f c, e = .folder f → ¬ f.Admitted crates allowlist c)
    (hloose : ∀ f m, e = .folder f → ¬ f.Loose crates m) : EntryStep crates allowlist d d' e where
  unverified n := by
    rw [hunverified]
    constructor
    · exact .inl
    · rintro (hn | ⟨f, m, hf, hm, -⟩)
      · exact hn
      · exact absurd hm (hloose f m hf)
  held n c hc := .inl (by rw [← hcapsules]; exact hc)
  kept n hn := by
    rw [hcapsules]
    exact hn
  there f c hf hc := absurd hc (hadmitted f c hf)

theorem update_ne_none {capsules : String → Option Capsule} {name : String} {c : Capsule} {n : String}
    (h : capsules n ≠ none) : Function.update capsules name (some c) n ≠ none := by
  by_cases hn : n = name
  · rw [hn, Function.update_self]
    simp
  · rw [Function.update_of_ne hn]
    exact h

theorem update_eq_some {capsules : String → Option Capsule} {name : String} {c c' : Capsule} {n : String}
    (h : Function.update capsules name (some c) n = some c') : capsules n = some c' ∨ n = name ∧ c' = c := by
  by_cases hn : n = name
  · rw [hn, Function.update_self] at h
    exact .inr ⟨hn, (Option.some.inj h).symm⟩
  · rw [Function.update_of_ne hn] at h
    exact .inl h

theorem Folder.Admitted.of_fromCps {f : Folder} {file : Except String (List UInt8)} {c : Capsule} (hcps : f.cps = some file)
    (hload : f.fromCps crates file = .ok c) (hcheck : allowlist.check crates.debug c.manifest = .ok ()) :
    f.Admitted crates allowlist c := by
  cases file with
  | error e => cases hload
  | ok bytes => exact ⟨bytes, hcps, fromArchiveVerified_ok.mp hload, FleetAllowlist.check_ok.mp hcheck⟩

theorem Folder.Admitted.fromCps {f : Folder} {file : Except String (List UInt8)} {c : Capsule}
    (h : f.Admitted crates allowlist c) (hcps : f.cps = some file) :
    f.fromCps crates file = .ok c ∧ allowlist.check crates.debug c.manifest = .ok () := by
  obtain ⟨bytes, hfile, hverified, hadmits⟩ := h
  obtain rfl := Option.some.inj (hfile.symm.trans hcps)
  exact ⟨fromArchiveVerified_ok.mpr hverified, FleetAllowlist.check_ok.mpr hadmits⟩

theorem Folder.Admitted.unique {f : Folder} {c c' : Capsule} (h : f.Admitted crates allowlist c)
    (h' : f.Admitted crates allowlist c') : c = c' := by
  have hcps : f.cps = some (.ok h.choose) := h.choose_spec.1
  exact Except.ok.inj ((h.fromCps hcps).1.symm.trans (h'.fromCps hcps).1)

theorem loadArchive_step {d : CapsuleDispatch} {f : Folder} {file : Except String (List UInt8)} (hcps : f.cps = some file) :
    EntryStep crates allowlist d (d.loadArchive crates allowlist f file) (.folder f) := by
  have hloose : ∀ g m, DirEntry.folder f = .folder g → ¬ g.Loose crates m := by
    rintro _ m ⟨⟩ ⟨hnone, -⟩
    rw [hcps] at hnone
    cases hnone
  unfold CapsuleDispatch.loadArchive
  split
  · rename_i e hload
    refine EntryStep.same rfl rfl ?_ hloose
    rintro _ c ⟨⟩ hc
    have := (hc.fromCps hcps).1
    rw [hload] at this
    cases this
  · rename_i c hload
    split
    · rename_i reason hcheck
      refine EntryStep.same rfl rfl ?_ hloose
      rintro _ c' ⟨⟩ hc'
      obtain ⟨hload', hcheck'⟩ := hc'.fromCps hcps
      obtain rfl := Except.ok.inj (hload.symm.trans hload')
      rw [hcheck] at hcheck'
      cases hcheck'
    · rename_i hcheck
      have hc : f.Admitted crates allowlist c := .of_fromCps hcps hload hcheck
      refine ⟨?_, ?_, fun n => update_ne_none, ?_⟩
      · intro n
        constructor
        · exact .inl
        · rintro (hn | ⟨g, m, hg, hm, -⟩)
          · exact hn
          · exact absurd hm (hloose g m hg)
      · intro n c' hc'
        rcases update_eq_some hc' with hold | ⟨rfl, rfl⟩
        · exact .inl hold
        · exact .inr ⟨rfl, .inr ⟨f, rfl, hc⟩⟩
      · rintro _ c' ⟨⟩ hc'
        rw [hc'.unique hc]
        simp

theorem Folder.not_admitted {f : Folder} (hcps : f.cps = none) (c : Capsule) : ¬ f.Admitted crates allowlist c := by
  rintro ⟨bytes, hfile, -⟩
  rw [hcps] at hfile
  cases hfile

theorem Folder.Loose.unique {f : Folder} {m m' : Manifest} (h : f.Loose crates m) (h' : f.Loose crates m') : m = m' := by
  obtain ⟨-, -, file, text, hfile, htext, hparse⟩ := h
  obtain ⟨-, -, file', text', hfile', htext', hparse'⟩ := h'
  obtain rfl := Option.some.inj (hfile.symm.trans hfile')
  obtain rfl := Except.ok.inj (htext.symm.trans htext')
  exact Except.ok.inj (hparse.symm.trans hparse')

theorem loadLoose_step {d d' : CapsuleDispatch} {f : Folder} {manifestFile wasmFile : Except String (List UInt8)}
    (hcps : f.cps = none) (hmanifest : f.manifest = some manifestFile) (hwasm : f.wasm = some wasmFile)
    (h : d.loadLoose crates f manifestFile wasmFile = .ok d') : EntryStep crates allowlist d d' (.folder f) := by
  have hadmitted : ∀ g c, DirEntry.folder f = .folder g → ¬ g.Admitted crates allowlist c := by
    rintro _ c ⟨⟩
    exact Folder.not_admitted hcps c
  unfold CapsuleDispatch.loadLoose at h
  obtain ⟨text, htext, h⟩ := Except.bind_eq_ok.mp h
  rw [mapError_ok] at htext
  split at h
  · rename_i e hparse
    cases h
    refine EntryStep.same rfl rfl hadmitted ?_
    -- The manifest that would be accepted is the one that was refused.
    rintro _ m ⟨⟩ ⟨-, -, file, text', hfile, htext', hparse'⟩
    obtain rfl := Option.some.inj (hmanifest.symm.trans hfile)
    obtain rfl := Except.ok.inj (htext.symm.trans htext')
    rw [hparse] at hparse'
    cases hparse'
  · rename_i m hparse
    obtain ⟨wasm, -, h⟩ := Except.bind_eq_ok.mp h
    cases h
    have hm : f.Loose crates m := ⟨hcps, by simp [hwasm], manifestFile, text, hmanifest, htext, hparse⟩
    refine ⟨?_, ?_, fun n => update_ne_none, fun g c hg hc => absurd hc (hadmitted g c hg)⟩
    · intro n
      rw [List.mem_cons, or_comm]
      apply or_congr_right
      constructor
      · rintro rfl
        exact ⟨f, m, rfl, hm, rfl⟩
      · rintro ⟨_, m', ⟨⟩, hm', hn⟩
        rw [← hn, hm'.unique hm]
    · intro n c hc
      rcases update_eq_some hc with hold | ⟨rfl, rfl⟩
      · exact .inl hold
      · exact .inr ⟨rfl, .inl (List.mem_cons_self ..)⟩

/-- One entry: what it does when it does not end the load. -/
theorem loadEntry_step {d d' : CapsuleDispatch} {e : DirEntry} (h : d.loadEntry crates allowlist e = .ok d') :
    EntryStep crates allowlist d d' e := by
  cases e with
  | other =>
      cases h
      exact .same rfl rfl (by simp) (by simp)
  | folder f =>
      unfold CapsuleDispatch.loadEntry at h
      simp only at h
      split at h
      · rename_i file hcps
        cases h
        exact loadArchive_step hcps
      · rename_i hcps
        split at h
        · rename_i manifestFile wasmFile hmanifest hwasm
          exact loadLoose_step hcps hmanifest hwasm h
        · rename_i hmissing
          cases h
          apply EntryStep.same rfl rfl
          · rintro _ c ⟨⟩
            exact Folder.not_admitted hcps c
          · rintro _ m ⟨⟩ ⟨-, hwasm, file, text, hfile, -⟩
            obtain ⟨wasmFile, hwasm⟩ := Option.ne_none_iff_exists'.mp hwasm
            exact hmissing file wasmFile hfile hwasm

theorem loadLoose_ok_iff {d : CapsuleDispatch} {f : Folder} {manifestFile wasmFile : Except String (List UInt8)}
    (hcps : f.cps = none) (hmanifest : f.manifest = some manifestFile) (hwasm : f.wasm = some wasmFile) :
    (∃ d', d.loadLoose crates f manifestFile wasmFile = .ok d') ↔
      (∃ text, readToString manifestFile = .ok text) ∧ ((∃ m, f.Loose crates m) → ∃ wasm, wasmFile = .ok wasm) := by
  unfold CapsuleDispatch.loadLoose
  simp only [Except.bind_eq_ok, mapError_ok]
  constructor
  · rintro ⟨d', text, htext, h⟩
    refine ⟨⟨text, htext⟩, ?_⟩
    rintro ⟨m, -, -, file, text', hfile, htext', hparse⟩
    obtain rfl := Option.some.inj (hmanifest.symm.trans hfile)
    obtain rfl := Except.ok.inj (htext.symm.trans htext')
    rw [hparse] at h
    obtain ⟨wasm, hread, -⟩ := Except.bind_eq_ok.mp h
    exact ⟨wasm, mapError_ok.mp hread⟩
  · rintro ⟨⟨text, htext⟩, hread⟩
    cases hparse : Manifest.parse crates.debug crates.toml text with
    | error e => exact ⟨_, text, htext, by rw [hparse]; rfl⟩
    | ok m =>
        obtain ⟨wasm, rfl⟩ := hread ⟨m, hcps, by simp [hwasm], manifestFile, text, hmanifest, htext, hparse⟩
        exact ⟨_, text, htext, by rw [hparse]; rfl⟩

/-- An entry ends the load when it has loose files that cannot be read. -/
theorem loadEntry_ok_iff {d : CapsuleDispatch} {e : DirEntry} :
    (∃ d', d.loadEntry crates allowlist e = .ok d') ↔ ∀ f, e = .folder f → f.Readable crates := by
  cases e with
  | other =>
      constructor
      · intro _ f hf
        cases hf
      · intro _
        exact ⟨d, rfl⟩
  | folder f =>
      have hf : (∀ g, DirEntry.folder f = .folder g → g.Readable crates) ↔ f.Readable crates := by
        constructor
        · intro h
          exact h f rfl
        · rintro h g ⟨⟩
          exact h
      rw [hf]
      unfold CapsuleDispatch.loadEntry Folder.Readable
      simp only
      cases hcps : f.cps with
      | some file => simp
      | none =>
          cases hmanifest : f.manifest with
          | none => simp
          | some manifestFile =>
              cases hwasm : f.wasm with
              | none => simp
              | some wasmFile =>
                  simp only
                  rw [loadLoose_ok_iff hcps hmanifest hwasm]
                  constructor
                  · rintro h - _ _ ⟨⟩ ⟨⟩
                    exact h
                  · intro h
                    exact h trivial _ _ rfl rfl

/-! ## A whole directory -/

variable (crates allowlist)

/-- What the tables hold when the entries `done` have been taken. -/
structure Loaded (done : List DirEntry) (d : CapsuleDispatch) : Prop where
  unverified : ∀ n, n ∈ d.unverified ↔ ∃ f m, .folder f ∈ done ∧ f.Loose crates m ∧ m.capsule.name = n
  held : ∀ n c, d.capsules n = some c → c.name = n ∧
    (n ∈ d.unverified ∨ ∃ f, .folder f ∈ done ∧ f.Admitted crates allowlist c)
  there : ∀ f c, .folder f ∈ done → f.Admitted crates allowlist c → d.capsules c.name ≠ none

variable {crates allowlist}

theorem Loaded.empty : Loaded crates allowlist [] .empty where
  unverified := by simp [CapsuleDispatch.empty]
  held := by simp [CapsuleDispatch.empty]
  there := by simp

theorem mem_concat {done : List DirEntry} {e : DirEntry} {f : Folder} :
    .folder f ∈ done ++ [e] ↔ .folder f ∈ done ∨ e = .folder f := by
  rw [List.mem_append, List.mem_singleton, eq_comm (a := e)]

/-- Taking one more entry. -/
theorem Loaded.concat {done : List DirEntry} {d d' : CapsuleDispatch} {e : DirEntry} (h : Loaded crates allowlist done d)
    (hstep : EntryStep crates allowlist d d' e) : Loaded crates allowlist (done ++ [e]) d' where
  unverified n := by
    rw [hstep.unverified, h.unverified]
    constructor
    · rintro (⟨f, m, hf, hm⟩ | ⟨f, m, hf, hm⟩)
      · exact ⟨f, m, mem_concat.mpr (.inl hf), hm⟩
      · exact ⟨f, m, mem_concat.mpr (.inr hf), hm⟩
    · rintro ⟨f, m, hf, hm⟩
      rcases mem_concat.mp hf with hf | hf
      · exact .inl ⟨f, m, hf, hm⟩
      · exact .inr ⟨f, m, hf, hm⟩
  held n c hc := by
    rcases hstep.held n c hc with hold | ⟨hname, hu | ⟨f, hf, hadmitted⟩⟩
    · obtain ⟨hname, hu | ⟨f, hf, hadmitted⟩⟩ := h.held n c hold
      · exact ⟨hname, .inl ((hstep.unverified n).mpr (.inl hu))⟩
      · exact ⟨hname, .inr ⟨f, mem_concat.mpr (.inl hf), hadmitted⟩⟩
    · exact ⟨hname, .inl hu⟩
    · exact ⟨hname, .inr ⟨f, mem_concat.mpr (.inr hf), hadmitted⟩⟩
  there f c hf hc := by
    rcases mem_concat.mp hf with hf | hf
    · exact hstep.kept _ (h.there f c hf hc)
    · exact hstep.there f c hf hc

/-- Taking the entries one by one. -/
theorem Loaded.run {done entries : List DirEntry} {d d' : CapsuleDispatch} (h : Loaded crates allowlist done d)
    (hrun : entries.foldlM (CapsuleDispatch.loadEntry crates allowlist) d = .ok d') :
    Loaded crates allowlist (done ++ entries) d' := by
  induction entries generalizing done d with
  | nil =>
      cases hrun
      rw [List.append_nil]
      exact h
  | cons e entries ih =>
      rw [List.foldlM_cons] at hrun
      obtain ⟨d₁, hentry, hrun⟩ := Except.bind_eq_ok.mp hrun
      have hloaded := ih (h.concat (loadEntry_step hentry)) hrun
      rwa [List.append_assoc] at hloaded

theorem entries_ok_iff {entries : List DirEntry} {d : CapsuleDispatch} :
    (∃ d', entries.foldlM (CapsuleDispatch.loadEntry crates allowlist) d = .ok d') ↔
      ∀ f, .folder f ∈ entries → f.Readable crates := by
  induction entries generalizing d with
  | nil => simp [pure, Except.pure]
  | cons e entries ih =>
      simp only [List.foldlM_cons, Except.bind_eq_ok, List.mem_cons]
      constructor
      · rintro ⟨d', d₁, hentry, hrun⟩ f (hf | hf)
        · exact loadEntry_ok_iff.mp ⟨d₁, hentry⟩ f hf.symm
        · exact ih.mp ⟨d', hrun⟩ f hf
      · intro h
        obtain ⟨d₁, hentry⟩ := (loadEntry_ok_iff (d := d) (e := e)).mpr fun f hf => h f (.inl hf.symm)
        obtain ⟨d', hrun⟩ := (ih (d := d₁)).mpr fun f hf => h f (.inr hf)
        exact ⟨d', d₁, hentry, hrun⟩

theorem map_mapError_ok {ε ε' α : Type} {g : ε → ε'} {items : List (Except ε α)} {as : List α} :
    items.map (Except.mapError g) = as.map .ok ↔ items = as.map .ok := by
  induction items generalizing as with
  | nil => simp
  | cons item items ih =>
      cases as with
      | nil => simp
      | cons a as => simp only [List.map_cons, List.cons.injEq, mapError_ok, ih]

/-- The load goes through the entries, when all of them can be listed. -/
theorem loadFromDir_ok {dir : String} {listing : Listing} {d : CapsuleDispatch} :
    loadFromDirWithAllowlist crates allowlist dir listing = .ok d ↔
      ∃ entries : List DirEntry, listing = .ok (entries.map .ok) ∧
        entries.foldlM (CapsuleDispatch.loadEntry crates allowlist) .empty = .ok d := by
  unfold loadFromDirWithAllowlist
  rw [Except.bind_eq_ok]
  have hitems : ∀ items : List (Except String DirEntry),
      items.foldlM (fun d entry =>
        entry.mapError (fun e => AgentError.capsule ("read_dir entry: " ++ e)) >>= d.loadEntry crates allowlist) .empty =
        .ok d ↔
      ∃ entries : List DirEntry, items = entries.map .ok ∧
        entries.foldlM (CapsuleDispatch.loadEntry crates allowlist) .empty = .ok d := by
    intro items
    have h : (items.map (Except.mapError fun e => AgentError.capsule ("read_dir entry: " ++ e))).foldlM
        (fun d entry => entry >>= CapsuleDispatch.loadEntry crates allowlist d) .empty = .ok d ↔ _ := Except.foldlM_items
    rw [List.foldlM_map] at h
    simp only [map_mapError_ok] at h
    exact h
  constructor
  · rintro ⟨items, hlisting, hrun⟩
    obtain ⟨entries, rfl, hentries⟩ := (hitems items).mp hrun
    exact ⟨entries, mapError_ok.mp hlisting, hentries⟩
  · rintro ⟨entries, rfl, hentries⟩
    exact ⟨_, rfl, (hitems _).mpr ⟨entries, rfl, hentries⟩⟩

/-- A fleet that is loaded is of a directory that was listed. -/
theorem loadFromDir_loaded {dir : String} {listing : Listing} {d : CapsuleDispatch}
    (h : loadFromDirWithAllowlist crates allowlist dir listing = .ok d) :
    ∃ entries : List DirEntry, listing = .ok (entries.map .ok) ∧ Loaded crates allowlist entries d := by
  obtain ⟨entries, hlisting, hrun⟩ := loadFromDir_ok.mp h
  refine ⟨entries, hlisting, ?_⟩
  have hloaded := Loaded.empty.run hrun
  rwa [List.nil_append] at hloaded

/-- **Calls.** A call instantiates a capsule of an archive that is verified and allowlisted, whatever else the directory
    holds. -/
theorem gate_admitted {entries : List DirEntry} {d : CapsuleDispatch} (h : Loaded crates allowlist entries d)
    {name : String} {c : Capsule} (hgate : d.gate crates.debug name = .ok c) :
    c.name = name ∧ ∃ f, .folder f ∈ entries ∧ f.Admitted crates allowlist c := by
  obtain ⟨hc, hu⟩ := CapsuleDispatch.gate_ok.mp hgate
  obtain ⟨hname, hun | hadmitted⟩ := h.held name c hc
  · exact absurd hun hu
  · exact ⟨hname, hadmitted⟩

/-! ## Folder by folder -/

variable (crates allowlist)

/-- Every loose file can be read, no loose manifest takes the name of an admitted capsule, and no two admitted capsules
    of one name differ. -/
structure Separate (entries : List DirEntry) : Prop where
  readable : ∀ f, .folder f ∈ entries → f.Readable crates
  named : ∀ f g c m, .folder f ∈ entries → .folder g ∈ entries → f.Admitted crates allowlist c → g.Loose crates m →
    m.capsule.name ≠ c.name
  alone : ∀ f g c c', .folder f ∈ entries → .folder g ∈ entries → f.Admitted crates allowlist c →
    g.Admitted crates allowlist c' → c.name = c'.name → c = c'

/-- A directory that is listed is loaded, whatever the order; a call runs an admitted capsule and nothing else; and each
    admitted capsule is runnable, and is what a call of its name runs. -/
structure FolderByFolder (dir : String) (entries : List DirEntry) (d : CapsuleDispatch) : Prop where
  loads : loadFromDirWithAllowlist crates allowlist dir (.ok (entries.map .ok)) = .ok d
  only : ∀ name c, d.gate crates.debug name = .ok c → ∃ f, .folder f ∈ entries ∧ f.Admitted crates allowlist c
  every : ∀ f c, .folder f ∈ entries → f.Admitted crates allowlist c →
    d.isRunnable c.name = true ∧ d.gate crates.debug c.name = .ok c

def Decided (dir : String) (entries : List DirEntry) : Prop :=
  ∀ listed, List.Perm listed entries → ∃ d, FolderByFolder crates allowlist dir listed d

variable {crates allowlist}

theorem Separate.perm {entries entries' : List DirEntry} (h : Separate crates allowlist entries)
    (hperm : List.Perm entries' entries) : Separate crates allowlist entries' where
  readable f hf := h.readable f (hperm.mem_iff.mp hf)
  named f g c m hf hg := h.named f g c m (hperm.mem_iff.mp hf) (hperm.mem_iff.mp hg)
  alone f g c c' hf hg := h.alone f g c c' (hperm.mem_iff.mp hf) (hperm.mem_iff.mp hg)

theorem Separate.folderByFolder {dir : String} {entries : List DirEntry} (h : Separate crates allowlist entries) :
    ∃ d, FolderByFolder crates allowlist dir entries d := by
  obtain ⟨d, hrun⟩ := (entries_ok_iff (d := .empty)).mpr h.readable
  have hload : loadFromDirWithAllowlist crates allowlist dir (.ok (entries.map .ok)) = .ok d :=
    loadFromDir_ok.mpr ⟨entries, rfl, hrun⟩
  have hloaded := Loaded.empty.run hrun
  rw [List.nil_append] at hloaded
  refine ⟨d, hload, fun name c hgate => (gate_admitted hloaded hgate).2, ?_⟩
  intro f c hf hc
  have hgate : d.gate crates.debug c.name = .ok c := by
    have hu : c.name ∉ d.unverified := by
      intro hu
      obtain ⟨g, m, hg, hm, hn⟩ := (hloaded.unverified c.name).mp hu
      exact h.named f g c m hf hg hc hm hn
    obtain ⟨c', hc'⟩ := Option.ne_none_iff_exists'.mp (hloaded.there f c hf hc)
    obtain ⟨hname, hun | ⟨g, hg, hadmitted⟩⟩ := hloaded.held c.name c' hc'
    · exact absurd hun hu
    · rw [h.alone f g c c' hf hg hc hadmitted hname.symm]
      rw [h.alone f g c c' hf hg hc hadmitted hname.symm] at hc' hu
      exact CapsuleDispatch.gate_ok.mpr ⟨hc', hu⟩
  exact ⟨CapsuleDispatch.isRunnable_iff.mpr ⟨c, hgate⟩, hgate⟩

theorem FolderByFolder.separate {dir : String} {entries : List DirEntry} {d : CapsuleDispatch}
    (h : FolderByFolder crates allowlist dir entries d) : Separate crates allowlist entries := by
  obtain ⟨entries', hentries, hrun⟩ := loadFromDir_ok.mp h.loads
  have hsame : entries = entries' := List.map_injective_iff.mpr (fun a b hab => Except.ok.inj hab) (Except.ok.inj hentries)
  subst hsame
  have hloaded := Loaded.empty.run hrun
  rw [List.nil_append] at hloaded
  refine ⟨entries_ok_iff.mp ⟨d, hrun⟩, ?_, ?_⟩
  · intro f g c m hf hg hc hm hn
    have hu := (CapsuleDispatch.gate_ok.mp (h.every f c hf hc).2).2
    exact hu ((hloaded.unverified c.name).mpr ⟨g, m, hg, hm, hn⟩)
  · intro f g c c' hf hg hc hc' hn
    have hgate := (h.every f c hf hc).2
    rw [hn, (h.every g c' hg hc').2] at hgate
    exact (Except.ok.inj hgate).symm

/-- **The fleet.** A directory is decided folder by folder exactly when its folders are separate. -/
theorem decided_iff_separate (crates : Crates) (allowlist : FleetAllowlist) (dir : String) (entries : List DirEntry) :
    Decided crates allowlist dir entries ↔ Separate crates allowlist entries := by
  constructor
  · intro h
    obtain ⟨d, hd⟩ := h entries (List.Perm.refl _)
    exact hd.separate
  · intro h listed hperm
    exact (h.perm hperm).folderByFolder

/-! ## A folder that ends the load -/

/-- Nothing is parsed, unpacked or verified. -/
def Crates.refusing : Crates where
  toml := fun _ => .error "not a manifest"
  unpack := fun _ _ => .error "zstd init: unknown frame descriptor"
  sha256 := Sha256.hash
  ed := { Key := Hitl.PublicKey, fromBytes := .ok, verify := fun _ _ _ => .error "signature error" }
  debug := fun s => "\"" ++ s ++ "\""
  utf8Error := fun _ => "invalid utf-8 sequence"

/-- Loose files, of which the manifest may not be read. -/
def locked : Folder where
  path := "capsules/locked"
  dirName := "locked"
  cps := none
  manifest := some (.error "Permission denied (os error 13)")
  wasm := some (.ok [])

theorem unreadable_neighbour : ¬ ∀ (crates : Crates) (allowlist : FleetAllowlist) (dir : String)
    (entries : List DirEntry), Decided crates allowlist dir entries := by
  intro h
  obtain ⟨d, hd⟩ := h .refusing ⟨[]⟩ "capsules" [.folder locked] _ (List.Perm.refl _)
  obtain ⟨⟨text, htext⟩, -⟩ := hd.separate.readable locked (by simp) rfl _ _ rfl rfl
  cases htext

end

end AgentRuntime.Capsule
