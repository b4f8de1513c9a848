import AgentRuntime.Capsule.Archive
import AgentRuntime.Capsule.Manifest

/-!
# `Capsule.Verified` — which archives are verified (`agent/core/src/capsule/mod.rs`, `tiers.rs`, `verify.rs`)

An archive is verified when its manifest is valid and declares the content hash of what is in it, the publisher's
signature of that hash verifies under the key of the manifest's tier, and its imports are covered by the manifest.
`fromArchiveVerified_ok` says that the loader accepts these archives and no others.
-/

namespace AgentRuntime.Capsule

set_option linter.dupNamespace false

open Text
open Hitl (Ed25519 PublicKey signatureSize)

/-- What the loader uses from outside: TOML, `zstd` and `tar`, the hash, the signatures, and how texts and errors are
    shown. -/
structure Crates where
  toml : String → Except String Manifest
  unpack : Unpack
  sha256 : List UInt8 → Digest
  ed : Ed25519
  debug : String → String
  utf8Error : List UInt8 → String

/-- A loaded capsule. -/
structure Capsule where
  manifest : Manifest
  archive : ArchiveContents

def Capsule.name (c : Capsule) : String := c.manifest.capsule.name

/-- `str::from_utf8`. -/
def fromUtf8 (bytes : List UInt8) : Option String := String.fromUTF8? bytes.toByteArray

/-! ## Signatures -/

structure StaticKeyRegistry where
  bundled : Option PublicKey
  managed : Option PublicKey

def StaticKeyRegistry.publisherKeyFor (r : StaticKeyRegistry) : SigningTier → Option PublicKey
  | .bundled => r.bundled
  | .managed => r.managed
  | .workspace => none

def bundledPublisherKey : PublicKey := #v[
  0x4a, 0x4a, 0x0c, 0x85, 0x78, 0x3c, 0xae, 0x8b, 0x5b, 0x75, 0x2a, 0x83, 0xd9, 0x03, 0x65, 0x95,
  0x8e, 0xd1, 0x9d, 0xc1, 0xa6, 0xe1, 0x1f, 0xf6, 0xd9, 0xe2, 0x16, 0x78, 0x7e, 0x6a, 0xa7, 0x0a]

/-- The keys the fleet is verified under. -/
def registry : StaticKeyRegistry where
  bundled := some bundledPublisherKey
  managed := none

def SigningTier.debug : SigningTier → String
  | .bundled => "Bundled"
  | .managed => "Managed"
  | .workspace => "Workspace"

section

variable (crates : Crates)

def verifySignature (contentHash : String) (signatureBytes : List UInt8) (declaredTier : SigningTier)
    (registry : StaticKeyRegistry) : Except AgentError Unit :=
  match registry.publisherKeyFor declaredTier with
  | none =>
      .error (.capsuleSigningTierMismatch
        ("no trusted publisher key configured for tier " ++ declaredTier.debug))
  | some key =>
      match crates.ed.fromBytes key with
      | .error e => .error (.capsuleSignatureInvalid ("invalid publisher key in registry: " ++ e))
      | .ok pubkey =>
          if signatureBytes.length ≠ signatureSize then
            .error (.capsuleSignatureInvalid ("signature length " ++ toString signatureBytes.length ++
              " != expected " ++ toString signatureSize))
          else
            match crates.ed.verify pubkey (crates.sha256 (Json.utf8 contentHash)).toList signatureBytes with
            | .error e =>
                .error (.capsuleSignatureInvalid
                  ("signature does not verify under tier " ++ declaredTier.debug ++ " key: " ++ e))
            | .ok () => .ok ()

/-! ## Imports -/

def checkImport (manifest : Manifest) (ns name : List Char) : Except AgentError Unit :=
  let import' := "WIT imports " ++ String.ofList ns ++ ":" ++ String.ofList name
  if ns = "wasi".toList ∧ name = "sockets".toList then
    if manifest.capability.network = .none then
      .error (.capsuleWitMismatch (import' ++ " but manifest declares [capability].network = \"none\""))
    else .ok ()
  else if ns = "wasi".toList ∧ name = "filesystem".toList then
    if manifest.capability.filesystem = [] then
      .error (.capsuleWitMismatch (import' ++ " but manifest's [capability].filesystem is empty"))
    else .ok ()
  else .ok ()

/-- The package a line imports: its namespace and its name. -/
def importOf (line : List Char) : Option (List Char × List Char) :=
  let trimmed := trim line
  let code := ((breakOn "//".toList trimmed).map Prod.fst).getD trimmed
  let stripped := trim (code.rdropWhile (· = ';'))
  (strip "import ".toList stripped).bind fun rest =>
    let pkgPath := (rest.dropWhile isWhitespace).takeWhile fun c => !isWhitespace c
    (breakOn [':'] pkgPath).map fun (ns, found) =>
      (ns, (found.drop 1).takeWhile fun c => c ≠ '/' && c ≠ '@')

def verifyCapabilityAgainstWit (manifest : Manifest) (wit : String) : Except AgentError Unit :=
  (lines wit.toList).forM fun line =>
    match importOf line with
    | some (ns, name) => checkImport manifest ns name
    | none => .ok ()

/-! ## Archives -/

def maxDecompressedBytes : ℕ := 256 * 1024 * 1024

def fromArchive (bytes : List UInt8) : Except AgentError Capsule := do
  let archive ← (readArchiveCapped crates.unpack bytes maxDecompressedBytes).mapError .capsule
  let some manifestToml := fromUtf8 archive.manifest
    | throw (.capsule ("manifest.toml is not valid UTF-8: " ++ crates.utf8Error archive.manifest))
  let manifest ← Manifest.parse crates.debug crates.toml manifestToml
  let computedHash := computeContentHash crates.sha256 archive
  if computedHash ≠ manifest.capsule.contentHash then
    throw (.capsule ("content_hash mismatch — manifest declares " ++ manifest.capsule.contentHash ++
      ", archive computed " ++ computedHash))
  return { manifest, archive }

def fromArchiveVerified (bytes : List UInt8) (registry : StaticKeyRegistry) : Except AgentError Capsule := do
  let capsule ← fromArchive crates bytes
  let some sig := capsule.archive.signatures.lookup "publisher.sig"
    | throw (.capsuleSignatureInvalid "publisher.sig missing from SIGNATURES/")
  verifySignature crates capsule.manifest.capsule.contentHash sig capsule.manifest.signing registry
  let some wit := fromUtf8 capsule.archive.wit
    | throw (.capsuleWitMismatch ("capsule.wit is not valid UTF-8: " ++ crates.utf8Error capsule.archive.wit))
  verifyCapabilityAgainstWit capsule.manifest wit
  return capsule

/-! ## What is verified -/

/-- The publisher has signed `contentHash`. -/
def Signed (registry : StaticKeyRegistry) (tier : SigningTier) (contentHash : String) (sig : List UInt8) : Prop :=
  ∃ key pubkey, registry.publisherKeyFor tier = some key ∧ crates.ed.fromBytes key = .ok pubkey ∧
    sig.length = signatureSize ∧ crates.ed.verify pubkey (crates.sha256 (Json.utf8 contentHash)).toList sig = .ok ()

/-- The archive holds the capsule, and everything about it is in order. -/
structure Verified (bytes : List UInt8) (registry : StaticKeyRegistry) (c : Capsule) : Prop where
  read : readArchiveCapped crates.unpack bytes maxDecompressedBytes = .ok c.archive
  manifest : ∃ text, fromUtf8 c.archive.manifest = some text ∧ crates.toml text = .ok c.manifest
  valid : c.manifest.validate crates.debug = .ok ()
  contentHash : c.manifest.capsule.contentHash = computeContentHash crates.sha256 c.archive
  signature : ∃ sig, c.archive.signatures.lookup "publisher.sig" = some sig ∧
    Signed crates registry c.manifest.signing c.manifest.capsule.contentHash sig
  wit : ∃ text, fromUtf8 c.archive.wit = some text ∧ verifyCapabilityAgainstWit c.manifest text = .ok ()

variable {crates : Crates}

theorem verifySignature_ok {contentHash : String} {sig : List UInt8} {tier : SigningTier}
    {registry : StaticKeyRegistry} :
    verifySignature crates contentHash sig tier registry = .ok () ↔ Signed crates registry tier contentHash sig := by
  unfold verifySignature Signed
  constructor
  · intro h
    split at h
    · cases h
    · rename_i key hkey
      split at h
      · cases h
      · rename_i pubkey hpubkey
        split at h
        · cases h
        · rename_i hlength
          split at h
          · cases h
          · rename_i hverify
            exact ⟨key, pubkey, hkey, hpubkey, not_not.mp hlength, hverify⟩
  · rintro ⟨key, pubkey, hkey, hpubkey, hlength, hverify⟩
    simp [hkey, hpubkey, hlength, hverify]

theorem mapError_ok {ε ε' α : Type} {f : ε → ε'} {x : Except ε α} {a : α} : x.mapError f = .ok a ↔ x = .ok a := by
  cases x with
  | error e => simp [Except.mapError]
  | ok b => simp [Except.mapError]

theorem fromArchive_ok {bytes : List UInt8} {c : Capsule} :
    fromArchive crates bytes = .ok c ↔
      readArchiveCapped crates.unpack bytes maxDecompressedBytes = .ok c.archive ∧
        (∃ text, fromUtf8 c.archive.manifest = some text ∧ crates.toml text = .ok c.manifest) ∧
        c.manifest.validate crates.debug = .ok () ∧
        c.manifest.capsule.contentHash = computeContentHash crates.sha256 c.archive := by
  unfold fromArchive
  rw [Except.bind_eq_ok]
  constructor
  · rintro ⟨archive, hread, h⟩
    split at h
    · rename_i text htext
      obtain ⟨manifest, hparse, h⟩ := Except.bind_eq_ok.mp h
      simp only at h
      split at h
      · cases h
      · rename_i hhash
        cases h
        obtain ⟨htoml, hvalid⟩ := Manifest.parse_ok.mp hparse
        exact ⟨mapError_ok.mp hread, ⟨text, htext, htoml⟩, hvalid, (not_not.mp hhash).symm⟩
    · cases h
  · rintro ⟨hread, ⟨text, htext, htoml⟩, hvalid, hhash⟩
    refine ⟨c.archive, mapError_ok.mpr hread, ?_⟩
    rw [htext]
    show Manifest.parse crates.debug crates.toml text >>= _ = _
    rw [Except.bind_eq_ok]
    refine ⟨c.manifest, Manifest.parse_ok.mpr ⟨htoml, hvalid⟩, ?_⟩
    simp [hhash]
    rfl

/-- **Archives.** The loader accepts the verified ones. -/
theorem fromArchiveVerified_ok {bytes : List UInt8} {registry : StaticKeyRegistry} {c : Capsule} :
    fromArchiveVerified crates bytes registry = .ok c ↔ Verified crates bytes registry c := by
  unfold fromArchiveVerified
  rw [Except.bind_eq_ok]
  constructor
  · rintro ⟨c', harchive, h⟩
    split at h
    · rename_i sig hsig
      obtain ⟨_, hsigned, h⟩ := Except.bind_eq_ok.mp h
      split at h
      · rename_i wit hwit
        obtain ⟨_, hcovered, h⟩ := Except.bind_eq_ok.mp h
        cases h
        obtain ⟨hread, hmanifest, hvalid, hhash⟩ := fromArchive_ok.mp harchive
        exact ⟨hread, hmanifest, hvalid, hhash, ⟨sig, hsig, verifySignature_ok.mp hsigned⟩, ⟨wit, hwit, hcovered⟩⟩
      · cases h
    · cases h
  · rintro ⟨hread, hmanifest, hvalid, hhash, ⟨sig, hsig, hsigned⟩, ⟨wit, hwit, hcovered⟩⟩
    refine ⟨c, fromArchive_ok.mpr ⟨hread, hmanifest, hvalid, hhash⟩, ?_⟩
    rw [hsig]
    show verifySignature crates _ sig _ registry >>= _ = _
    rw [Except.bind_eq_ok]
    refine ⟨(), verifySignature_ok.mpr hsigned, ?_⟩
    rw [hwit]
    show verifyCapabilityAgainstWit c.manifest wit >>= _ = _
    rw [Except.bind_eq_ok]
    exact ⟨(), hcovered, rfl⟩

end

end AgentRuntime.Capsule
