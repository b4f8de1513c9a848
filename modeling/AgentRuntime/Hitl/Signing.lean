import AgentRuntime.Hitl.Quorum

/-!
# `Hitl.Signing` — attested signatures and the signer roster (`agent/core/src/hitl/signing.rs`)

A signature counts when it verifies over the payload under the key it carries, and the key is enrolled for
the role it claims. Ed25519 and SHA-256 are parameters (`Ed25519`, `fingerprint`).
-/

namespace AgentRuntime.Hitl

/-- A 32-byte public key. -/
abbrev PublicKey : Type := Vector UInt8 32

/-- A person and a role. -/
structure Signer where
  id : String
  role : Role
deriving DecidableEq

/-- An approval signature, with the material that attests to it. -/
structure Signature where
  signer : Signer
  signatureBytes : List UInt8
  pubkey : PublicKey
deriving DecidableEq

/-- The signature scheme: which bytes are a key, and what verifies. -/
structure Ed25519 where
  Key : Type
  /-- `VerifyingKey::from_bytes`. -/
  fromBytes : PublicKey → Except String Key
  /-- `Verifier::verify`, for a signature of `signatureSize` bytes. -/
  verify : Key → List UInt8 → List UInt8 → Except String Unit

/-- `Ed25519Sig::BYTE_SIZE`. -/
def signatureSize : ℕ := 64

section

variable (ed : Ed25519) (fingerprint : PublicKey → String)

/-- Verify a signature against the payload it claims to sign. The signer's id must be the fingerprint of the
    key (`signer_id_from_pubkey`). -/
def verifyAttestation (payload : List UInt8) (sig : Signature) : Except String Unit :=
  match ed.fromBytes sig.pubkey with
  | .error e => .error ("attestation: bad pubkey: " ++ e)
  | .ok vk =>
      if sig.signatureBytes.length ≠ signatureSize then
        .error ("attestation: signature length " ++ toString sig.signatureBytes.length ++ " != expected "
          ++ toString signatureSize)
      else
        match ed.verify vk payload sig.signatureBytes with
        | .error e => .error ("attestation: signature does not verify: " ++ e)
        | .ok () =>
            if sig.signer.id ≠ fingerprint sig.pubkey then
              .error ("attestation: signer.id '" ++ sig.signer.id ++ "' does not match pubkey fingerprint '"
                ++ fingerprint sig.pubkey ++ "'")
            else .ok ()

end

/-- A roster of keys, each enrolled for roles. -/
abbrev SignerRoster : Type := PublicKey → Role → Bool

/-- With a roster the key must be enrolled for the claimed role; without one only a development build lets it
    pass. -/
def signerIsAuthorized (roster : Option SignerRoster) (pubkey : PublicKey) (role : Role)
    (devAllowed : Bool) : Bool :=
  match roster with
  | some isAuthorized => isAuthorized pubkey role
  | none => devAllowed

/-- **An accepted attestation** verifies under its own key, and the signer is that key's holder. -/
theorem verifyAttestation_ok {ed : Ed25519} {fingerprint : PublicKey → String} {payload : List UInt8}
    {sig : Signature} (h : verifyAttestation ed fingerprint payload sig = .ok ()) :
    (∃ vk, ed.fromBytes sig.pubkey = .ok vk ∧ ed.verify vk payload sig.signatureBytes = .ok ()) ∧
      sig.signer.id = fingerprint sig.pubkey := by
  unfold verifyAttestation at h
  cases hkey : ed.fromBytes sig.pubkey with
  | error e =>
      rw [hkey] at h
      cases h
  | ok vk =>
      rw [hkey] at h
      simp only at h
      split at h
      · cases h
      · cases hverify : ed.verify vk payload sig.signatureBytes with
        | error e =>
            rw [hverify] at h
            cases h
        | ok u =>
            rw [hverify] at h
            simp only at h
            split at h
            · cases h
            · rename_i hid
              exact ⟨⟨vk, rfl, hverify⟩, not_not.mp hid⟩

end AgentRuntime.Hitl
