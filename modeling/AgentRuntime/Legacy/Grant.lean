import AgentRuntime.Lib.Framing
import AgentRuntime.Lib.Text
import AgentRuntime.Lib.TextSize

/-!
# `Legacy.Grant` — signed capability grants (`agent-legacy/src/canonical.rs`)

A grant says what an external runtime is allowed to do, and carries the issuer's key and a signature over the
canonical bytes of everything else that is checked (`signingPreimage`). Each scalar and each list element has its length
in front, each list its count, so the bytes are those of one scope only.

Ed25519 is a parameter (`fromBytes`, `verifyStrict`).
-/

namespace AgentRuntime.Legacy

open Words Json Framing

/-! ## The data -/

/-- User-visible policy profiles for capability grants. -/
inductive PolicyProfile where
  | readOnly
  | guided
  | operator
  | maintainer
deriving DecidableEq

/-- The derived `Debug` text. -/
def PolicyProfile.debug : PolicyProfile → String
  | .readOnly => "ReadOnly"
  | .guided => "Guided"
  | .operator => "Operator"
  | .maintainer => "Maintainer"

structure CapabilityGrant where
  id : String
  issuer : String
  recipient : String
  allowedTools : List String
  maxValuePerTx : Option ℕ
  allowedPaths : List String
  /-- RFC 3339; empty for a grant that does not expire. -/
  expiresAt : String
  policy : PolicyProfile
  revoked : Bool
  issuerPubkey : List UInt8
  signature : List UInt8
deriving DecidableEq

/-- What a grant allows, and to whom: all of it but the key and the signature. -/
structure Scope where
  id : String
  issuer : String
  recipient : String
  allowedTools : List String
  expiresAt : String
  policy : PolicyProfile
  maxValuePerTx : Option ℕ
  allowedPaths : List String
  revoked : Bool
deriving DecidableEq

def CapabilityGrant.scope (g : CapabilityGrant) : Scope where
  id := g.id
  issuer := g.issuer
  recipient := g.recipient
  allowedTools := g.allowedTools
  expiresAt := g.expiresAt
  policy := g.policy
  maxValuePerTx := g.maxValuePerTx
  allowedPaths := g.allowedPaths
  revoked := g.revoked

/-! ## The signature -/

def preimageDomain : List UInt8 := utf8 "CIT-GRANT-PREIMAGE-v1"

def field (b : List UInt8) : List UInt8 := leBytes 8 b.length ++ b

/-- The decimal text of a ceiling, empty without one. -/
def ceilingText (v : Option ℕ) : String := (v.map toString).getD ""

namespace CapabilityGrant

/-- The canonical signing pre-image of a grant. -/
def signingPreimage (g : CapabilityGrant) : List UInt8 :=
  field preimageDomain ++ field (utf8 g.id) ++ field (utf8 g.issuer) ++ field (utf8 g.recipient) ++
    leBytes 8 g.allowedTools.length ++ g.allowedTools.flatMap (fun t => field (utf8 t)) ++
    field (utf8 g.expiresAt) ++ field (utf8 g.policy.debug) ++ field (utf8 (ceilingText g.maxValuePerTx)) ++
    leBytes 8 g.allowedPaths.length ++ g.allowedPaths.flatMap (fun p => field (utf8 p)) ++
    [if g.revoked then 1 else 0]

end CapabilityGrant

/-- `<[u8; n]>::try_from`. -/
def tryIntoArray (n : ℕ) (bytes : List UInt8) : Option (Vector UInt8 n) :=
  if h : bytes.length = n then some ⟨bytes.toArray, by simpa using h⟩ else none

section

variable {Key : Type} (fromBytes : Vector UInt8 32 → Except String Key)
  (verifyStrict : Key → List UInt8 → Vector UInt8 64 → Except String Unit)

/-- Verify the grant's signature under `issuerPubkey`. -/
def CapabilityGrant.verifySignature (g : CapabilityGrant) : Except String Unit :=
  if g.signature = [] then .error "unsigned grant"
  else if g.issuerPubkey = [] then .error "unsigned grant: missing issuer_pubkey"
  else
    match tryIntoArray 32 g.issuerPubkey with
    | none => .error "issuer_pubkey is not 32 bytes"
    | some pubkeyBytes =>
        match tryIntoArray 64 g.signature with
        | none => .error "signature is not 64 bytes"
        | some sigBytes =>
            match fromBytes pubkeyBytes with
            | .error e => .error ("invalid issuer_pubkey: " ++ e)
            | .ok verifying =>
                match verifyStrict verifying g.signingPreimage sigBytes with
                | .error e => .error ("signature verification failed: " ++ e)
                | .ok () => .ok ()

end

/-! ## What is in memory -/

/-- A list of strings as a program can hold one. -/
def TextsInMemory (l : List String) : Prop := l.length < u64Bound ∧ ∀ s ∈ l, TextInMemory s

instance (l : List String) : Decidable (TextsInMemory l) := by
  unfold TextsInMemory
  infer_instance

/-- A grant as a program can hold one; the ceiling is a `u128`. -/
structure GrantInMemory (g : CapabilityGrant) : Prop where
  id : TextInMemory g.id
  issuer : TextInMemory g.issuer
  recipient : TextInMemory g.recipient
  allowedTools : TextsInMemory g.allowedTools
  expiresAt : TextInMemory g.expiresAt
  maxValuePerTx : ∀ v ∈ g.maxValuePerTx, v < 2 ^ 128
  allowedPaths : TextsInMemory g.allowedPaths

instance (g : CapabilityGrant) : Decidable (GrantInMemory g) :=
  decidable_of_iff (TextInMemory g.id ∧ TextInMemory g.issuer ∧ TextInMemory g.recipient ∧
      TextsInMemory g.allowedTools ∧ TextInMemory g.expiresAt ∧ (∀ v ∈ g.maxValuePerTx, v < 2 ^ 128) ∧
      TextsInMemory g.allowedPaths)
    ⟨fun ⟨hid, hissuer, hrecipient, htools, hexpires, hmax, hpaths⟩ =>
        ⟨hid, hissuer, hrecipient, htools, hexpires, hmax, hpaths⟩,
      fun h => ⟨h.id, h.issuer, h.recipient, h.allowedTools, h.expiresAt, h.maxValuePerTx, h.allowedPaths⟩⟩

/-! ## What the bytes show -/

theorem shows_field_text : Shows TextInMemory (fun s => field (utf8 s)) id := shows_text shows_u64_le

theorem shows_field_texts :
    Shows TextsInMemory (fun l => leBytes 8 l.length ++ l.flatMap fun s => field (utf8 s)) id :=
  (shows_counted shows_u64_le shows_field_text).imp fun _ _ _ _ h => by simpa using h

theorem debug_injective : Function.Injective PolicyProfile.debug := by
  intro a b h
  cases a <;> cases b <;> first | rfl | exact absurd h (by decide)

theorem shows_policy : Shows (fun _ => True) (fun p => field (utf8 (PolicyProfile.debug p))) id := by
  refine (shows_field_text.comp (k := PolicyProfile.debug) fun p _ => ?_).imp fun _ _ _ _ h => debug_injective h
  cases p <;> decide

/-- The text of a ceiling shows it: no number has the empty text of no ceiling. -/
theorem ceilingText_injective : Function.Injective ceilingText := by
  have hread : Function.LeftInverse
      (fun s : String => if s.toList = [] then none else some (Text.decimalValue s.toList)) ceilingText := by
    intro v
    cases v with
    | none => simp [ceilingText]
    | some n => simp [ceilingText, Text.decimalValue_toDigits]
  exact hread.injective

theorem ceilingText_inMemory {v : Option ℕ} (h : ∀ n ∈ v, n < 2 ^ 128) : TextInMemory (ceilingText v) := by
  cases v with
  | none => decide
  | some n =>
      have hsize : (toString n).utf8ByteSize ≤ 39 :=
        Text.utf8ByteSize_repr_le (by decide) ((h n rfl).trans (by norm_num))
      exact lt_of_le_of_lt hsize (by norm_num)

theorem shows_ceiling :
    Shows (fun v : Option ℕ => ∀ n ∈ v, n < 2 ^ 128) (fun v => field (utf8 (ceilingText v))) id :=
  (shows_field_text.comp (k := ceilingText) fun _ h => ceilingText_inMemory h).imp fun _ _ _ _ h =>
    ceilingText_injective h

theorem shows_revoked : Shows (fun _ => True) (fun r : Bool => [if r then (1 : UInt8) else 0]) id := by
  refine shows_fixed (n := 1) (fun _ _ => rfl) fun a b _ _ h => ?_
  cases a <;> cases b <;> first | rfl | exact absurd h (by decide)

/-- The pre-image is made of the scope alone. -/
theorem signingPreimage_of_scope {g g' : CapabilityGrant} (h : g.scope = g'.scope) :
    g.signingPreimage = g'.signingPreimage := by
  simp only [CapabilityGrant.scope, Scope.mk.injEq] at h
  obtain ⟨hid, hissuer, hrecipient, htools, hexpires, hpolicy, hceiling, hpaths, hrevoked⟩ := h
  simp only [CapabilityGrant.signingPreimage, hid, hissuer, hrecipient, htools, hexpires, hpolicy, hceiling, hpaths,
    hrevoked]

/-- **The scope is read back from the pre-image**, field by field. -/
theorem shows_signingPreimage : Shows GrantInMemory CapabilityGrant.signingPreimage CapabilityGrant.scope := by
  have hdomain : Shows GrantInMemory (fun _ => field preimageDomain) fun _ => () := shows_const _
  have hid := shows_field_text.comp (k := CapabilityGrant.id) fun g (h : GrantInMemory g) => h.id
  have hissuer := shows_field_text.comp (k := CapabilityGrant.issuer) fun g (h : GrantInMemory g) => h.issuer
  have hrecipient := shows_field_text.comp (k := CapabilityGrant.recipient) fun g (h : GrantInMemory g) => h.recipient
  have htools := shows_field_texts.comp (k := CapabilityGrant.allowedTools) fun g (h : GrantInMemory g) => h.allowedTools
  have hexpires := shows_field_text.comp (k := CapabilityGrant.expiresAt) fun g (h : GrantInMemory g) => h.expiresAt
  have hpolicy := shows_policy.comp (k := CapabilityGrant.policy) fun g (_ : GrantInMemory g) => trivial
  have hceiling := shows_ceiling.comp (k := CapabilityGrant.maxValuePerTx) fun g (h : GrantInMemory g) => h.maxValuePerTx
  have hpaths := shows_field_texts.comp (k := CapabilityGrant.allowedPaths) fun g (h : GrantInMemory g) => h.allowedPaths
  have hrevoked := shows_revoked.comp (k := CapabilityGrant.revoked) fun g (_ : GrantInMemory g) => trivial
  -- the fields in the order of the pre-image
  have hall := ((((((((hdomain.append hid).append hissuer).append hrecipient).append htools).append hexpires).append
    hpolicy).append hceiling).append hpaths).append hrevoked
  refine (hall.congr fun g => ?_).imp fun a b _ _ h => ?_
  · simp [CapabilityGrant.signingPreimage]
  · simp only [id_eq, Prod.mk.injEq, true_and, and_assoc] at h
    simpa [CapabilityGrant.scope] using h

/-! ## What a signature binds -/

section

variable {Key : Type} {fromBytes : Vector UInt8 32 → Except String Key}
  {verifyStrict : Key → List UInt8 → Vector UInt8 64 → Except String Unit}

theorem tryIntoArray_eq_some {n : ℕ} {bytes : List UInt8} {v : Vector UInt8 n}
    (h : tryIntoArray n bytes = some v) : bytes = v.toList := by
  unfold tryIntoArray at h
  split at h
  · cases h
    simp
  · cases h

/-- **An accepted signature** verifies over the pre-image, under the key of the grant. -/
theorem verifySignature_ok {g : CapabilityGrant} (h : g.verifySignature fromBytes verifyStrict = .ok ()) :
    ∃ pubkey key sig, g.issuerPubkey = pubkey.toList ∧ g.signature = sig.toList ∧ fromBytes pubkey = .ok key ∧
      verifyStrict key g.signingPreimage sig = .ok () := by
  unfold CapabilityGrant.verifySignature at h
  split at h
  · cases h
  · split at h
    · cases h
    · split at h
      · cases h
      · rename_i pubkey hpubkey
        split at h
        · cases h
        · rename_i sig hsig
          split at h
          · cases h
          · rename_i key hkey
            split at h
            · cases h
            · rename_i hverify
              exact ⟨pubkey, key, sig, tryIntoArray_eq_some hpubkey, tryIntoArray_eq_some hsig, hkey, hverify⟩

/-- An ideal signature scheme: a key accepts a signature only over bytes that its holder signed. -/
def IdealSignatures (verifyStrict : Key → List UInt8 → Vector UInt8 64 → Except String Unit)
    (signed : Key → List UInt8 → Prop) : Prop :=
  ∀ key message sig, verifyStrict key message sig = .ok () → signed key message

/-- **A signature binds the whole scope**: the pre-image is that of one scope only. So a grant is accepted only if the
    issuer key signed the bytes of a grant, and the grants with these bytes are those with exactly its fields. -/
theorem signature_binds_scope {signed : Key → List UInt8 → Prop} (hideal : IdealSignatures verifyStrict signed) :
    (∀ g g' : CapabilityGrant, GrantInMemory g → GrantInMemory g' →
      g.signingPreimage = g'.signingPreimage → g.scope = g'.scope) ∧
    ∀ g : CapabilityGrant, GrantInMemory g → g.verifySignature fromBytes verifyStrict = .ok () →
      ∃ pubkey key message, g.issuerPubkey = pubkey.toList ∧ fromBytes pubkey = .ok key ∧ signed key message ∧
        ∀ g' : CapabilityGrant, GrantInMemory g' → (g'.signingPreimage = message ↔ g'.scope = g.scope) := by
  refine ⟨fun g g' hg hg' heq => shows_signingPreimage.eq hg hg' heq, fun g hg haccept => ?_⟩
  obtain ⟨pubkey, key, sig, hpubkey, -, hkey, hverify⟩ := verifySignature_ok haccept
  refine ⟨pubkey, key, g.signingPreimage, hpubkey, hkey, hideal _ _ _ hverify, fun g' hg' => ⟨?_, ?_⟩⟩
  · exact fun heq => shows_signingPreimage.eq hg' hg heq
  · exact signingPreimage_of_scope

end

/-- A signed grant for the given tools. -/
def sampleGrant (tools : List String) : CapabilityGrant where
  id := "grant-test"
  issuer := "0xuser"
  recipient := "hermes"
  allowedTools := tools
  maxValuePerTx := none
  allowedPaths := []
  expiresAt := "2030-01-01T00:00:00Z"
  policy := .readOnly
  revoked := false
  issuerPubkey := List.replicate 32 7
  signature := List.replicate 64 1

/-- Verification under a key whose holder signed one message. -/
def verifyOne (message : List UInt8) (_ : Vector UInt8 32) (m : List UInt8) (_ : Vector UInt8 64) : Except String Unit :=
  if m = message then .ok () else .error "signature error"

/-- The issuer signed the grant of one tool with a comma in its name: that is not the grant of the two tools. -/
theorem signature_binds_scope_joined :
    ∃ message, (sampleGrant ["a,b"]).signingPreimage = message ∧ (sampleGrant ["a", "b"]).signingPreimage ≠ message := by
  have hideal : IdealSignatures (verifyOne (sampleGrant ["a,b"]).signingPreimage)
      fun _ m => m = (sampleGrant ["a,b"]).signingPreimage := by
    intro key m sig h
    unfold verifyOne at h
    split at h
    · assumption
    · cases h
  obtain ⟨-, -, message, -, -, -, hexact⟩ := (@signature_binds_scope _ .ok _ _ hideal).2
    (sampleGrant ["a,b"]) (by decide +kernel) (by decide +kernel)
  refine ⟨message, (hexact _ (by decide +kernel)).mpr rfl, fun hsplit => ?_⟩
  exact absurd ((hexact _ (by decide +kernel)).mp hsplit) (by decide)

end AgentRuntime.Legacy
