import AgentRuntime.Lib.Words

/-!
# `Lib.Sha256` — SHA-256 (FIPS 180-4) and lower-case hex

An executable SHA-256 over byte lists, with 32-byte digests (`Digest`), and the lower-case hex
encoding of digests (`hexEncode`) with its decoder (`hexDecode?`). Developments stay parametric in
the hash function (`List UInt8 → Digest`); this one is the function their parameter stands for.
-/

/-- A 32-byte digest. -/
abbrev Digest := Vector UInt8 32

namespace Sha256

open Words

/-! ## Words -/

def rotr (x n : UInt32) : UInt32 := (x >>> n) ||| (x <<< (32 - n))

def smallSigma0 (x : UInt32) : UInt32 := rotr x 7 ^^^ rotr x 18 ^^^ (x >>> 3)
def smallSigma1 (x : UInt32) : UInt32 := rotr x 17 ^^^ rotr x 19 ^^^ (x >>> 10)
def bigSigma0 (x : UInt32) : UInt32 := rotr x 2 ^^^ rotr x 13 ^^^ rotr x 22
def bigSigma1 (x : UInt32) : UInt32 := rotr x 6 ^^^ rotr x 11 ^^^ rotr x 25
def ch (x y z : UInt32) : UInt32 := (x &&& y) ^^^ (~~~x &&& z)
def maj (x y z : UInt32) : UInt32 := (x &&& y) ^^^ (x &&& z) ^^^ (y &&& z)

/-- Big-endian 32-bit words of a byte list. -/
def toWords : List UInt8 → List UInt32
  | a :: b :: c :: d :: t =>
      ((a.toUInt32 <<< 24) ||| (b.toUInt32 <<< 16) ||| (c.toUInt32 <<< 8) ||| d.toUInt32)
        :: toWords t
  | _ => []

/-! ## Compression -/

/-- The 64 round constants. -/
def roundConstants : List UInt32 := [
  0x428a2f98, 0x71374491, 0xb5c0fbcf, 0xe9b5dba5, 0x3956c25b, 0x59f111f1, 0x923f82a4, 0xab1c5ed5,
  0xd807aa98, 0x12835b01, 0x243185be, 0x550c7dc3, 0x72be5d74, 0x80deb1fe, 0x9bdc06a7, 0xc19bf174,
  0xe49b69c1, 0xefbe4786, 0x0fc19dc6, 0x240ca1cc, 0x2de92c6f, 0x4a7484aa, 0x5cb0a9dc, 0x76f988da,
  0x983e5152, 0xa831c66d, 0xb00327c8, 0xbf597fc7, 0xc6e00bf3, 0xd5a79147, 0x06ca6351, 0x14292967,
  0x27b70a85, 0x2e1b2138, 0x4d2c6dfc, 0x53380d13, 0x650a7354, 0x766a0abb, 0x81c2c92e, 0x92722c85,
  0xa2bfe8a1, 0xa81a664b, 0xc24b8b70, 0xc76c51a3, 0xd192e819, 0xd6990624, 0xf40e3585, 0x106aa070,
  0x19a4c116, 0x1e376c08, 0x2748774c, 0x34b0bcb5, 0x391c0cb3, 0x4ed8aa4a, 0x5b9cca4f, 0x682e6ff3,
  0x748f82ee, 0x78a5636f, 0x84c87814, 0x8cc70208, 0x90befffa, 0xa4506ceb, 0xbef9a3f7, 0xc67178f2]

/-- The eight working variables. -/
structure State where
  (a b c d e f g h : UInt32)

def initial : State :=
  ⟨0x6a09e667, 0xbb67ae85, 0x3c6ef372, 0xa54ff53a, 0x510e527f, 0x9b05688c, 0x1f83d9ab, 0x5be0cd19⟩

def round (s : State) (kw : UInt32 × UInt32) : State :=
  let t1 := s.h + bigSigma1 s.e + ch s.e s.f s.g + kw.1 + kw.2
  let t2 := bigSigma0 s.a + maj s.a s.b s.c
  ⟨t1 + t2, s.a, s.b, s.c, s.d + t1, s.e, s.f, s.g⟩

/-- The message schedule, as a sliding window of the last 16 words (oldest first). -/
def schedule : ℕ → List UInt32 → List UInt32
  | 0, w => w
  | n + 1, w =>
      let next := smallSigma1 (w.getD 14 0) + w.getD 9 0 + smallSigma0 (w.getD 1 0) + w.getD 0 0
      w.headD 0 :: schedule n (w.tail ++ [next])

def compress (s : State) (block : List UInt8) : State :=
  let r := (roundConstants.zip (schedule 48 (toWords block))).foldl round s
  ⟨s.a + r.a, s.b + r.b, s.c + r.c, s.d + r.d, s.e + r.e, s.f + r.f, s.g + r.g, s.h + r.h⟩

/-! ## Padding and the digest -/

def pad (msg : List UInt8) : List UInt8 :=
  msg ++ 0x80 :: List.replicate ((119 - msg.length % 64) % 64) 0 ++ beBytes 8 (8 * msg.length)

/-- The first `n` 64-byte blocks. -/
def blocks : ℕ → List UInt8 → List (List UInt8)
  | 0, _ => []
  | n + 1, m => m.take 64 :: blocks n (m.drop 64)

def digestBytes (s : State) : List UInt8 :=
  [s.a, s.b, s.c, s.d, s.e, s.f, s.g, s.h].flatMap fun w => beBytes 4 w.toNat

/-- The SHA-256 digest of a byte list. -/
def hash (msg : List UInt8) : Digest :=
  let p := pad msg
  ⟨(digestBytes ((blocks (p.length / 64) p).foldl compress initial)).toArray, by
    simp [digestBytes]⟩

set_option maxRecDepth 20000 in
/-- The one-block test vector of FIPS 180-4, `abc` (its first four bytes). -/
example : (hash [97, 98, 99]).toList.take 4 = [0xba, 0x78, 0x16, 0xbf] := by decide +kernel

end Sha256

/-! ## Hex -/

namespace Hex

/-- The lower-case hex digit of a nibble. -/
def digit (n : ℕ) : Char := "0123456789abcdef".toList.getD n '0'

/-- The value of a hex digit of either case. -/
def digitValue? (c : Char) : Option ℕ :=
  if '0' ≤ c ∧ c ≤ '9' then some (c.toNat - 48)
  else if 'a' ≤ c ∧ c ≤ 'f' then some (c.toNat - 87)
  else if 'A' ≤ c ∧ c ≤ 'F' then some (c.toNat - 55)
  else none

/-- Lower-case hex of a byte list, as characters. -/
def encodeBytes : List UInt8 → List Char
  | [] => []
  | b :: t => digit (b.toNat / 16) :: digit (b.toNat % 16) :: encodeBytes t

/-- Bytes of a hex text of even length. -/
def decodeBytes? : List Char → Option (List UInt8)
  | [] => some []
  | hi :: lo :: t => do
      let h ← digitValue? hi
      let l ← digitValue? lo
      let rest ← decodeBytes? t
      pure (UInt8.ofNat (16 * h + l) :: rest)
  | [_] => none

theorem digitValue?_digit {n : ℕ} (h : n < 16) : digitValue? (digit n) = some n := by
  revert n; decide

theorem decodeBytes?_encodeBytes (bs : List UInt8) :
    decodeBytes? (encodeBytes bs) = some bs := by
  induction bs with
  | nil => rfl
  | cons b t ih =>
      have hb : b.toNat < 256 := b.toNat_lt
      have hval : UInt8.ofNat (16 * (b.toNat / 16) + b.toNat % 16) = b := by
        rw [Nat.div_add_mod]; exact UInt8.ofNat_toNat
      simp only [encodeBytes, decodeBytes?, digitValue?_digit (show b.toNat / 16 < 16 by omega),
        digitValue?_digit (Nat.mod_lt b.toNat (show 0 < 16 by omega)), ih, hval,
        Option.bind_eq_bind, Option.bind_some, Option.pure_def]

end Hex

/-- Lower-case hex of a digest. -/
def hexEncode (d : Digest) : String := String.ofList (Hex.encodeBytes d.toList)

/-- The digest written by 64 hex digits; anything else is refused. -/
def hexDecode? (s : String) : Option Digest :=
  match Hex.decodeBytes? s.toList with
  | none => none
  | some bs => if h : bs.length = 32 then some ⟨bs.toArray, by simpa using h⟩ else none

@[simp] theorem hexDecode?_hexEncode (d : Digest) : hexDecode? (hexEncode d) = some d := by
  have hdec : Hex.decodeBytes? (hexEncode d).toList = some d.toList := by
    simp [hexEncode, Hex.decodeBytes?_encodeBytes]
  have hlen : d.toList.length = 32 := by simp
  unfold hexDecode?
  rw [hdec]
  simp only [hlen, dif_pos]
  congr 1

theorem hexEncode_injective : Function.Injective hexEncode := by
  intro a b h
  have := congrArg hexDecode? h
  simpa using this

/-! ## Collision freedom on the inputs of one computation

No function into 32 bytes is injective, so results that treat a hash as collision free assume it of
the finitely many inputs a computation hashes. -/

/-- `h` has no collision among `inputs`. -/
def CollisionFreeOn (h : List UInt8 → Digest) (inputs : List (List UInt8)) : Prop :=
  ∀ x ∈ inputs, ∀ y ∈ inputs, h x = h y → x = y

instance (h : List UInt8 → Digest) (inputs : List (List UInt8)) :
    Decidable (CollisionFreeOn h inputs) := by
  unfold CollisionFreeOn; infer_instance

theorem CollisionFreeOn.mono {h : List UInt8 → Digest} {small large : List (List UInt8)}
    (hcf : CollisionFreeOn h large) (hsub : ∀ x ∈ small, x ∈ large) : CollisionFreeOn h small :=
  fun x hx y hy => hcf x (hsub x hx) y (hsub y hy)
