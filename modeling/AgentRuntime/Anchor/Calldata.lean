import AgentRuntime.Anchor.Batch
import AgentRuntime.Lib.Acceptor

/-!
# `Anchor.Calldata` — calldata for `AnchorRegistry` (`agent-anchor/src/calldata.rs`)

A Solidity enum is `uint8` in the ABI signature and a left-padded 32-byte word in calldata. Nothing here
signs or sends.

`decodeAnchorCalldata_eq_ok` says that the strict decoder accepts what the encoder writes and nothing else.
`validate_eq_ok` says what a call is that crossed a process boundary and is shown for approval: its data is the
encoding of its kind and root. The target is checked for its form alone; nothing ties it to the data.
-/

namespace AgentRuntime.Anchor

/-- First four bytes of the keccak-256 of `anchor(uint8,bytes32)`. -/
def anchorSelector : List UInt8 := [0x9e, 0x62, 0x1f, 0x4c]

/-- Citrate mainnet / testnet chain id. -/
def citrateChainId : ℕ := 40204

/-- `AnchorRegistry.AnchorKind`, in declaration order. -/
inductive AnchorKind where
  | perCapsule
  | perApproval
  | nightlyMerkle
deriving DecidableEq, Repr

def AnchorKind.toByte : AnchorKind → UInt8
  | .perCapsule => 0
  | .perApproval => 1
  | .nightlyMerkle => 2

/-- `anchor(kind, root)` calldata: selector, the kind as a `uint8` word, the root. -/
def anchorCalldata (kind : AnchorKind) (root : Digest) : List UInt8 :=
  anchorSelector ++ (List.replicate 31 0 ++ [kind.toByte]) ++ root.toList

/-- An unsigned call for the core ceremony to review, sign with the anchor key, and send. -/
structure UnsignedAnchorCall where
  chainId : ℕ
  /-- `to`: the `AnchorRegistry` address, when the caller supplied one. -/
  toAddress : Option String
  /-- Always 0: anchoring moves no value. -/
  value : ℕ
  kind : AnchorKind
  /-- The anchored value (the day commitment). -/
  root : Digest
  data : List UInt8
deriving DecidableEq

def UnsignedAnchorCall.nightly (root : Digest) (toAddress : Option String) : UnsignedAnchorCall where
  chainId := citrateChainId
  toAddress := toAddress
  value := 0
  kind := .nightlyMerkle
  root := root
  data := anchorCalldata .nightlyMerkle root

/-- `u8::is_ascii_hexdigit`. -/
def isAsciiHexdigit (c : Char) : Bool :=
  c.isDigit || (decide ('a' ≤ c) && decide (c ≤ 'f')) || (decide ('A' ≤ c) && decide (c ≤ 'F'))

/-- A `0x`-prefixed 20-byte hex address (any letter case; no checksum check). -/
def checkAddress (s : String) : Except Error Unit :=
  let ok :=
    match s.toList.dropPrefix? "0x".toList with
    | none => false
    | some h => h.length == 40 && h.all isAsciiHexdigit
  if ok then .ok ()
  else .error (.badCalldata "registry address is not 0x followed by 40 hex digits")

/-! ## Decoding -/

def AnchorKind.fromU8 (v : UInt8) : Option AnchorKind :=
  if v = 0 then some .perCapsule
  else if v = 1 then some .perApproval
  else if v = 2 then some .nightlyMerkle
  else none

/-- The root, from the bytes after the kind. -/
def rootOf (bytes : List UInt8) : Digest := Vector.ofFn fun i => bytes.getD i 0

/-- Decode `anchor(kind, root)` calldata strictly: exact length, selector, a clean `uint8` word in enum range. -/
def decodeAnchorCalldata (data : List UInt8) : Except Error (AnchorKind × Digest) :=
  if data.length ≠ 68 then .error (.badCalldata ("expected 68 bytes, got " ++ toString data.length))
  else if data.take 4 ≠ anchorSelector then .error (.badCalldata "not an anchor(uint8,bytes32) call")
  else
    let word := (data.drop 4).take 32
    if (word.take 31).any fun b => b != 0 then .error (.badCalldata "kind is not a uint8 word")
    else
      match AnchorKind.fromU8 (word.getD 31 0) with
      | none => .error (.badCalldata ("unknown anchor kind " ++ toString (word.getD 31 0).toNat))
      | some kind => .ok (kind, rootOf (data.drop 36))

/-- The data says what the call says. -/
def checkDecoded (call : UnsignedAnchorCall) (decoded : AnchorKind × Digest) : Except Error Unit :=
  if decoded.1 ≠ call.kind ∨ decoded.2 ≠ call.root then
    .error (.badCalldata "data does not encode the call's kind and root")
  else .ok ()

/-- The target, when there is one, is an address. -/
def checkTarget : Option String → Except Error Unit
  | some to_ => checkAddress to_
  | none => .ok ()

/-- Check that the call is what it says it is, for a call that crossed a process boundary. -/
def UnsignedAnchorCall.validate (call : UnsignedAnchorCall) : Except Error Unit :=
  if call.chainId ≠ citrateChainId then
    .error (.badCalldata ("chain id " ++ toString call.chainId ++ " is not " ++ toString citrateChainId))
  else if call.value ≠ 0 then .error (.badCalldata "an anchor call moves no value")
  else do
    let decoded ← decodeAnchorCalldata call.data
    checkDecoded call decoded
    checkTarget call.toAddress

/-! ## The decoder accepts what the encoder writes -/

theorem AnchorKind.fromU8_eq_some {v : UInt8} {kind : AnchorKind} :
    AnchorKind.fromU8 v = some kind ↔ v = kind.toByte := by
  unfold AnchorKind.fromU8
  constructor
  · intro h
    split at h
    · cases h
      assumption
    · split at h
      · cases h
        assumption
      · split at h
        · cases h
          assumption
        · cases h
  · rintro rfl
    cases kind with
    | perCapsule => rfl
    | perApproval => rfl
    | nightlyMerkle => rfl

theorem rootOf_toList (root : Digest) : rootOf root.toList = root := by
  apply Vector.ext
  intro i hi
  have hlength : i < root.toList.length := by
    rw [Vector.length_toList]
    exact hi
  rw [rootOf, Vector.getElem_ofFn, List.getD_eq_getElem _ _ hlength, Vector.getElem_toList]

theorem toList_rootOf {bytes : List UInt8} (h : bytes.length = 32) : (rootOf bytes).toList = bytes := by
  apply List.ext_getElem
  · rw [Vector.length_toList, h]
  · intro i hi hi'
    simp only [rootOf, Vector.getElem_toList, Vector.getElem_ofFn]
    exact List.getD_eq_getElem bytes 0 hi'

theorem length_anchorCalldata (kind : AnchorKind) (root : Digest) : (anchorCalldata kind root).length = 68 := by
  simp [anchorCalldata, anchorSelector]

/-- A word whose first bytes are zeros is a number of one byte. -/
theorem word_of_zeros {word : List UInt8} (hlength : word.length = 32)
    (hzeros : ((word.take 31).any fun b => b != 0) = false) :
    word = List.replicate 31 0 ++ [word.getD 31 0] := by
  have htake : word.take 31 = List.replicate 31 0 := by
    refine List.eq_replicate_iff.mpr ⟨by rw [List.length_take, hlength]; rfl, ?_⟩
    intro b hb
    have hb := List.any_eq_false.mp hzeros b hb
    simpa using hb
  have hlast : word.drop 31 = [word.getD 31 0] := by
    have hlt : 31 < word.length := by omega
    rw [List.drop_eq_getElem_cons hlt, List.getD_eq_getElem _ _ hlt, List.drop_eq_nil_of_le (by omega)]
  rw [← htake, ← hlast, List.take_append_drop]

/-- **The strict decoder accepts the encoding of a kind and a root, and nothing else.** -/
theorem decodeAnchorCalldata_eq_ok {data : List UInt8} {kind : AnchorKind} {root : Digest} :
    decodeAnchorCalldata data = .ok (kind, root) ↔ data = anchorCalldata kind root := by
  constructor
  · intro h
    unfold decodeAnchorCalldata at h
    split at h
    · cases h
    · rename_i hlength
      have hlength : data.length = 68 := not_not.mp hlength
      split at h
      · cases h
      · rename_i hselector
        have hselector : data.take 4 = anchorSelector := not_not.mp hselector
        simp only at h
        split at h
        · cases h
        · rename_i hzeros
          split at h
          · cases h
          · rename_i found hkind
            cases h
            -- The data is its selector, its word and the rest.
            have hword := word_of_zeros (by rw [List.length_take, List.length_drop, hlength]; rfl)
              (eq_false_of_ne_true hzeros)
            rw [AnchorKind.fromU8_eq_some.mp hkind] at hword
            have hrest : (data.drop 4).drop 32 = data.drop 36 := by rw [List.drop_drop]
            calc data = data.take 4 ++ ((data.drop 4).take 32 ++ (data.drop 4).drop 32) := by
                  rw [List.take_append_drop, List.take_append_drop]
              _ = anchorCalldata kind (rootOf (data.drop 36)) := by
                  rw [hselector, hword, hrest, anchorCalldata,
                    toList_rootOf (by rw [List.length_drop, hlength]), List.append_assoc anchorSelector]
  · rintro rfl
    have hsplit : anchorCalldata kind root =
        anchorSelector ++ ((List.replicate 31 0 ++ [kind.toByte]) ++ root.toList) := by
      rw [anchorCalldata, List.append_assoc]
    have htake : (anchorCalldata kind root).take 4 = anchorSelector := by
      rw [hsplit]
      exact List.take_left' rfl
    have hdrop : (anchorCalldata kind root).drop 4 = (List.replicate 31 0 ++ [kind.toByte]) ++ root.toList := by
      rw [hsplit]
      exact List.drop_left' rfl
    have hword : ((anchorCalldata kind root).drop 4).take 32 = List.replicate 31 0 ++ [kind.toByte] := by
      rw [hdrop]
      exact List.take_left' rfl
    have hroot : (anchorCalldata kind root).drop 36 = root.toList := by
      have hskip : (anchorCalldata kind root).drop 36 = ((anchorCalldata kind root).drop 4).drop 32 := by
        rw [List.drop_drop]
      rw [hskip, hdrop]
      exact List.drop_left' rfl
    have hkind : AnchorKind.fromU8 ((List.replicate 31 0 ++ [kind.toByte]).getD 31 0) = some kind :=
      AnchorKind.fromU8_eq_some.mpr rfl
    have hzeros : (((List.replicate 31 0 ++ [kind.toByte]).take 31).any fun b => b != 0) = false := rfl
    unfold decodeAnchorCalldata
    rw [if_neg (not_not.mpr (length_anchorCalldata kind root)), if_neg (not_not.mpr htake)]
    simp only [hword, hzeros, hkind, hroot, rootOf_toList, Bool.false_eq_true, if_false]

/-! ## What an accepted call is -/

/-- A target that is there is an address. -/
def UnsignedAnchorCall.TargetOk (call : UnsignedAnchorCall) : Prop :=
  ∀ to_ ∈ call.toAddress, checkAddress to_ = .ok ()

theorem checkTarget_eq_ok {call : UnsignedAnchorCall} : checkTarget call.toAddress = .ok () ↔ call.TargetOk := by
  unfold UnsignedAnchorCall.TargetOk checkTarget
  cases call.toAddress with
  | none => exact ⟨fun _ to_ hto => (nomatch hto), fun _ => rfl⟩
  | some to_ =>
      constructor
      · intro h to' hto
        cases hto
        exact h
      · intro h
        exact h to_ rfl

theorem validate_eq_ok {call : UnsignedAnchorCall} :
    call.validate = .ok () ↔ call.chainId = citrateChainId ∧ call.value = 0 ∧
      call.data = anchorCalldata call.kind call.root ∧ call.TargetOk := by
  have hdecoded : ∀ decoded : AnchorKind × Digest,
      checkDecoded call decoded = .ok () ↔ decoded = (call.kind, call.root) := by
    rintro ⟨kind, root⟩
    unfold checkDecoded
    rw [Prod.mk.injEq]
    split
    · rename_i hdiffers
      constructor
      · intro h
        cases h
      · rintro ⟨hkind, hroot⟩
        rcases hdiffers with hne | hne
        · exact absurd hkind hne
        · exact absurd hroot hne
    · rename_i hsame
      exact ⟨fun _ => ⟨by_contra fun hne => hsame (.inl hne), by_contra fun hne => hsame (.inr hne)⟩, fun _ => rfl⟩
  unfold UnsignedAnchorCall.validate
  constructor
  · intro h
    split at h
    · cases h
    · rename_i hchain
      split at h
      · cases h
      · rename_i hvalue
        obtain ⟨decoded, hdecode, h⟩ := Except.bind_eq_ok.mp h
        obtain ⟨⟨⟩, hcheck, htarget⟩ := Except.bind_eq_ok.mp h
        rw [(hdecoded decoded).mp hcheck] at hdecode
        exact ⟨not_not.mp hchain, not_not.mp hvalue, decodeAnchorCalldata_eq_ok.mp hdecode,
          checkTarget_eq_ok.mp htarget⟩
  · rintro ⟨hchain, hvalue, hdata, htarget⟩
    rw [if_neg (not_not.mpr hchain), if_neg (not_not.mpr hvalue)]
    refine Except.bind_eq_ok.mpr ⟨(call.kind, call.root), decodeAnchorCalldata_eq_ok.mpr hdata, ?_⟩
    exact Except.bind_eq_ok.mpr ⟨(), (hdecoded _).mpr rfl, checkTarget_eq_ok.mpr htarget⟩

/-- **Anchor calls are recognized exactly.** The decoder is the inverse of the encoder; a call is accepted when its chain
    is the chain, it moves no value, its data is the encoding of its kind and root, and its target has the form of an
    address. Accepted calls with one data are one call but for the target. -/
theorem anchor_calls_recognized :
    (∀ (data : List UInt8) (kind : AnchorKind) (root : Digest),
      decodeAnchorCalldata data = .ok (kind, root) ↔ data = anchorCalldata kind root) ∧
    (∀ call : UnsignedAnchorCall, call.validate = .ok () ↔
      call.chainId = citrateChainId ∧ call.value = 0 ∧ call.data = anchorCalldata call.kind call.root ∧
        call.TargetOk) ∧
    ∀ call call' : UnsignedAnchorCall, call.validate = .ok () → call'.validate = .ok () → call.data = call'.data →
      { call with toAddress := none } = { call' with toAddress := none } := by
  refine ⟨fun data kind root => decodeAnchorCalldata_eq_ok, fun call => validate_eq_ok, ?_⟩
  intro call call' hcall hcall' hsame
  obtain ⟨hchain, hvalue, hdata, -⟩ := validate_eq_ok.mp hcall
  obtain ⟨hchain', hvalue', hdata', -⟩ := validate_eq_ok.mp hcall'
  have hdecoded := decodeAnchorCalldata_eq_ok.mpr hdata
  rw [hsame, decodeAnchorCalldata_eq_ok.mpr hdata'] at hdecoded
  obtain ⟨hkind, hroot⟩ := Prod.mk.inj (Except.ok.inj hdecoded)
  cases call
  cases call'
  simp only at hchain hvalue hchain' hvalue' hsame hkind hroot
  subst hchain hvalue hchain' hvalue' hsame hkind hroot
  rfl

/-- A nightly anchor decodes to its root, and two nightly anchors with one data differ in their target at most. -/
theorem anchor_calls_recognized_nightly :
    let root : Digest := Vector.replicate 32 5
    let first := UnsignedAnchorCall.nightly root none
    let second := UnsignedAnchorCall.nightly root (some "0x00000000000000000000000000000000000000Aa")
    decodeAnchorCalldata first.data = .ok (.nightlyMerkle, root) ∧
      { first with toAddress := none } = { second with toAddress := none } :=
  ⟨(anchor_calls_recognized.1 _ _ _).mpr rfl,
    anchor_calls_recognized.2.2 _ _ (by decide +kernel) (by decide +kernel) rfl⟩

/-- Two accepted calls with one data and two targets: which registry is called is not tied to anything. -/
theorem one_data_two_targets :
    let root : Digest := Vector.replicate 32 0
    let first := UnsignedAnchorCall.nightly root (some "0x0000000000000000000000000000000000000001")
    let second := UnsignedAnchorCall.nightly root (some "0x0000000000000000000000000000000000000002")
    first.validate = .ok () ∧ second.validate = .ok () ∧ first.data = second.data ∧
      first.toAddress ≠ second.toAddress := by
  decide +kernel

end AgentRuntime.Anchor
