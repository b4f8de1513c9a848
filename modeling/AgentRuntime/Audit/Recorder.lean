import AgentRuntime.Lib.Abi
import AgentRuntime.Lib.Sha256

/-!
# `Audit.Recorder` — calldata of the recorder (`agent/core/src/audit/recorder.rs`)

Two calls with texts or bytes of any length: the decision that goes into the registry, and a request for elevation. The
offsets of the heads are added up before the tails are pushed. A strict decoder gives the arguments back.
-/

namespace AgentRuntime.Audit.Recorder

open Abi Words Json

/-- Result of a tool approval; the contract stores it as a text. -/
inductive DecisionStatus where
  | approved
  | rejected
  | autoApproved
deriving DecidableEq, Repr

def DecisionStatus.asStr : DecisionStatus → String
  | .approved => "Approved"
  | .rejected => "Rejected"
  | .autoApproved => "AutoApproved"

/-- Parameters of an `AgentDecisionRegistryV2.record(...)` call. -/
structure DecisionParams where
  decisionId : Digest
  user : Digest
  tenant : Digest
  corrId : Digest
  /-- `class`: the `EventClass`. -/
  eventClass : UInt8
  description : String
  authMode : String
  artifactRoot : Digest
  status : DecisionStatus

def uint256FromU64 (n : ℕ) : List UInt8 := List.replicate 24 0 ++ beBytes 8 n

/-- Number of bytes a text of `len` bytes occupies after its length, padded up to the nearest 32-byte boundary. -/
def paddedLen (len : ℕ) : ℕ := if len = 0 then 0 else (len + 31) / 32 * 32

/-- Push a length-prefixed value, right-padded to 32. -/
def pushString (out s : List UInt8) : List UInt8 :=
  let padded := paddedLen s.length
  out ++ uint256FromU64 s.length ++ s ++ List.replicate (padded - s.length) 0

/-- Push a Solidity `bytes`. -/
def pushBytesDynamic (out data : List UInt8) : List UInt8 :=
  let out := out ++ uint256FromU64 data.length ++ data
  let pad := paddedLen data.length - data.length
  out ++ List.replicate pad 0

section

variable (keccak256 : List UInt8 → Digest)

/-- The first four bytes of the hash of a canonical signature. -/
def computeSelector (canonicalSig : String) : List UInt8 := (keccak256 (utf8 canonicalSig)).toList.take 4

def recordSelector : List UInt8 :=
  computeSelector keccak256 "record(bytes32,bytes32,bytes32,bytes32,uint8,string,string,bytes32,string)"

/-- `record(...)` calldata: a head of nine words, and three texts. -/
def encodeRecordDecision (params : DecisionParams) : List UInt8 :=
  let headLen := 9 * 32
  let descBytes := utf8 params.description
  let authBytes := utf8 params.authMode
  let statusBytes := utf8 params.status.asStr
  let descOffset := headLen
  let authOffset := descOffset + 32 + paddedLen descBytes.length
  let statusOffset := authOffset + 32 + paddedLen authBytes.length
  let out := recordSelector keccak256 ++ params.decisionId.toList ++ params.user.toList ++ params.tenant.toList ++
    params.corrId.toList ++ uint256FromU64 params.eventClass.toNat ++ uint256FromU64 descOffset ++
    uint256FromU64 authOffset ++ params.artifactRoot.toList ++ uint256FromU64 statusOffset
  pushString (pushString (pushString out descBytes) authBytes) statusBytes

def elevationSignature : String :=
  "requestElevation(bytes32,bytes32,bytes32,uint32,bytes32,bytes,string)"

/-- `requestElevation(...)` calldata: a head of seven words, a proof and a text. -/
def encodeRequestElevation (user tenant role : Digest) (durationSec : UInt32) (corrId : Digest)
    (reauthProof : List UInt8) (reauthProofKind : String) : List UInt8 :=
  let headLen := 7 * 32
  let proofOffset := headLen
  let kindOffset := proofOffset + 32 + paddedLen reauthProof.length
  let out := computeSelector keccak256 elevationSignature ++ user.toList ++ tenant.toList ++ role.toList ++
    uint256FromU64 durationSec.toNat ++ corrId.toList ++ uint256FromU64 proofOffset ++ uint256FromU64 kindOffset
  pushString (pushBytesDynamic out reauthProof) (utf8 reauthProofKind)

end

/-! ## Padding and lengths -/

theorem paddedLen_eq (len : ℕ) : paddedLen len = len + padding len := by
  unfold paddedLen padding
  split
  · rename_i hzero
    rw [hzero]
  · omega

theorem uint256FromU64_eq {n : ℕ} (h : n < u64Bound) : uint256FromU64 n = number n := (number_u64 h).symm

theorem length_encodeBytes (b : List UInt8) : (encodeBytes b).length = 32 + paddedLen b.length := by
  rw [encodeBytes, List.length_append, List.length_append, List.length_replicate, number, length_beBytes, paddedLen_eq]

/-- Both ways of pushing append what the contract calls a tail. -/
theorem pushString_eq (out : List UInt8) {s : List UInt8} (h : s.length < u64Bound) :
    pushString out s = out ++ encodeBytes s := by
  unfold pushString encodeBytes
  simp only [paddedLen_eq, Nat.add_sub_cancel_left, uint256FromU64_eq h, List.append_assoc]

theorem pushBytesDynamic_eq (out : List UInt8) {data : List UInt8} (h : data.length < u64Bound) :
    pushBytesDynamic out data = out ++ encodeBytes data := by
  unfold pushBytesDynamic encodeBytes
  simp only [paddedLen_eq, Nat.add_sub_cancel_left, uint256FromU64_eq h, List.append_assoc]

theorem length_pushString (out s : List UInt8) : (pushString out s).length = out.length + 32 + paddedLen s.length := by
  have hpad := paddedLen_eq s.length
  unfold pushString uint256FromU64
  simp only [List.length_append, List.length_replicate, length_beBytes]
  omega

theorem length_pushBytesDynamic (out data : List UInt8) :
    (pushBytesDynamic out data).length = out.length + 32 + paddedLen data.length := by
  have hpad := paddedLen_eq data.length
  unfold pushBytesDynamic uint256FromU64
  simp only [List.length_append, List.length_replicate, length_beBytes]
  omega

theorem length_computeSelector (keccak256 : List UInt8 → Digest) (sig : String) :
    (computeSelector keccak256 sig).length = 4 := by
  rw [computeSelector, List.length_take, Vector.length_toList]
  rfl

theorem le_paddedLen (len : ℕ) : len ≤ paddedLen len := by
  rw [paddedLen_eq]
  omega

/-! ## The contract's own layout -/

/-- The parameters of `record`. -/
def recordTypes : List Ty :=
  [.bytes32, .bytes32, .bytes32, .bytes32, .uint 8, .string, .string, .bytes32, .string]

def recordValues (params : DecisionParams) : List Abi.Value :=
  [.word params.decisionId.toList, .word params.user.toList, .word params.tenant.toList, .word params.corrId.toList,
    .uint params.eventClass.toNat, .text params.description, .text params.authMode,
    .word params.artifactRoot.toList, .text params.status.asStr]

/-- The parameters of `requestElevation`. -/
def elevationTypes : List Ty := [.bytes32, .bytes32, .bytes32, .uint 32, .bytes32, .bytes, .string]

section

variable {keccak256 : List UInt8 → Digest}

theorem encodeRecordDecision_lengths {params : DecisionParams}
    (h : (encodeRecordDecision keccak256 params).length ≤ isizeMax) :
    paddedLen (utf8 params.description).length + paddedLen (utf8 params.authMode).length +
      paddedLen (utf8 params.status.asStr).length + 388 < u64Bound := by
  unfold encodeRecordDecision at h
  simp only [length_pushString, List.length_append, recordSelector, length_computeSelector, Vector.length_toList,
    uint256FromU64, List.length_replicate, length_beBytes, isizeMax] at h
  unfold u64Bound
  omega

/-- **The calldata of a decision is the contract's own layout**, after the selector. -/
theorem encodeRecordDecision_eq {params : DecisionParams}
    (h : (encodeRecordDecision keccak256 params).length ≤ isizeMax) :
    encodeRecordDecision keccak256 params =
      recordSelector keccak256 ++ encode recordTypes (recordValues params) := by
  have hlengths := encodeRecordDecision_lengths h
  have hdescription := le_paddedLen (utf8 params.description).length
  have hauth := le_paddedLen (utf8 params.authMode).length
  have hstatus := le_paddedLen (utf8 params.status.asStr).length
  have hclass := params.eventClass.toNat_lt
  have hbound : u64Bound = 2 ^ 64 := by norm_num
  unfold encodeRecordDecision
  dsimp only
  rw [pushString_eq _ (by omega), pushString_eq _ (by omega), pushString_eq _ (by omega),
    uint256FromU64_eq (n := params.eventClass.toNat) (by omega), uint256FromU64_eq (n := 9 * 32) (by omega),
    uint256FromU64_eq (by omega), uint256FromU64_eq (by omega)]
  simp only [encode, recordTypes, recordValues, List.zipWith_cons_cons, List.zipWith_nil_left, slot, layout, heads,
    Abi.tails, length_encodeBytes, List.length_cons, List.length_nil, List.append_assoc, List.append_nil,
    Nat.add_assoc]

theorem recordValues_fit {params : DecisionParams}
    (h : (encodeRecordDecision keccak256 params).length ≤ isizeMax) :
    List.Forall₂ Fits recordTypes (recordValues params) := by
  have hlengths := encodeRecordDecision_lengths h
  have hclass := params.eventClass.toNat_lt
  have hbound : u64Bound < 2 ^ 256 := by norm_num
  have hword : ∀ w : Digest, Fits .bytes32 (.word w.toList) := fun w => Vector.length_toList
  have htext : ∀ s : String, paddedLen (utf8 s).length < u64Bound → Fits .string (.text s) := by
    intro s hs
    have hle := le_paddedLen (utf8 s).length
    show (utf8 s).length < 2 ^ 256
    omega
  have heventClass : Fits (.uint 8) (.uint params.eventClass.toNat) := by
    refine ⟨hclass, ?_⟩
    omega
  exact .cons (hword _) (.cons (hword _) (.cons (hword _) (.cons (hword _) (.cons heventClass
    (.cons (htext _ (by omega)) (.cons (htext _ (by omega)) (.cons (hword _) (.cons (htext _ (by omega)) .nil))))))))

section

variable {user tenant role corrId : Digest} {durationSec : UInt32} {reauthProof : List UInt8}
  {reauthProofKind : String}

theorem encodeRequestElevation_lengths
    (h : (encodeRequestElevation keccak256 user tenant role durationSec corrId reauthProof reauthProofKind).length ≤
      isizeMax) :
    paddedLen reauthProof.length + paddedLen (utf8 reauthProofKind).length + 292 < u64Bound := by
  unfold encodeRequestElevation at h
  simp only [length_pushString, length_pushBytesDynamic, List.length_append, length_computeSelector,
    Vector.length_toList, uint256FromU64, List.length_replicate, length_beBytes, isizeMax] at h
  unfold u64Bound
  omega

/-- **The calldata of a request is the contract's own layout**, after the selector. -/
theorem encodeRequestElevation_eq
    (h : (encodeRequestElevation keccak256 user tenant role durationSec corrId reauthProof reauthProofKind).length ≤
      isizeMax) :
    encodeRequestElevation keccak256 user tenant role durationSec corrId reauthProof reauthProofKind =
      computeSelector keccak256 elevationSignature ++ encode elevationTypes
        [.word user.toList, .word tenant.toList, .word role.toList, .uint durationSec.toNat, .word corrId.toList,
          .bytes reauthProof, .text reauthProofKind] := by
  have hlengths := encodeRequestElevation_lengths h
  have hproof := le_paddedLen reauthProof.length
  have hkind := le_paddedLen (utf8 reauthProofKind).length
  have hduration := durationSec.toNat_lt
  have hbound : u64Bound = 2 ^ 64 := by norm_num
  unfold encodeRequestElevation
  dsimp only
  rw [pushString_eq _ (by omega), pushBytesDynamic_eq _ (by omega),
    uint256FromU64_eq (n := durationSec.toNat) (by omega), uint256FromU64_eq (n := 7 * 32) (by omega),
    uint256FromU64_eq (by omega)]
  simp only [encode, elevationTypes, List.zipWith_cons_cons, List.zipWith_nil_left, slot, layout, heads, Abi.tails,
    length_encodeBytes, List.length_cons, List.length_nil, List.append_assoc, List.append_nil, Nat.add_assoc]

theorem elevationValues_fit
    (h : (encodeRequestElevation keccak256 user tenant role durationSec corrId reauthProof reauthProofKind).length ≤
      isizeMax) :
    List.Forall₂ Fits elevationTypes
      [.word user.toList, .word tenant.toList, .word role.toList, .uint durationSec.toNat, .word corrId.toList,
        .bytes reauthProof, .text reauthProofKind] := by
  have hlengths := encodeRequestElevation_lengths h
  have hproof := le_paddedLen reauthProof.length
  have hkind := le_paddedLen (utf8 reauthProofKind).length
  have hbound : u64Bound < 2 ^ 256 := by norm_num
  have hword : ∀ w : Digest, Fits .bytes32 (.word w.toList) := fun w => Vector.length_toList
  have hdurationSec : Fits (.uint 32) (.uint durationSec.toNat) := by
    refine ⟨durationSec.toNat_lt, ?_⟩
    have hlt := durationSec.toNat_lt
    omega
  have hbytes : Fits .bytes (.bytes reauthProof) := by
    show reauthProof.length < 2 ^ 256
    omega
  have htext : Fits .string (.text reauthProofKind) := by
    show (utf8 reauthProofKind).length < 2 ^ 256
    omega
  exact .cons (hword _) (.cons (hword _) (.cons (hword _) (.cons hdurationSec (.cons (hword _)
    (.cons hbytes (.cons htext .nil))))))

end

end

/-! ## What was encoded -/

/-- **The recorder's calldata round-trips**: after the selector, a strict decoder gives the arguments back. -/
theorem recorder_calldata_decodes (keccak256 : List UInt8 → Digest) :
    (∀ params : DecisionParams, (encodeRecordDecision keccak256 params).length ≤ isizeMax →
      (encodeRecordDecision keccak256 params).take 4 = recordSelector keccak256 ∧
        decode recordTypes ((encodeRecordDecision keccak256 params).drop 4) =
          some [.word params.decisionId.toList, .word params.user.toList, .word params.tenant.toList,
            .word params.corrId.toList, .uint params.eventClass.toNat, .text params.description,
            .text params.authMode, .word params.artifactRoot.toList, .text params.status.asStr]) ∧
      ∀ (user tenant role : Digest) (durationSec : UInt32) (corrId : Digest) (reauthProof : List UInt8)
        (reauthProofKind : String),
        let data := encodeRequestElevation keccak256 user tenant role durationSec corrId reauthProof reauthProofKind
        data.length ≤ isizeMax →
          data.take 4 = computeSelector keccak256 elevationSignature ∧
            decode elevationTypes (data.drop 4) =
              some [.word user.toList, .word tenant.toList, .word role.toList, .uint durationSec.toNat,
                .word corrId.toList, .bytes reauthProof, .text reauthProofKind] := by
  -- What follows a selector is short enough for its offsets.
  have hsmall : ∀ {selector rest : List UInt8}, (selector ++ rest).length ≤ isizeMax → rest.length < 2 ^ 256 := by
    intro selector rest h
    rw [List.length_append, isizeMax] at h
    omega
  constructor
  · intro params hsize
    have hlayout := encodeRecordDecision_eq hsize
    have hfit := recordValues_fit hsize
    rw [hlayout] at hsize
    rw [hlayout, recordSelector, List.take_left' (length_computeSelector ..),
      List.drop_left' (length_computeSelector ..)]
    exact ⟨rfl, decode_encode hfit (hsmall hsize)⟩
  · intro user tenant role durationSec corrId reauthProof reauthProofKind data hsize
    have hlayout : data = _ := encodeRequestElevation_eq hsize
    have hfit := elevationValues_fit hsize
    rw [hlayout] at hsize
    rw [hlayout, List.take_left' (length_computeSelector ..), List.drop_left' (length_computeSelector ..)]
    exact ⟨rfl, decode_encode hfit (hsmall hsize)⟩

namespace Small

def sevens : Digest := Vector.replicate 32 7

def params : DecisionParams where
  decisionId := sevens
  user := sevens
  tenant := sevens
  corrId := sevens
  eventClass := 9
  description := "write_file"
  authMode := ""
  artifactRoot := sevens
  status := .approved

/-- A decision with an empty text in the middle, and a request with a proof of a word and a byte. -/
theorem recorder_calldata_decodes_small :
    decode recordTypes ((encodeRecordDecision (fun _ => sevens) params).drop 4) =
        some [.word sevens.toList, .word sevens.toList, .word sevens.toList, .word sevens.toList, .uint 9,
          .text "write_file", .text "", .word sevens.toList, .text "Approved"] ∧
      decode elevationTypes ((encodeRequestElevation (fun _ => sevens) sevens sevens sevens 600 sevens
          (List.replicate 33 1) "totp").drop 4) =
        some [.word sevens.toList, .word sevens.toList, .word sevens.toList, .uint 600, .word sevens.toList,
          .bytes (List.replicate 33 1), .text "totp"] :=
  ⟨((recorder_calldata_decodes fun _ => sevens).1 params (by decide +kernel)).2,
    ((recorder_calldata_decodes fun _ => sevens).2 sevens sevens sevens 600 sevens (List.replicate 33 1) "totp"
      (by decide +kernel)).2⟩

end Small

end AgentRuntime.Audit.Recorder
