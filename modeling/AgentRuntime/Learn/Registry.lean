import AgentRuntime.Lib.Abi
import AgentRuntime.Lib.Sha256

/-!
# `Learn.Registry` — SkillRegistry calldata (`agent-learn/src/registry.rs`)

The call a member signs to publish a skill, and the id the contract will assign. Head offsets, the nested offsets of the
tags and the padding are computed by hand; `encodeRegisterSkill_eq` says that this is the contract's own layout. Keccak
is a parameter.

An allocation holds at most `isize::MAX` bytes, so what was encoded is not longer than that.
-/

namespace AgentRuntime.Learn

open Abi Words Json

/-- The canonical signature of the registry write this module encodes. -/
def registerSkillSignature : String := "registerSkill(string,string,string,string,string[])"

/-- `word_usize`: the number fills the last eight bytes. -/
def wordUsize (n : ℕ) : List UInt8 := List.replicate 24 0 ++ beBytes 8 n

/-- ABI tail of a dynamic `string`: length word, then the bytes right-padded to 32. -/
def encodeString (s : String) : List UInt8 :=
  let b := utf8 s
  wordUsize b.length ++ b ++ List.replicate ((32 - b.length % 32) % 32) 0

/-- One offset for each tail, the first of which is at `offset`. -/
def offsets : ℕ → List (List UInt8) → List UInt8
  | _, [] => []
  | offset, t :: rest => wordUsize offset ++ offsets (offset + t.length) rest

/-- ABI tail of a `string[]`: length word, one offset per element (relative to the first offset word), then each
    element's string tail. -/
def encodeStringArray (items : List String) : List UInt8 :=
  let tails := items.map encodeString
  wordUsize items.length ++ offsets (32 * items.length) tails ++ tails.flatten

section

variable (keccak256 : List UInt8 → Digest)

/-- The 4-byte function selector. -/
def registerSkillSelector : List UInt8 := (keccak256 (utf8 registerSkillSignature)).toList.take 4

/-- Calldata for `registerSkill(name, version, manifestCID, description, tags)`. -/
def encodeRegisterSkill (name version manifestCid description : String) (tags : List String) : List UInt8 :=
  let tails := [encodeString name, encodeString version, encodeString manifestCid, encodeString description,
    encodeStringArray tags]
  registerSkillSelector keccak256 ++ offsets (32 * tails.length) tails ++ tails.flatten

/-- What the contract hashes: the owner, the offsets of the two texts, and the texts. -/
def skillHashPreimage (owner : Vector UInt8 20) (name version : String) : List UInt8 :=
  let nameTail := encodeString name
  let versionTail := encodeString version
  let ownerWord := List.replicate 12 0 ++ owner.toList
  let headLen := 32 * 3
  ownerWord ++ wordUsize headLen ++ wordUsize (headLen + nameTail.length) ++ nameTail ++ versionTail

/-- The id the contract assigns. -/
def skillHash (owner : Vector UInt8 20) (name version : String) : Digest :=
  keccak256 (skillHashPreimage owner name version)

end

/-! ## The contract's own layout -/

/-- The parameters of `registerSkill`. -/
def registerSkillTypes : List Ty := [.string, .string, .string, .string, .array .string]

/-- `abi.encode(owner, name, version)`. -/
def skillHashTypes : List Ty := [.address, .string, .string]

theorem wordUsize_eq {n : ℕ} (h : n < u64Bound) : wordUsize n = number n := (number_u64 h).symm

theorem length_wordUsize (n : ℕ) : (wordUsize n).length = 32 := by
  rw [wordUsize, List.length_append, List.length_replicate, length_beBytes]

theorem encodeString_eq {s : String} (h : (utf8 s).length < u64Bound) : encodeString s = encodeBytes (utf8 s) := by
  show wordUsize _ ++ utf8 s ++ _ = _
  rw [wordUsize_eq h, List.append_assoc]
  rfl

/-- A text is within its tail. -/
theorem length_le_encodeString (s : String) : (utf8 s).length ≤ (encodeString s).length := by
  show _ ≤ (wordUsize _ ++ utf8 s ++ _).length
  rw [List.length_append, List.length_append]
  omega

/-- The running offsets and the tails are a layout in which every value has a tail. -/
theorem offsets_eq {pos : ℕ} {ts : List (List UInt8)} (h : pos + ts.flatten.length < u64Bound) :
    offsets pos ts = heads pos (ts.map .tail) := by
  induction ts generalizing pos with
  | nil => rfl
  | cons t rest ih =>
      rw [List.flatten_cons, List.length_append] at h
      rw [offsets, List.map_cons, heads, wordUsize_eq (by omega), ih (by omega)]

theorem flatten_eq (ts : List (List UInt8)) : ts.flatten = Abi.tails (ts.map .tail) := by
  induction ts with
  | nil => rfl
  | cons t rest ih => rw [List.flatten_cons, List.map_cons, Abi.tails, ih]

/-- One word for each offset. -/
theorem length_offsets (pos : ℕ) (ts : List (List UInt8)) : (offsets pos ts).length = 32 * ts.length := by
  induction ts generalizing pos with
  | nil => rfl
  | cons t rest ih =>
      rw [offsets, List.length_append, length_wordUsize, ih, List.length_cons]
      ring

theorem layout_tails (ts : List (List UInt8)) (h : 32 * ts.length + ts.flatten.length < u64Bound) :
    offsets (32 * ts.length) ts ++ ts.flatten = layout (ts.map .tail) := by
  rw [layout, List.length_map, offsets_eq h, flatten_eq]

/-- What is part of a list of tails is not longer than it. -/
theorem length_le_flatten {t : List UInt8} {ts : List (List UInt8)} (h : t ∈ ts) : t.length ≤ ts.flatten.length :=
  (List.sublist_flatten_of_mem h).length_le

theorem encodeStringArray_eq (items : List String) (h : (encodeStringArray items).length < u64Bound) :
    Slot.tail (encodeStringArray items) = slot (.array .string) (.array (items.map .text)) := by
  have hsize : (wordUsize items.length ++ offsets (32 * items.length) (items.map encodeString) ++
      (items.map encodeString).flatten).length < u64Bound := h
  rw [List.length_append, List.length_append, length_offsets, length_wordUsize, List.length_map] at hsize
  have hlayout := layout_tails (items.map encodeString) (by rw [List.length_map]; omega)
  rw [List.length_map] at hlayout
  have hitems : (items.map encodeString).map Slot.tail = (items.map Value.text).map (slot .string) := by
    rw [List.map_map, List.map_map]
    refine List.map_congr_left fun s hs => ?_
    have hle := length_le_flatten (List.mem_map_of_mem (f := encodeString) hs)
    have htext := length_le_encodeString s
    show Slot.tail (encodeString s) = Slot.tail (encodeBytes (utf8 s))
    rw [encodeString_eq (by omega)]
  show Slot.tail (wordUsize items.length ++ offsets (32 * items.length) (items.map encodeString) ++
    (items.map encodeString).flatten) = Slot.tail (number _ ++ layout _)
  rw [List.append_assoc, hlayout, hitems, wordUsize_eq (by omega), List.length_map]

/-- What the values of a `registerSkill` call are. -/
def registerSkillValues (name version manifestCid description : String) (tags : List String) : List Abi.Value :=
  [.text name, .text version, .text manifestCid, .text description, .array (tags.map .text)]

section

variable {keccak256 : List UInt8 → Digest} {name version manifestCid description : String} {tags : List String}

theorem length_registerSkillSelector : (registerSkillSelector keccak256).length = 4 := by
  rw [registerSkillSelector, List.length_take, Vector.length_toList]
  rfl

/-- What the sum of the tails allows each of them. -/
theorem encodeRegisterSkill_lengths
    (h : (encodeRegisterSkill keccak256 name version manifestCid description tags).length ≤ isizeMax) :
    (encodeString name).length + (encodeString version).length + (encodeString manifestCid).length +
      (encodeString description).length + (encodeStringArray tags).length + 164 < u64Bound := by
  have hsize : (registerSkillSelector keccak256 ++ offsets (32 * 5) [encodeString name, encodeString version,
      encodeString manifestCid, encodeString description, encodeStringArray tags] ++
      [encodeString name, encodeString version, encodeString manifestCid, encodeString description,
        encodeStringArray tags].flatten).length ≤ isizeMax := h
  rw [List.length_append, List.length_append, length_offsets, length_registerSkillSelector] at hsize
  simp only [List.flatten_cons, List.flatten_nil, List.length_append, List.length_cons, List.length_nil] at hsize
  unfold isizeMax at hsize
  unfold u64Bound
  omega

/-- **The calldata is the contract's own layout**, after the selector. -/
theorem encodeRegisterSkill_eq
    (h : (encodeRegisterSkill keccak256 name version manifestCid description tags).length ≤ isizeMax) :
    encodeRegisterSkill keccak256 name version manifestCid description tags =
      registerSkillSelector keccak256 ++
        encode registerSkillTypes (registerSkillValues name version manifestCid description tags) := by
  have hlengths := encodeRegisterSkill_lengths h
  have htext : ∀ s : String, (encodeString s).length < u64Bound →
      Slot.tail (encodeString s) = slot .string (.text s) := by
    intro s hs
    have hle := length_le_encodeString s
    rw [encodeString_eq (by omega)]
    rfl
  have hlayout := layout_tails [encodeString name, encodeString version, encodeString manifestCid,
    encodeString description, encodeStringArray tags] (by
      simp only [List.flatten_cons, List.flatten_nil, List.length_append, List.length_cons, List.length_nil]
      omega)
  show registerSkillSelector keccak256 ++ offsets (32 * [encodeString name, encodeString version,
    encodeString manifestCid, encodeString description, encodeStringArray tags].length) _ ++ List.flatten _ = _
  rw [List.append_assoc, hlayout]
  simp only [List.map_cons, List.map_nil]
  rw [htext name (by omega), htext version (by omega), htext manifestCid (by omega), htext description (by omega),
    encodeStringArray_eq tags (by omega)]
  rfl

theorem registerSkillValues_fit
    (h : (encodeRegisterSkill keccak256 name version manifestCid description tags).length ≤ isizeMax) :
    List.Forall₂ Fits registerSkillTypes (registerSkillValues name version manifestCid description tags) := by
  have hlengths := encodeRegisterSkill_lengths h
  have hbound : u64Bound < 2 ^ 256 := by norm_num
  have htext : ∀ s : String, (encodeString s).length < u64Bound → Fits .string (.text s) := by
    intro s hs
    have hle := length_le_encodeString s
    show (utf8 s).length < 2 ^ 256
    omega
  have htags : Fits (.array .string) (.array (tags.map .text)) := by
    have hslot := encodeStringArray_eq tags (by omega)
    have hlayout : (encodeStringArray tags).length =
        (number (tags.map Value.text).length ++ layout ((tags.map Value.text).map (slot .string))).length :=
      congrArg List.length (Slot.tail.inj hslot)
    have hcount : (encodeStringArray tags).length =
        32 + 32 * tags.length + (tags.map encodeString).flatten.length := by
      show (wordUsize tags.length ++ offsets (32 * tags.length) (tags.map encodeString) ++
        (tags.map encodeString).flatten).length = _
      rw [List.length_append, List.length_append, length_offsets, length_wordUsize, List.length_map]
    rw [List.length_append] at hlayout
    refine ⟨?_, by omega, ?_⟩
    · rw [List.length_map]
      omega
    · intro v hv
      obtain ⟨s, hs, rfl⟩ := List.mem_map.mp hv
      have hle := length_le_flatten (List.mem_map_of_mem (f := encodeString) hs)
      exact htext s (by omega)
  exact .cons (htext name (by omega)) (.cons (htext version (by omega)) (.cons (htext manifestCid (by omega))
    (.cons (htext description (by omega)) (.cons htags .nil))))

end

/-- What the contract hashes for an id is its own layout as well. -/
theorem skillHashPreimage_eq {owner : Vector UInt8 20} {name version : String}
    (h : (skillHashPreimage owner name version).length ≤ isizeMax) :
    skillHashPreimage owner name version =
        encode skillHashTypes [.address owner.toList, .text name, .text version] ∧
      List.Forall₂ Fits skillHashTypes [.address owner.toList, .text name, .text version] := by
  have hsize : (List.replicate 12 0 ++ owner.toList ++ wordUsize (32 * 3) ++
      wordUsize (32 * 3 + (encodeString name).length) ++ encodeString name ++ encodeString version).length ≤
        isizeMax := h
  simp only [List.length_append, length_wordUsize] at hsize
  unfold isizeMax at hsize
  have hbound : u64Bound = 2 ^ 64 := by norm_num
  have hname := length_le_encodeString name
  have hversion := length_le_encodeString version
  constructor
  · show List.replicate 12 0 ++ owner.toList ++ wordUsize (32 * 3) ++ wordUsize (32 * 3 + (encodeString name).length) ++
      encodeString name ++ encodeString version = _
    rw [wordUsize_eq (by omega), wordUsize_eq (by omega), encodeString_eq (s := name) (by omega),
      encodeString_eq (s := version) (by omega)]
    simp [encode, skillHashTypes, slot, layout, heads, Abi.tails]
  · refine .cons (Vector.length_toList ..) (.cons ?_ (.cons ?_ .nil))
    · show (utf8 name).length < 2 ^ 256
      omega
    · show (utf8 version).length < 2 ^ 256
      omega

/-! ## What was encoded -/

/-- **The calldata decodes to what was approved**: after the selector, a strict decoder gives back the values. And what
    an id is the hash of says its owner, name and version. -/
theorem register_skill_decodes (keccak256 : List UInt8 → Digest) (name version manifestCid description : String)
    (tags : List String)
    (hsize : (encodeRegisterSkill keccak256 name version manifestCid description tags).length ≤ isizeMax) :
    (encodeRegisterSkill keccak256 name version manifestCid description tags).take 4 =
        registerSkillSelector keccak256 ∧
      decode registerSkillTypes ((encodeRegisterSkill keccak256 name version manifestCid description tags).drop 4) =
        some [.text name, .text version, .text manifestCid, .text description, .array (tags.map .text)] ∧
      ∀ (owner owner' : Vector UInt8 20) (name name' version version' : String),
        (skillHashPreimage owner name version).length ≤ isizeMax →
        (skillHashPreimage owner' name' version').length ≤ isizeMax →
        skillHashPreimage owner name version = skillHashPreimage owner' name' version' →
          owner = owner' ∧ name = name' ∧ version = version' := by
  refine ⟨?_, ?_, ?_⟩
  · rw [encodeRegisterSkill_eq hsize, List.take_left' length_registerSkillSelector]
  · have hlength : (encode registerSkillTypes
        (registerSkillValues name version manifestCid description tags)).length < 2 ^ 256 := by
      rw [encodeRegisterSkill_eq hsize, List.length_append] at hsize
      unfold isizeMax at hsize
      omega
    have hdecode := decode_encode (registerSkillValues_fit hsize) hlength
    rw [encodeRegisterSkill_eq hsize, List.drop_left' length_registerSkillSelector]
    exact hdecode
  · intro owner owner' name name' version version' hsize hsize' heq
    have hread : ∀ {owner : Vector UInt8 20} {name version : String},
        (skillHashPreimage owner name version).length ≤ isizeMax →
        decode skillHashTypes (skillHashPreimage owner name version) =
          some [.address owner.toList, .text name, .text version] := by
      intro owner name version hsize
      obtain ⟨hlayout, hfit⟩ := skillHashPreimage_eq hsize
      rw [hlayout] at hsize ⊢
      unfold isizeMax at hsize
      exact decode_encode hfit (by omega)
    have hsame := (hread hsize).symm.trans (heq ▸ hread hsize')
    simp only [Option.some.injEq, List.cons.injEq, Value.address.injEq, Value.text.injEq, and_true] at hsame
    exact ⟨Vector.toList_inj.mp hsame.1, hsame.2⟩

/-- A skill without a pinned manifest, with two tags. -/
theorem register_skill_decodes_two_tags :
    decode registerSkillTypes ((encodeRegisterSkill (fun _ => Vector.replicate 32 7) "lint" "1.0.0" "" "Lint it."
        ["rust", "sha256:00"]).drop 4) =
      some [.text "lint", .text "1.0.0", .text "", .text "Lint it.", .array [.text "rust", .text "sha256:00"]] :=
  (register_skill_decodes (fun _ => Vector.replicate 32 7) "lint" "1.0.0" "" "Lint it." ["rust", "sha256:00"]
    (by decide +kernel)).2.1

end AgentRuntime.Learn
