import AgentRuntime.Lib.Json
import AgentRuntime.Lib.Words

/-!
# `Lib.Cbor` — deterministic CBOR, as bytes

The items a CBOR writer is made of, every argument in the fewest bytes and every length definite: integers
(`uint`, `int`), texts (`text`), byte strings (`bytes`), counted sequences (`array`) and `null`. Each is
self-delimiting, so a map or an array of a fixed shape, written field by field, determines its fields.
-/

namespace Cbor

open PrefixCode Words Json

/-- An argument: a 64-bit number. -/
abbrev Arg : Type := {n : ℕ // n < u64Bound}

/-- The additional information of a head: the argument itself, or how many bytes it takes. -/
def info (n : ℕ) : ℕ :=
  if n < 24 then n
  else if n < 2 ^ 8 then 24
  else if n < 2 ^ 16 then 25
  else if n < 2 ^ 32 then 26
  else 27

/-- The bytes that follow a head with this additional information. -/
def width (info : ℕ) : ℕ :=
  if info < 24 then 0
  else if info = 24 then 1
  else if info = 25 then 2
  else if info = 26 then 4
  else 8

/-- The head of an item of this major type. -/
def head (major n : ℕ) : List UInt8 := UInt8.ofNat (32 * major + info n) :: beBytes (width (info n)) n

theorem info_lt (n : ℕ) : info n < 28 := by
  unfold info
  split_ifs <;> omega

/-- An argument is written in the head, or fits the bytes after it. -/
theorem info_eq_or_lt {n : ℕ} (h : n < u64Bound) :
    (info n < 24 ∧ info n = n) ∨ (24 ≤ info n ∧ n < 256 ^ width (info n)) := by
  have hsmall : n < 24 → info n = n := fun hn => if_pos hn
  by_cases hn : n < 24
  · rw [hsmall hn]
    exact .inl ⟨hn, rfl⟩
  · refine .inr ?_
    unfold info
    split_ifs <;> exact ⟨by omega, by norm_num [width]; omega⟩

/-- **A head** tells its major type and its argument, and where it ends. -/
theorem head_cut {major major' : ℕ} (hm : major < 8) (hm' : major' < 8) {n n' : ℕ} (hn : n < u64Bound)
    (hn' : n' < u64Bound) {r s : List UInt8} (h : head major n ++ r = head major' n' ++ s) :
    major = major' ∧ n = n' ∧ r = s := by
  obtain ⟨hlead, hrest⟩ := List.cons.inj h
  have hinfo := info_lt n
  have hinfo' := info_lt n'
  have hsum : 32 * major + info n = 32 * major' + info n' := by
    have := congrArg UInt8.toNat hlead
    rw [UInt8.toNat_ofNat', UInt8.toNat_ofNat'] at this
    rwa [Nat.mod_eq_of_lt (by omega), Nat.mod_eq_of_lt (by omega)] at this
  have heq : info n = info n' := by omega
  obtain ⟨hbytes, hrs⟩ := List.append_inj hrest (by rw [length_beBytes, length_beBytes, heq])
  refine ⟨by omega, ?_, hrs⟩
  rcases info_eq_or_lt hn with ⟨hsmall, hval⟩ | ⟨hlarge, hfits⟩
  · rcases info_eq_or_lt hn' with ⟨-, hval'⟩ | ⟨hlarge', -⟩
    · omega
    · omega
  · rcases info_eq_or_lt hn' with ⟨hsmall', -⟩ | ⟨-, hfits'⟩
    · omega
    · rw [heq] at hbytes hfits
      exact beBytes_inj hfits hfits' hbytes

/-! ## Items -/

/-- An unsigned integer. -/
def uint (n : Arg) : List UInt8 := head 0 n.1

theorem prefixFree_uint : PrefixFree uint := by
  intro a b r s h
  obtain ⟨-, hab, hrs⟩ := head_cut (by omega) (by omega) a.2 b.2 h
  exact ⟨Subtype.ext hab, hrs⟩

/-- A signed 64-bit integer: below zero, `-1 - n`. -/
def int (z : Int64) : List UInt8 :=
  if 0 ≤ z.toInt then head 0 z.toInt.toNat else head 1 (-1 - z.toInt).toNat

theorem prefixFree_int : PrefixFree int := by
  intro a b r s h
  have hle := Int64.le_toInt a
  have hlt := Int64.toInt_lt a
  have hle' := Int64.le_toInt b
  have hlt' := Int64.toInt_lt b
  have hcut : a.toInt = b.toInt ∧ r = s := by
    unfold int at h
    split_ifs at h
    · obtain ⟨-, hab, hrs⟩ := head_cut (by omega) (by omega) (by unfold u64Bound; omega) (by unfold u64Bound; omega) h
      exact ⟨by omega, hrs⟩
    · obtain ⟨hmajor, -⟩ := head_cut (by omega) (by omega) (by unfold u64Bound; omega) (by unfold u64Bound; omega) h
      cases hmajor
    · obtain ⟨hmajor, -⟩ := head_cut (by omega) (by omega) (by unfold u64Bound; omega) (by unfold u64Bound; omega) h
      cases hmajor
    · obtain ⟨-, hab, hrs⟩ := head_cut (by omega) (by omega) (by unfold u64Bound; omega) (by unfold u64Bound; omega) h
      exact ⟨by omega, hrs⟩
  exact ⟨Int64.toInt_inj.mp hcut.1, hcut.2⟩

/-- A text of less than `2^64` bytes. -/
abbrev Text : Type := {s : String // (utf8 s).length < u64Bound}

/-- A text. -/
def text (s : String) : List UInt8 := head 3 (utf8 s).length ++ utf8 s

theorem prefixFree_text : PrefixFree (fun s : Text => text s.1) := by
  intro a b r s h
  unfold text at h
  rw [List.append_assoc, List.append_assoc] at h
  obtain ⟨-, hlen, hrest⟩ := head_cut (by omega) (by omega) a.2 b.2 h
  obtain ⟨hab, hrs⟩ := List.append_inj hrest hlen
  exact ⟨Subtype.ext (utf8_injective hab), hrs⟩

/-- A byte string. -/
def bytes (bs : List UInt8) : List UInt8 := head 2 bs.length ++ bs

/-- `null`. -/
def null : List UInt8 := [0xF6]

/-- A list of less than `2^64` items. -/
abbrev Many (α : Type) : Type := {as : List α // as.length < u64Bound}

/-- An array: how many items, then each. -/
def array {α : Type} (item : α → List UInt8) (as : List α) : List UInt8 := head 4 as.length ++ as.flatMap item

/-- The head of a map of `n` entries. -/
def map (n : ℕ) : List UInt8 := head 5 n

/-- As many items as expected, one after the other, can be told apart. -/
theorem flatMap_cut {α : Type} {item : α → List UInt8} (hitem : PrefixFree item) {as bs : List α}
    (hlen : as.length = bs.length) {r s : List UInt8} (h : as.flatMap item ++ r = bs.flatMap item ++ s) :
    as = bs ∧ r = s := by
  induction as generalizing bs with
  | nil =>
      cases bs with
      | nil => exact ⟨rfl, h⟩
      | cons b bs => cases hlen
  | cons a as ih =>
      cases bs with
      | nil => cases hlen
      | cons b bs =>
          rw [List.flatMap_cons, List.flatMap_cons, List.append_assoc, List.append_assoc] at h
          obtain ⟨rfl, hrest⟩ := hitem _ _ _ _ h
          obtain ⟨rfl, hrs⟩ := ih (Nat.succ.inj hlen) hrest
          exact ⟨rfl, hrs⟩

theorem prefixFree_array {α : Type} {item : α → List UInt8} (hitem : PrefixFree item) :
    PrefixFree (fun as : Many α => array item as.1) := by
  intro a b r s h
  unfold array at h
  rw [List.append_assoc, List.append_assoc] at h
  obtain ⟨-, hlen, hrest⟩ := head_cut (by omega) (by omega) a.2 b.2 h
  obtain ⟨hab, hrs⟩ := flatMap_cut hitem hlen hrest
  exact ⟨Subtype.ext hab, hrs⟩

/-- A byte, as an integer. -/
def byte (b : UInt8) : List UInt8 := head 0 b.toNat

theorem prefixFree_byte : PrefixFree byte := by
  intro a b r s h
  have ha := a.toNat_lt
  have hb := b.toNat_lt
  obtain ⟨-, hab, hrs⟩ := head_cut (by omega) (by omega) (by unfold u64Bound; omega) (by unfold u64Bound; omega) h
  exact ⟨UInt8.toNat_inj.mp hab, hrs⟩

end Cbor
