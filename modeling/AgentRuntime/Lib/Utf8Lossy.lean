import Mathlib
import AgentRuntime.Lib.Text

/-!
# `Lib.Utf8Lossy` — decoding bytes that may not be UTF-8

A byte list is read in pieces: a character, or a longest run of bytes that begins none, which a text shows as one
replacement character. The pieces hold every byte (`bytes_piecesOf`), so a text and the bytes its replacement
characters stand for determine the byte list (`eq_of_textOf_eq`). Reading cuts at an ASCII byte as the bytes do
(`piecesOf_append`), and so the lines of the text are the texts of the lines (`lines_textOf`).
-/

namespace Utf8

/-! ## One piece -/

/-- The character a byte list begins with. -/
def head? (bs : List UInt8) : Option Char := bs.toByteArray.utf8DecodeChar? 0

theorem head?_encode (c : Char) (rest : List UInt8) : head? (String.utf8EncodeChar c ++ rest) = some c := by
  unfold head?
  rw [List.toByteArray_append]
  exact ByteArray.utf8DecodeChar?_utf8EncodeChar_append

theorem head?_eq_some {bs : List UInt8} {c : Char} (h : head? bs = some c) :
    ∃ rest, bs = String.utf8EncodeChar c ++ rest := by
  obtain ⟨l, hl⟩ := ByteArray.exists_of_utf8DecodeChar?_eq_some h
  refine ⟨l.data.toList, ?_⟩
  rw [← List.toByteArray_inj, List.toByteArray_append, hl]
  congr 1
  apply ByteArray.ext
  simp

/-- A byte inside a character. -/
def isTail (b : UInt8) : Bool := 0x80 ≤ b && b ≤ 0xBF

/-- The first two bytes of a character of three. -/
def begins3 (b₀ b₁ : UInt8) : Bool :=
  (b₀ = 0xE0 && 0xA0 ≤ b₁ && b₁ ≤ 0xBF) || (0xE1 ≤ b₀ && b₀ ≤ 0xEC && isTail b₁) ||
    (b₀ = 0xED && 0x80 ≤ b₁ && b₁ ≤ 0x9F) || (0xEE ≤ b₀ && b₀ ≤ 0xEF && isTail b₁)

/-- The first two bytes of a character of four. -/
def begins4 (b₀ b₁ : UInt8) : Bool :=
  (b₀ = 0xF0 && 0x90 ≤ b₁ && b₁ ≤ 0xBF) || (0xF1 ≤ b₀ && b₀ ≤ 0xF3 && isTail b₁) ||
    (b₀ = 0xF4 && 0x80 ≤ b₁ && b₁ ≤ 0x8F)

/-- How many bytes one replacement character stands for, where no character begins. -/
def brokenLength : List UInt8 → ℕ
  | b₀ :: b₁ :: rest =>
      if begins3 b₀ b₁ then 2
      else if begins4 b₀ b₁ then
        match rest with
        | b₂ :: _ => if isTail b₂ then 3 else 2
        | [] => 2
      else 1
  | _ => 1

inductive Piece where
  | char (c : Char)
  | broken (bytes : List UInt8)
deriving DecidableEq

namespace Piece

def bytes : Piece → List UInt8
  | char c => String.utf8EncodeChar c
  | broken bs => bs

/-- The character that stands for it. -/
def toChar : Piece → Char
  | char c => c
  | broken _ => Char.ofNat 0xFFFD

/-- The bytes a replacement character stands for. -/
def lost : Piece → Option (List UInt8)
  | char _ => none
  | broken bs => some bs

theorem eq_of_toChar_lost {p q : Piece} (hchar : p.toChar = q.toChar) (hlost : p.lost = q.lost) : p = q := by
  cases p with
  | char c =>
      cases q with
      | char d => exact congrArg char hchar
      | broken bs => cases hlost
  | broken bs =>
      cases q with
      | char d => cases hlost
      | broken bs' =>
          cases hlost
          rfl

end Piece

/-- The first piece, and what follows it. -/
def next (bs : List UInt8) : Piece × List UInt8 :=
  match head? bs with
  | some c => (.char c, bs.drop c.utf8Size)
  | none => (.broken (bs.take (brokenLength bs)), bs.drop (brokenLength bs))

theorem bytes_next (bs : List UInt8) : (next bs).1.bytes ++ (next bs).2 = bs := by
  unfold next
  cases h : head? bs with
  | some c =>
      obtain ⟨rest, rfl⟩ := head?_eq_some h
      show String.utf8EncodeChar c ++ List.drop c.utf8Size (String.utf8EncodeChar c ++ rest) = _
      rw [List.drop_left' (String.length_utf8EncodeChar c)]
  | none => exact List.take_append_drop _ _

theorem brokenLength_pos (bs : List UInt8) : 0 < brokenLength bs := by
  unfold brokenLength
  split
  · split
    · omega
    · split
      · split
        · split <;> omega
        · omega
      · omega
  · omega

theorem next_length_lt {bs : List UInt8} (h : bs ≠ []) : (next bs).2.length < bs.length := by
  have hpos : 0 < bs.length := List.length_pos_iff.mpr h
  unfold next
  cases head? bs with
  | some c =>
      show (bs.drop c.utf8Size).length < _
      rw [List.length_drop]
      have hsize := c.utf8Size_pos
      omega
  | none =>
      show (bs.drop (brokenLength bs)).length < _
      rw [List.length_drop]
      have hlength := brokenLength_pos bs
      omega

/-! ## All pieces -/

/-- At most `n` pieces. -/
def pieces : ℕ → List UInt8 → List Piece
  | 0, _ => []
  | _ + 1, [] => []
  | n + 1, b :: bs => (next (b :: bs)).1 :: pieces n (next (b :: bs)).2

def piecesOf (bs : List UInt8) : List Piece := pieces bs.length bs

/-- There are no more pieces than bytes. -/
theorem pieces_of_le {bs : List UInt8} {n : ℕ} (h : bs.length ≤ n) : pieces n bs = piecesOf bs := by
  have hsame : ∀ m n, ∀ bs : List UInt8, bs.length ≤ m → bs.length ≤ n → pieces m bs = pieces n bs := by
    intro m
    induction m with
    | zero =>
        intro n bs hm hn
        have hnil : bs = [] := List.length_eq_zero_iff.mp (Nat.le_zero.mp hm)
        subst hnil
        cases n <;> rfl
    | succ m ih =>
        intro n bs hm hn
        cases bs with
        | nil => cases n <;> rfl
        | cons b bs =>
            cases n with
            | zero => simp at hn
            | succ n =>
                have hlt := next_length_lt (List.cons_ne_nil b bs)
                unfold pieces
                rw [ih n _ (by omega) (by omega)]
  exact hsame n bs.length bs h le_rfl

@[simp] theorem piecesOf_nil : piecesOf [] = [] := rfl

theorem piecesOf_eq {bs : List UInt8} (h : bs ≠ []) : piecesOf bs = (next bs).1 :: piecesOf (next bs).2 := by
  cases bs with
  | nil => exact absurd rfl h
  | cons b bs =>
      have hlt := next_length_lt h
      show (next (b :: bs)).1 :: pieces bs.length (next (b :: bs)).2 = _
      rw [pieces_of_le (by simpa using Nat.le_of_lt_succ hlt)]

/-- Every byte is in a piece. -/
theorem bytes_piecesOf (bs : List UInt8) : (piecesOf bs).flatMap Piece.bytes = bs := by
  induction hn : bs.length using Nat.strong_induction_on generalizing bs with
  | _ n ih =>
      by_cases h : bs = []
      · subst h
        rfl
      · rw [piecesOf_eq h, List.flatMap_cons, ih _ (hn ▸ next_length_lt h) _ rfl, bytes_next]

/-! ## Texts -/

/-- The text shown for a byte list. -/
def textOf (bs : List UInt8) : List Char := (piecesOf bs).map Piece.toChar

/-- For each character of the text, the bytes it replaces when it replaces any. -/
def lostIn (bs : List UInt8) : List (Option (List UInt8)) := (piecesOf bs).map Piece.lost

def fromUtf8Lossy (bs : List UInt8) : String := String.ofList (textOf bs)

/-- **A text and what it lost determine the bytes.** -/
theorem eq_of_textOf_eq {bs bs' : List UInt8} (htext : textOf bs = textOf bs') (hlost : lostIn bs = lostIn bs') :
    bs = bs' := by
  have hpieces : ∀ ps qs : List Piece, ps.map Piece.toChar = qs.map Piece.toChar →
      ps.map Piece.lost = qs.map Piece.lost → ps = qs := by
    intro ps
    induction ps with
    | nil =>
        intro qs hchar _
        exact (List.map_eq_nil_iff.mp hchar.symm).symm
    | cons p ps ih =>
        intro qs hchar hlost
        cases qs with
        | nil => cases hchar
        | cons q qs =>
            obtain ⟨hp, hps⟩ := List.cons.inj hchar
            obtain ⟨hp', hps'⟩ := List.cons.inj hlost
            rw [Piece.eq_of_toChar_lost hp hp', ih qs hps hps']
  rw [← bytes_piecesOf bs, ← bytes_piecesOf bs', hpieces _ _ htext hlost]

/-! ## Encoded texts -/

/-- The bytes of a text. -/
def encode (cs : List Char) : List UInt8 := cs.flatMap String.utf8EncodeChar

@[simp] theorem encode_nil : encode [] = [] := rfl

@[simp] theorem encode_cons (c : Char) (cs : List Char) : encode (c :: cs) = String.utf8EncodeChar c ++ encode cs :=
  List.flatMap_cons

@[simp] theorem encode_append (cs ds : List Char) : encode (cs ++ ds) = encode cs ++ encode ds :=
  List.flatMap_append

/-- The bytes of a text are read back as the text. -/
theorem textOf_encode (cs : List Char) : textOf (encode cs) = cs := by
  induction cs with
  | nil => rfl
  | cons c cs ih =>
      have hnext : next (String.utf8EncodeChar c ++ encode cs) = (.char c, encode cs) := by
        unfold next
        rw [head?_encode]
        simp only
        rw [List.drop_left' (String.length_utf8EncodeChar c)]
      unfold textOf at ih ⊢
      rw [encode_cons, piecesOf_eq (by simp), hnext, List.map_cons, ih]
      rfl

/-- A byte inside a character, by its two upper bits. -/
def isContinuation (b : UInt8) : Bool := b &&& 0xC0 == 0x80

/-- How many bytes a character has, by its first. -/
def sizeOfFirst (b : UInt8) : ℕ := if 0xF0 ≤ b then 4 else if 0xE0 ≤ b then 3 else if 0xC0 ≤ b then 2 else 1

theorem isContinuation_tail (b : UInt8) : isContinuation (b &&& 0x3f ||| 0x80) = true := by
  have hall : ∀ n : Fin 256, isContinuation (UInt8.ofFin n &&& 0x3f ||| 0x80) = true := by decide +kernel
  exact hall b.toFin

/-- The first byte tells the size, and the others are continuation bytes. -/
theorem exists_first (c : Char) :
    ∃ first conts, String.utf8EncodeChar c = first :: conts ∧ isContinuation first = false ∧
      sizeOfFirst first = c.utf8Size ∧ ∀ b ∈ conts, isContinuation b = true := by
  have hone : ∀ n : Fin 256, n.val < 128 →
      isContinuation (UInt8.ofFin n) = false ∧ sizeOfFirst (UInt8.ofFin n) = 1 := by decide +kernel
  have htwo : ∀ n : Fin 256, isContinuation (UInt8.ofFin n &&& 0x1f ||| 0xc0) = false ∧
      sizeOfFirst (UInt8.ofFin n &&& 0x1f ||| 0xc0) = 2 := by decide +kernel
  have hthree : ∀ n : Fin 256, isContinuation (UInt8.ofFin n &&& 0x0f ||| 0xe0) = false ∧
      sizeOfFirst (UInt8.ofFin n &&& 0x0f ||| 0xe0) = 3 := by decide +kernel
  have hfour : ∀ n : Fin 256, isContinuation (UInt8.ofFin n &&& 0x07 ||| 0xf0) = false ∧
      sizeOfFirst (UInt8.ofFin n &&& 0x07 ||| 0xf0) = 4 := by decide +kernel
  obtain hsize | hsize | hsize | hsize := c.utf8Size_eq
  · have hlow : c.val ≤ 0x7f := Char.utf8Size_eq_one_iff.mp hsize
    have hbyte : c.val.toUInt8.toFin.val < 128 := by
      have hnat : c.val.toNat ≤ 127 := hlow
      show c.val.toNat % 256 < 128
      omega
    refine ⟨_, [], String.utf8EncodeChar_eq_singleton hsize, (hone _ hbyte).1, ?_, by simp⟩
    rw [hsize]
    exact (hone _ hbyte).2
  · refine ⟨_, _, String.utf8EncodeChar_eq_cons_cons hsize, (htwo _).1, ?_, by simp [isContinuation_tail]⟩
    rw [hsize]
    exact (htwo _).2
  · refine ⟨_, _, String.utf8EncodeChar_eq_cons_cons_cons hsize, (hthree _).1, ?_, by simp [isContinuation_tail]⟩
    rw [hsize]
    exact (hthree _).2
  · refine ⟨_, _, String.utf8EncodeChar_eq_cons_cons_cons_cons hsize, (hfour _).1, ?_, by simp [isContinuation_tail]⟩
    rw [hsize]
    exact (hfour _).2

/-- The bytes of a text up to some byte: whole characters, and a part of the next. -/
theorem take_encode (n : ℕ) (cs : List Char) :
    ∃ before cut, (encode cs).take n = encode before ++ cut ∧ before <+: cs ∧
      (cut = [] ∨ ∃ c, cut ≠ [] ∧ cut <+: String.utf8EncodeChar c ∧ cut.length < c.utf8Size) := by
  induction cs generalizing n with
  | nil => exact ⟨[], [], by simp, List.prefix_refl [], .inl rfl⟩
  | cons c cs ih =>
      rcases lt_or_ge n c.utf8Size with hlt | hge
      · refine ⟨[], (String.utf8EncodeChar c).take n, ?_, List.nil_prefix, ?_⟩
        · rw [encode_cons, List.take_append_of_le_length (by rw [String.length_utf8EncodeChar]; exact hlt.le)]
          rfl
        · rcases Nat.eq_zero_or_pos n with rfl | hpos
          · exact .inl rfl
          · refine .inr ⟨c, ?_, List.take_prefix _ _, ?_⟩
            · rw [← List.length_pos_iff, List.length_take, String.length_utf8EncodeChar]
              omega
            · rw [List.length_take, String.length_utf8EncodeChar]
              omega
      · obtain ⟨before, cut, htake, hbefore, hcut⟩ := ih (n - c.utf8Size)
        refine ⟨c :: before, cut, ?_, List.cons_prefix_cons.mpr ⟨rfl, hbefore⟩, hcut⟩
        rw [encode_cons, encode_cons, List.take_append, String.length_utf8EncodeChar, htake, List.append_assoc,
          List.take_of_length_le (by rw [String.length_utf8EncodeChar]; exact hge)]

/-- The bytes of a text from some byte on: the rest of a character, and whole characters. -/
theorem drop_encode (n : ℕ) (cs : List Char) :
    ∃ cut after, (encode cs).drop n = cut ++ encode after ∧ after <:+ cs ∧ cut.length ≤ 3 ∧
      ∀ b ∈ cut, isContinuation b = true := by
  induction cs generalizing n with
  | nil => exact ⟨[], [], by simp, List.suffix_refl [], by simp, by simp⟩
  | cons c cs ih =>
      rcases Nat.eq_zero_or_pos n with rfl | hpos
      · exact ⟨[], c :: cs, rfl, List.suffix_refl _, by simp, by simp⟩
      · rcases lt_or_ge n c.utf8Size with hlt | hge
        · have hfour := c.utf8Size_le_four
          obtain ⟨first, conts, hencode, -, -, hconts⟩ := exists_first c
          refine ⟨(String.utf8EncodeChar c).drop n, cs, ?_, List.suffix_cons c cs, ?_, ?_⟩
          · rw [encode_cons, List.drop_append_of_le_length (by rw [String.length_utf8EncodeChar]; exact hlt.le)]
          · rw [List.length_drop, String.length_utf8EncodeChar]
            omega
          · intro b hb
            obtain ⟨k, rfl⟩ := Nat.exists_eq_succ_of_ne_zero hpos.ne'
            rw [hencode, List.drop_succ_cons] at hb
            exact hconts b (List.mem_of_mem_drop hb)
        · obtain ⟨cut, after, hdrop, hafter, hshort, hcut⟩ := ih (n - c.utf8Size)
          refine ⟨cut, after, ?_, hafter.trans (List.suffix_cons c cs), hshort, hcut⟩
          rw [encode_cons, List.drop_append, String.length_utf8EncodeChar, hdrop,
            List.drop_of_length_le (by rw [String.length_utf8EncodeChar]; exact hge)]
          rfl

/-! ## Cutting at an ASCII byte -/

/-- The byte `a` is the character `c`. -/
structure Ascii (a : UInt8) (c : Char) : Prop where
  encodes : String.utf8EncodeChar c = [a]
  low : a < 0x80

theorem Ascii.not_tail {a : UInt8} {c : Char} (h : Ascii a c) : isTail a = false := by
  unfold isTail
  simp [UInt8.not_le.mpr h.low]

theorem Ascii.not_begins {a : UInt8} {c : Char} (h : Ascii a c) (b : UInt8) :
    begins3 b a = false ∧ begins4 b a = false := by
  have hlow : ∀ bound : UInt8, 0x80 ≤ bound → ¬ bound ≤ a := by
    intro bound hbound hle
    exact UInt8.not_le.mpr h.low (UInt8.le_trans hbound hle)
  constructor
  · unfold begins3
    simp [h.not_tail, hlow 0xA0 (by decide), hlow 0x80 (by decide)]
  · unfold begins4
    simp [h.not_tail, hlow 0x90 (by decide), hlow 0x80 (by decide)]

theorem next_ascii {a : UInt8} {c : Char} (h : Ascii a c) (rest : List UInt8) :
    next (a :: rest) = (.char c, rest) := by
  have hhead : head? (a :: rest) = some c := by
    have hencode := head?_encode c rest
    rw [h.encodes] at hencode
    exact hencode
  have hsize : c.utf8Size = 1 := by
    rw [← String.length_utf8EncodeChar, h.encodes]
    rfl
  unfold next
  rw [hhead]
  simp [hsize]

theorem brokenLength_append {a : UInt8} {c : Char} (h : Ascii a c) {bs : List UInt8} (hbs : bs ≠ [])
    (rest : List UInt8) : brokenLength (bs ++ a :: rest) = brokenLength bs ∧ brokenLength bs ≤ bs.length := by
  match bs, hbs with
  | [b], _ => simp [brokenLength, h.not_begins b]
  | [b₀, b₁], _ =>
      simp only [brokenLength, List.cons_append, List.nil_append, h.not_tail, List.length_cons, List.length_nil]
      constructor
      · rfl
      · split
        · omega
        · split <;> omega
  | b₀ :: b₁ :: b₂ :: bs, _ =>
      simp only [brokenLength, List.cons_append, List.length_cons]
      refine ⟨trivial, ?_⟩
      split
      · omega
      · split
        · split <;> omega
        · omega

/-- A piece that begins before an ASCII byte ends before it. -/
theorem next_append {a : UInt8} {c : Char} (h : Ascii a c) {bs : List UInt8} (hbs : bs ≠ []) (rest : List UInt8) :
    next (bs ++ a :: rest) = ((next bs).1, (next bs).2 ++ a :: rest) := by
  cases hhead : head? bs with
  | some d =>
      obtain ⟨tail, rfl⟩ := head?_eq_some hhead
      have hhead' : head? (String.utf8EncodeChar d ++ tail ++ a :: rest) = some d := by
        rw [List.append_assoc]
        exact head?_encode d _
      unfold next
      rw [hhead, hhead']
      simp only
      rw [List.append_assoc, List.drop_left' (String.length_utf8EncodeChar d),
        List.drop_left' (String.length_utf8EncodeChar d)]
  | none =>
      have hhead' : head? (bs ++ a :: rest) = none := by
        cases hsome : head? (bs ++ a :: rest) with
        | none => rfl
        | some d =>
            obtain ⟨tail, htail⟩ := head?_eq_some hsome
            rcases List.append_eq_append_iff.mp htail with ⟨q, hq, hrest⟩ | ⟨q, rfl, -⟩
            · cases q with
              | nil =>
                  rw [List.append_nil] at hq
                  rw [← List.append_nil bs, ← hq, head?_encode] at hhead
                  cases hhead
              | cons x q =>
                  -- The ASCII byte would stand inside the character.
                  obtain ⟨rfl, -⟩ := List.cons.inj hrest
                  have hlt : bs.length < (String.utf8EncodeChar d).length := by
                    rw [hq, List.length_append]
                    simp
                  have hbyte : (String.utf8EncodeChar d)[bs.length] = a := by
                    simp [hq]
                  have hfirst : (String.utf8EncodeChar d)[bs.length].IsUTF8FirstByte := by
                    rw [hbyte]
                    have hpos : 0 < (String.utf8EncodeChar c).length := by
                      simp [h.encodes]
                    have hown : (String.utf8EncodeChar c)[0] = a := by
                      simp [h.encodes]
                    rw [← hown]
                    exact UInt8.isUTF8FirstByte_getElem_utf8EncodeChar.mpr rfl
                  have hzero := UInt8.isUTF8FirstByte_getElem_utf8EncodeChar.mp hfirst
                  exact absurd (List.length_eq_zero_iff.mp hzero) hbs
            · rw [head?_encode] at hhead
              cases hhead
      obtain ⟨hlength, hle⟩ := brokenLength_append h hbs rest
      unfold next
      rw [hhead, hhead']
      simp only
      rw [hlength, List.take_append_of_le_length hle, List.drop_append_of_le_length hle]

/-- **Cutting.** Behind an ASCII byte the reading starts afresh. -/
theorem piecesOf_append {a : UInt8} {c : Char} (h : Ascii a c) (bs rest : List UInt8) :
    piecesOf (bs ++ a :: rest) = piecesOf bs ++ .char c :: piecesOf rest := by
  induction hn : bs.length using Nat.strong_induction_on generalizing bs with
  | _ n ih =>
      by_cases hbs : bs = []
      · subst hbs
        rw [List.nil_append, piecesOf_eq (List.cons_ne_nil _ _), next_ascii h]
        rfl
      · rw [piecesOf_eq (by simp), next_append h hbs, piecesOf_eq hbs, ih _ (hn ▸ next_length_lt hbs) _ rfl]
        rfl

theorem textOf_append {a : UInt8} {c : Char} (h : Ascii a c) (bs rest : List UInt8) :
    textOf (bs ++ a :: rest) = textOf bs ++ c :: textOf rest := by
  unfold textOf
  rw [piecesOf_append h, List.map_append, List.map_cons]
  rfl

/-! ## Lines -/

theorem ascii_feed : Ascii 10 '\n' := ⟨by decide, by decide⟩

theorem ascii_ret : Ascii 13 '\r' := ⟨by decide, by decide⟩

/-- A character of one byte is read where the byte stands. -/
theorem mem_of_mem_textOf {a : UInt8} {c : Char} (h : Ascii a c) (hc : c ≠ Char.ofNat 0xFFFD) {bs : List UInt8}
    (hmem : c ∈ textOf bs) : a ∈ bs := by
  obtain ⟨p, hp, hchar⟩ := List.mem_map.mp hmem
  rw [← bytes_piecesOf bs]
  apply List.mem_flatMap.mpr
  refine ⟨p, hp, ?_⟩
  cases p with
  | char d =>
      have hd : d = c := hchar
      show a ∈ String.utf8EncodeChar d
      rw [hd, h.encodes]
      exact List.mem_singleton_self a
  | broken lost => exact absurd hchar.symm hc

theorem textOf_eq_nil {bs : List UInt8} : textOf bs = [] ↔ bs = [] := by
  constructor
  · intro h
    rw [← bytes_piecesOf bs, List.map_eq_nil_iff.mp h]
    rfl
  · rintro rfl
    rfl

theorem splitOn_textOf (bs : List UInt8) : (textOf bs).splitOn '\n' = (bs.splitOn 10).map textOf := by
  induction hn : bs.length using Nat.strong_induction_on generalizing bs with
  | _ n ih =>
      by_cases hmem : 10 ∈ bs
      · obtain ⟨before, after, rfl⟩ := List.append_of_mem hmem
        rw [List.length_append, List.length_cons] at hn
        rw [textOf_append ascii_feed, List.splitOn_append_cons_self, List.splitOn_append_cons_self, List.map_append,
          ih _ (by omega) before rfl, ih _ (by omega) after rfl]
      · rw [List.splitOn_eq_singleton hmem, List.splitOn_eq_singleton]
        · rfl
        · intro hchar
          exact hmem (mem_of_mem_textOf ascii_feed (by decide) hchar)

/-- A line ends with a carriage return when its text does. -/
theorem textOf_dropRet (bs : List UInt8) :
    (if (textOf bs).getLast? = some '\r' then (textOf bs).dropLast else textOf bs) =
      textOf (if bs.getLast? = some 13 then bs.dropLast else bs) := by
  rcases List.eq_nil_or_concat bs with rfl | ⟨front, b, rfl⟩
  · rfl
  · rw [List.concat_eq_append]
    by_cases hb : b = 13
    · subst hb
      have htext : textOf (front ++ [13]) = textOf front ++ ['\r'] := textOf_append ascii_ret front []
      simp [htext]
    · have hnot : (front ++ [b]).getLast? ≠ some 13 := by simpa using hb
      rw [if_neg hnot, if_neg]
      intro hlast
      obtain ⟨chars, hchars⟩ := List.getLast?_eq_some_iff.mp hlast
      obtain ⟨ps, qs, hpieces, -, hqs⟩ := List.map_eq_append_iff.mp hchars
      obtain ⟨p, hp, hret⟩ := List.map_eq_singleton_iff.mp hqs
      -- The last piece is the carriage return, and so the last byte is.
      have hbytes := bytes_piecesOf (front ++ [b])
      rw [hpieces, hp, List.flatMap_append, List.flatMap_singleton] at hbytes
      cases p with
      | char d =>
          have hd : d = '\r' := hret
          have hone : (Piece.char d).bytes = [13] := by
            rw [hd]
            exact ascii_ret.encodes
          rw [hone] at hbytes
          obtain ⟨-, hsame⟩ := List.append_inj' hbytes rfl
          cases hsame
          exact hb rfl
      | broken lost =>
          have hother : Char.ofNat 0xFFFD ≠ '\r' := by decide
          exact hother hret

/-- The lines of a byte list. -/
def byteLines (bs : List UInt8) : List (List UInt8) := Text.linesBy 10 13 bs

/-- **Lines.** The lines of the text are the texts of the lines. -/
theorem lines_textOf (bs : List UInt8) : Text.lines (textOf bs) = (byteLines bs).map textOf := by
  rw [Text.lines_eq_linesBy]
  unfold byteLines Text.linesBy
  simp only [splitOn_textOf]
  rw [List.map_append, ← List.map_dropLast, List.map_map, List.map_map, List.getLast?_map]
  congr 1
  · apply List.map_congr_left
    intro line _
    exact textOf_dropRet line
  · cases (bs.splitOn 10).getLast? with
    | none => rfl
    | some line =>
        by_cases hline : line = []
        · subst hline
          rfl
        · have htext : textOf line ≠ [] := fun h => hline (textOf_eq_nil.mp h)
          simp [Option.filter, hline, htext]

end Utf8
