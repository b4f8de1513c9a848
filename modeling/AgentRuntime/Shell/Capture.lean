import AgentRuntime.Lib.Utf8Lossy

/-!
# `Shell.Capture` — what is kept of a program's output (`agent-shell/src/lib.rs`)

The first half of the cap is kept from the start of the stream and the second half from its end. The reader gets the
stream in chunks; what it keeps is a function of the stream alone (`readAll_eq`), and a character that the cap cuts is left
out, not shown as a replacement character.
-/

namespace AgentRuntime.Shell

open Utf8

/-! ## The reader -/

@[ext] structure CaptureState where
  head : List UInt8
  tail : List UInt8
  total : ℕ

def CaptureState.default : CaptureState where
  head := []
  tail := []
  total := 0

/-- What one `read` of the pipe returns; no bytes are the end of the stream. -/
inductive ReadResult where
  | bytes (chunk : List UInt8)
  | interrupted
  | failed

/-- `cap.div_ceil(2)`. -/
def headCap (cap : ℕ) : ℕ := (cap + 1) / 2

def tailCap (cap : ℕ) : ℕ := cap - headCap cap

/-- One chunk is kept: what the head has room for, and the rest in the tail. -/
def CaptureState.keep (cap : ℕ) (s : CaptureState) (chunk : List UInt8) : CaptureState :=
  let room := headCap cap - s.head.length
  let take := min room chunk.length
  { head := s.head ++ chunk.take take
    tail :=
      if 0 < tailCap cap then
        let tail := s.tail ++ chunk.drop take
        tail.drop (tail.length - tailCap cap)
      else s.tail
    total := s.total + chunk.length }

/-- The loop of the reader thread. -/
def readAll (cap : ℕ) : List ReadResult → CaptureState → CaptureState
  | [], s => s
  | .bytes chunk :: reads, s => if chunk.isEmpty then s else readAll cap reads (s.keep cap chunk)
  | .interrupted :: reads, s => readAll cap reads s
  | .failed :: _, s => s

/-! ## Rendering -/

/-- `start` goes back over at most three continuation bytes. -/
def stepBack (bytes : List UInt8) : ℕ → ℕ
  | 0 => 0
  | start + 1 =>
      if bytes.length - (start + 1) < 3 ∧ isContinuation (bytes.getD start 0) = true then stepBack bytes start
      else start + 1

/-- How much of a capped start is whole characters. -/
def keptPrefix (bytes : List UInt8) : ℕ :=
  let stop := bytes.length
  let start := stepBack bytes stop
  if 0 < start then
    let need := sizeOfFirst (bytes.getD (start - 1) 0)
    if 1 < need ∧ stop - (start - 1) < need then start - 1 else stop
  else stop

/-- A character cut in half by the cap is dropped. -/
def lossyPrefix (bytes : List UInt8) : String := fromUtf8Lossy (bytes.take (keptPrefix bytes))

/-- The continuation bytes of a character cut in half are dropped. -/
def lossySuffix (bytes : List UInt8) : String :=
  fromUtf8Lossy (bytes.drop ((bytes.take 3).takeWhile isContinuation).length)

structure Captured where
  text : String
  total : ℕ
  truncated : Bool
  reachedEof : Bool

/-- What is shown of a stream that did not fit. -/
def truncatedText (head tail : List UInt8) (omitted : ℕ) : String :=
  let t := lossyPrefix head ++ "\n[truncated: " ++ toString omitted ++ " bytes omitted]"
  if tail.isEmpty then t else t ++ "\n" ++ lossySuffix tail

/-- `Capture::finish`: what was kept is rendered; the caller knows whether the end was reached in time. -/
def CaptureState.finish (s : CaptureState) (reachedEof : Bool) : Captured :=
  let kept := s.head.length + s.tail.length
  let truncated := decide (kept < s.total)
  { text := if truncated then truncatedText s.head s.tail (s.total - kept) else fromUtf8Lossy (s.head ++ s.tail)
    total := s.total
    truncated
    reachedEof }

/-! ## Chunks -/

/-- The last `n` of a list. -/
def lastOf {α : Type} (n : ℕ) (l : List α) : List α := l.drop (l.length - n)

theorem lastOf_append {α : Type} (n : ℕ) (l m : List α) : lastOf n (lastOf n l ++ m) = lastOf n (l ++ m) := by
  unfold lastOf
  rcases le_total l.length n with hle | hge
  · rw [Nat.sub_eq_zero_of_le hle, List.drop_zero]
  · -- what the first cut drops, the second would have dropped
    have hlength : (l.drop (l.length - n) ++ m).length = n + m.length := by
      rw [List.length_append, List.length_drop]
      omega
    have hdrop : l.drop (l.length - n) ++ m = (l ++ m).drop (l.length - n) :=
      (List.drop_append_of_le_length (Nat.sub_le _ _)).symm
    rw [hlength, hdrop, List.drop_drop, List.length_append]
    congr 1
    omega

/-- The state that a stream leaves, however it arrives. -/
def stateOf (cap : ℕ) (stream : List UInt8) : CaptureState where
  head := stream.take (headCap cap)
  tail := lastOf (tailCap cap) (stream.drop (headCap cap))
  total := stream.length

theorem keep_stateOf (cap : ℕ) (stream chunk : List UInt8) :
    (stateOf cap stream).keep cap chunk = stateOf cap (stream ++ chunk) := by
  have hroom : headCap cap - (stream.take (headCap cap)).length = headCap cap - stream.length := by
    rw [List.length_take]
    omega
  have htake : chunk.take (min (headCap cap - stream.length) chunk.length) =
      chunk.take (headCap cap - stream.length) := by
    rw [← List.take_take, List.take_length]
  have hdrop : chunk.drop (min (headCap cap - stream.length) chunk.length) =
      chunk.drop (headCap cap - stream.length) := by
    rcases le_total (headCap cap - stream.length) chunk.length with hle | hge
    · rw [min_eq_left hle]
    · rw [min_eq_right hge, List.drop_length, List.drop_of_length_le hge]
  apply CaptureState.ext
  · show stream.take (headCap cap) ++ chunk.take (min (headCap cap - (stream.take (headCap cap)).length) chunk.length) =
      (stream ++ chunk).take (headCap cap)
    rw [hroom, htake, List.take_append]
  · show (if 0 < tailCap cap then lastOf (tailCap cap) (lastOf (tailCap cap) (stream.drop (headCap cap)) ++
        chunk.drop (min (headCap cap - (stream.take (headCap cap)).length) chunk.length))
      else lastOf (tailCap cap) (stream.drop (headCap cap))) = lastOf (tailCap cap) ((stream ++ chunk).drop (headCap cap))
    rw [hroom, hdrop, List.drop_append]
    split
    · exact lastOf_append _ _ _
    · rename_i hzero
      have hnone : tailCap cap = 0 := Nat.eq_zero_of_not_pos hzero
      unfold lastOf
      rw [hnone, Nat.sub_zero, Nat.sub_zero, List.drop_length, List.drop_length]
  · exact List.length_append.symm

/-- The reads hand over the stream and then its end; a read may be interrupted and tried again. -/
inductive Delivers : List ReadResult → List UInt8 → Prop where
  | eof {reads : List ReadResult} : Delivers (.bytes [] :: reads) []
  | chunk {reads : List ReadResult} {chunk stream : List UInt8} :
      chunk ≠ [] → Delivers reads stream → Delivers (.bytes chunk :: reads) (chunk ++ stream)
  | interrupted {reads : List ReadResult} {stream : List UInt8} :
      Delivers reads stream → Delivers (.interrupted :: reads) stream

/-- **Chunks do not matter.** -/
theorem readAll_stateOf {cap : ℕ} {reads : List ReadResult} {stream : List UInt8} (h : Delivers reads stream)
    (before : List UInt8) : readAll cap reads (stateOf cap before) = stateOf cap (before ++ stream) := by
  induction h generalizing before with
  | eof =>
      rw [List.append_nil]
      rfl
  | chunk hne _ ih =>
      unfold readAll
      rw [if_neg (by simpa using hne), keep_stateOf, ih, List.append_assoc]
  | interrupted _ ih => exact ih before

theorem readAll_eq {cap : ℕ} {reads : List ReadResult} {stream : List UInt8} (h : Delivers reads stream) :
    readAll cap reads .default = stateOf cap stream := by
  have hdefault : CaptureState.default = stateOf cap [] := by
    unfold stateOf lastOf CaptureState.default
    simp
  rw [hdefault, readAll_stateOf h, List.nil_append]

/-! ## Characters -/

/-- Over a first byte and its continuation bytes, `stepBack` goes to just behind the first. -/
theorem stepBack_eq {front conts : List UInt8} {first : UInt8} (hfirst : isContinuation first = false)
    (hconts : ∀ b ∈ conts, isContinuation b = true) (hshort : conts.length ≤ 3) :
    stepBack (front ++ first :: conts) (front ++ first :: conts).length = front.length + 1 := by
  have hgoes : ∀ j, j ≤ conts.length → stepBack (front ++ first :: conts) (front.length + 1 + j) = front.length + 1 := by
    intro j
    induction j with
    | zero =>
        intro _
        have hget : (front ++ first :: conts).getD front.length 0 = first := by simp [List.getD]
        unfold stepBack
        rw [hget, hfirst, if_neg]
        rintro ⟨-, ⟨⟩⟩
    | succ j ih =>
        intro hj
        have hget : (front ++ first :: conts).getD (front.length + 1 + j) 0 = conts[j] := by
          have hindex : front.length + 1 + j - front.length = j + 1 := by omega
          simp only [List.getD]
          rw [List.getElem?_append_right (by omega), hindex, List.getElem?_cons_succ, List.getElem?_eq_getElem hj]
          rfl
        have hlength : (front ++ first :: conts).length - (front.length + 1 + j + 1) < 3 := by
          rw [List.length_append, List.length_cons]
          omega
        show stepBack _ (front.length + 1 + j + 1) = _
        unfold stepBack
        rw [hget, if_pos ⟨hlength, hconts _ (List.getElem_mem _)⟩]
        exact ih (by omega)
  have hlength : (front ++ first :: conts).length = front.length + 1 + conts.length := by
    rw [List.length_append, List.length_cons]
    omega
  rw [hlength]
  exact hgoes _ le_rfl

/-- Behind whole characters a first byte with some of its continuation bytes is kept when none is missing. -/
theorem keptPrefix_eq {front conts : List UInt8} {first : UInt8} (hfirst : isContinuation first = false)
    (hconts : ∀ b ∈ conts, isContinuation b = true) (hshort : conts.length ≤ 3) :
    keptPrefix (front ++ first :: conts) =
      if conts.length + 1 < sizeOfFirst first then front.length else front.length + 1 + conts.length := by
  have hget : (front ++ first :: conts).getD (front.length + 1 - 1) 0 = first := by simp [List.getD]
  unfold keptPrefix
  simp only
  rw [stepBack_eq hfirst hconts hshort, if_pos (Nat.succ_pos _), hget, List.length_append, List.length_cons]
  split
  · rename_i hcut
    rw [if_pos (by omega)]
    rfl
  · rename_i hwhole
    rw [if_neg (by omega)]
    omega

/-- A capped start of a text is rendered as its whole characters. -/
theorem lossyPrefix_encode {before : List Char} {cut : List UInt8}
    (h : cut = [] ∨ ∃ c, cut ≠ [] ∧ cut <+: String.utf8EncodeChar c ∧ cut.length < c.utf8Size) :
    lossyPrefix (encode before ++ cut) = String.ofList before := by
  have hkept : (encode before ++ cut).take (keptPrefix (encode before ++ cut)) = encode before := by
    rcases h with rfl | ⟨c, hne, hcut, hlt⟩
    · rw [List.append_nil]
      rcases List.eq_nil_or_concat before with rfl | ⟨before, d, rfl⟩
      · rfl
      · obtain ⟨first, conts, hencode, hfirst, hsize, hconts⟩ := exists_first d
        have hlength : conts.length + 1 = d.utf8Size := by
          rw [← String.length_utf8EncodeChar, hencode, List.length_cons]
        have hfour := d.utf8Size_le_four
        have hbytes : encode (before.concat d) = encode before ++ first :: conts := by
          rw [List.concat_eq_append, encode_append, encode_cons, encode_nil, List.append_nil, hencode]
        rw [hbytes, keptPrefix_eq hfirst hconts (by omega), if_neg (by omega)]
        apply List.take_of_length_le
        rw [List.length_append, List.length_cons]
        omega
    · obtain ⟨first, conts, hencode, hfirst, hsize, hconts⟩ := exists_first c
      have hfour := c.utf8Size_le_four
      obtain ⟨b, some, rfl⟩ := List.exists_cons_of_ne_nil hne
      rw [hencode, List.cons_prefix_cons] at hcut
      obtain ⟨rfl, hsome⟩ := hcut
      rw [List.length_cons] at hlt
      rw [keptPrefix_eq hfirst (fun b hb => hconts b (hsome.subset hb)) (by omega), if_pos (by omega),
        List.take_left]
  unfold lossyPrefix fromUtf8Lossy
  rw [hkept, textOf_encode]

/-- A capped end of a text is rendered as its whole characters. -/
theorem lossySuffix_encode {after : List Char} {cut : List UInt8} (hshort : cut.length ≤ 3)
    (hcut : ∀ b ∈ cut, isContinuation b = true) : lossySuffix (cut ++ encode after) = String.ofList after := by
  have hskip : ((cut ++ encode after).take 3).takeWhile isContinuation = cut := by
    rw [List.take_append, List.take_of_length_le hshort, List.takeWhile_append_of_pos hcut]
    -- a character does not begin with a continuation byte
    have hnext : ((encode after).take (3 - cut.length)).takeWhile isContinuation = [] := by
      cases after with
      | nil => simp
      | cons c after =>
          obtain ⟨first, conts, hencode, hfirst, -⟩ := exists_first c
          rw [encode_cons, hencode, List.cons_append]
          cases 3 - cut.length with
          | zero => rfl
          | succ k => simp [hfirst]
    rw [hnext, List.append_nil]
  unfold lossySuffix fromUtf8Lossy
  rw [hskip, List.drop_left, textOf_encode]

/-! ## What is captured -/

theorem caps_add (cap : ℕ) : headCap cap + tailCap cap = cap := by
  unfold tailCap headCap
  omega

/-- What a stream within the cap leaves is the stream. -/
theorem stateOf_short {cap : ℕ} {stream : List UInt8} (h : stream.length ≤ cap) :
    (stateOf cap stream).head ++ (stateOf cap stream).tail = stream := by
  have hcaps := caps_add cap
  have hall : (stream.drop (headCap cap)).length - tailCap cap = 0 := by
    rw [List.length_drop]
    omega
  unfold stateOf lastOf
  rw [hall, List.drop_zero, List.take_append_drop]

/-- What a longer stream leaves. -/
theorem stateOf_long {cap : ℕ} {stream : List UInt8} (h : cap < stream.length) :
    (stateOf cap stream).tail = stream.drop (stream.length - tailCap cap) ∧
      (stateOf cap stream).head.length + (stateOf cap stream).tail.length = cap := by
  have hcaps := caps_add cap
  have htail : (stateOf cap stream).tail = stream.drop (stream.length - tailCap cap) := by
    have hindex : headCap cap + (stream.length - headCap cap - tailCap cap) = stream.length - tailCap cap := by omega
    unfold stateOf lastOf
    rw [List.drop_drop, List.length_drop, hindex]
  refine ⟨htail, ?_⟩
  rw [htail]
  show (stream.take (headCap cap)).length + _ = cap
  rw [List.length_take, List.length_drop]
  omega

/-- **Output is captured exactly.** Within the cap the text is the stream; of a longer stream the first half of the cap
    and the last of it are kept, and the text says how many bytes are left out. The chunks do not matter. Of a stream
    that is a text, whole characters are shown. -/
theorem capture_exact (cap : ℕ) {reads : List ReadResult} {stream : List UInt8} (h : Delivers reads stream)
    (reachedEof : Bool) :
    ((readAll cap reads .default).finish reachedEof).total = stream.length ∧
    (stream.length ≤ cap →
      ((readAll cap reads .default).finish reachedEof).text = fromUtf8Lossy stream ∧
      ((readAll cap reads .default).finish reachedEof).truncated = false) ∧
    (cap < stream.length →
      (readAll cap reads .default).head = stream.take ((cap + 1) / 2) ∧
      (readAll cap reads .default).tail = stream.drop (stream.length - (cap - (cap + 1) / 2)) ∧
      ((readAll cap reads .default).finish reachedEof).truncated = true ∧
      ((readAll cap reads .default).finish reachedEof).text =
        truncatedText (readAll cap reads .default).head (readAll cap reads .default).tail (stream.length - cap)) ∧
    (∀ reads', Delivers reads' stream →
      (readAll cap reads' .default).finish reachedEof = (readAll cap reads .default).finish reachedEof) ∧
    ∀ text, stream = encode text → fromUtf8Lossy stream = String.ofList text ∧
      ∃ before after, before <+: text ∧ after <:+ text ∧
        lossyPrefix (readAll cap reads .default).head = String.ofList before ∧
        lossySuffix (readAll cap reads .default).tail = String.ofList after := by
  rw [readAll_eq h]
  refine ⟨rfl, ?_, ?_, ?_, ?_⟩
  · intro hshort
    have hall := stateOf_short hshort
    have hnot : ¬ (stateOf cap stream).head.length + (stateOf cap stream).tail.length < (stateOf cap stream).total := by
      rw [← List.length_append, hall]
      exact lt_irrefl _
    unfold CaptureState.finish
    simp only
    rw [decide_eq_false hnot, hall]
    exact ⟨rfl, rfl⟩
  · intro hlong
    obtain ⟨htail, hkept⟩ := stateOf_long hlong
    unfold CaptureState.finish
    simp only
    rw [hkept]
    have hmore : cap < (stateOf cap stream).total := hlong
    refine ⟨rfl, htail, decide_eq_true hmore, ?_⟩
    rw [if_pos (decide_eq_true hmore)]
    rfl
  · intro reads' h'
    rw [readAll_eq h']
  · rintro text rfl
    have hread : fromUtf8Lossy (encode text) = String.ofList text := by
      unfold fromUtf8Lossy
      rw [textOf_encode]
    obtain ⟨before, cut, hhead, hbefore, hcut⟩ := take_encode (headCap cap) text
    obtain ⟨k, htail⟩ : ∃ k, (stateOf cap (encode text)).tail = (encode text).drop k := by
      unfold stateOf lastOf
      exact ⟨_, List.drop_drop⟩
    obtain ⟨cut', after, hdrop, hafter, hshort, hconts⟩ := drop_encode k text
    refine ⟨hread, before, after, hbefore, hafter, ?_, ?_⟩
    · show lossyPrefix ((encode text).take (headCap cap)) = _
      rw [hhead]
      exact lossyPrefix_encode hcut
    · rw [htail, hdrop]
      exact lossySuffix_encode hshort hconts

/-- A character on the cap, in two chunks. -/
theorem capture_exact_of_two_chunks :
    ((readAll 3 [.bytes [0x61, 0xC3], .interrupted, .bytes [0xA9, 0x62, 0x63], .bytes []] .default).finish true).total =
      5 :=
  have hstream : Delivers [.bytes [0x61, 0xC3], .interrupted, .bytes [0xA9, 0x62, 0x63], .bytes []]
      [0x61, 0xC3, 0xA9, 0x62, 0x63] := .chunk (by decide) (.interrupted (.chunk (by decide) .eof))
  (capture_exact 3 hstream true).1

end AgentRuntime.Shell
