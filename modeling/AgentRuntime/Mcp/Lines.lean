import AgentRuntime.Lib.Text
import AgentRuntime.Lib.Utf8Lossy

/-!
# `Mcp.Lines` — the lines of a byte stream (`agent-mcp-host/src/transport.rs`)

The server's output is cut into lines as it is read, chunk by chunk. Of a line over the cap only the first bytes are
kept. However the stream is cut into chunks, the lines are those of the stream (`feed_framed`); a line within the cap is
there as it is, and of a line over the cap some of its first bytes (`LineOk`). The ids in a text that may be cut off
are found by searching it.
-/

namespace AgentRuntime.Mcp

open Text

/-! ## Cutting -/

/-- How much is kept of a line over the cap. -/
def keptBytes : ℕ := 4096

/-- The line that is being read: what is kept of it, whether it is over the cap, and all of its bytes (which the code
    no longer has). -/
structure Cut where
  kept : List UInt8
  overflow : Bool
  bytes : List UInt8

def Cut.fresh : Cut where
  kept := []
  overflow := false
  bytes := []

/-- A line that was read. -/
inductive Line where
  | whole (bytes : List UInt8)
  /-- A line over the cap, by what is kept of it. -/
  | oversize (kept bytes : List UInt8)

def Line.bytes : Line → List UInt8
  | .whole bytes => bytes
  | .oversize _ bytes => bytes

/-- A part of the line, up to the end of the chunk or of the line. -/
def Cut.add (max : ℕ) (c : Cut) (part : List UInt8) : Cut :=
  if c.overflow then { c with bytes := c.bytes ++ part }
  else if max < c.kept.length + part.length then
    let room := keptBytes - min c.kept.length keptBytes
    { kept := c.kept.take keptBytes ++ part.take (min part.length room)
      overflow := true
      bytes := c.bytes ++ part }
  else { c with kept := c.kept ++ part, bytes := c.bytes ++ part }

def Cut.line (c : Cut) : Line := if c.overflow then .oversize c.kept c.bytes else .whole c.kept

/-- The parts of a chunk: each but the last ends a line. -/
def Cut.feedParts (max : ℕ) : Cut → List (List UInt8) → List Line × Cut
  | c, [] => ([], c)
  | c, [part] => ([], c.add max part)
  | c, part :: next :: parts =>
      let (lines, c') := Cut.feedParts max .fresh (next :: parts)
      ((c.add max part).line :: lines, c')

/-- One chunk, as it is read. -/
def Cut.feed (max : ℕ) (c : Cut) (chunk : List UInt8) : List Line × Cut := c.feedParts max (chunk.splitOn 10)

/-! ## The lines of a stream -/

/-- The stream is these lines, each ended by a line feed, and a rest without one. -/
structure Framed (stream : List UInt8) (lines : List (List UInt8)) (rest : List UInt8) : Prop where
  stream : stream = (lines.flatMap fun l => l ++ [10]) ++ rest
  lines : ∀ l ∈ lines, 10 ∉ l
  rest : 10 ∉ rest

/-- The complete lines of a stream. -/
def completeLines (stream : List UInt8) : List (List UInt8) := (stream.splitOn 10).dropLast

theorem Framed.append {stream chunk rest rest' : List UInt8} {lines lines' : List (List UInt8)}
    (h : Framed stream lines rest) (h' : Framed (rest ++ chunk) lines' rest') :
    Framed (stream ++ chunk) (lines ++ lines') rest' := by
  refine ⟨?_, ?_, h'.rest⟩
  · rw [h.stream, List.append_assoc, h'.stream, List.flatMap_append, List.append_assoc]
  · intro l hl
    exact (List.mem_append.mp hl).elim (h.lines l) (h'.lines l)

theorem Framed.completeLines {stream rest : List UInt8} {lines : List (List UInt8)} (h : Framed stream lines rest) :
    completeLines stream = lines := by
  have hsplit : stream.splitOn 10 = lines ++ [rest] := by
    obtain ⟨rfl, hlines, hrest⟩ := h
    induction lines with
    | nil => exact List.splitOn_eq_singleton hrest
    | cons line lines ih =>
        have hline := hlines line (List.mem_cons_self ..)
        rw [List.flatMap_cons, List.append_assoc, List.append_assoc, List.singleton_append,
          List.splitOn_append_cons_self, List.splitOn_eq_singleton hline,
          ih fun l hl => hlines l (List.mem_cons_of_mem _ hl)]
        rfl
  unfold Mcp.completeLines
  rw [hsplit, List.dropLast_concat]

/-- What is kept of a line that is over the cap: its first bytes. -/
def KeptOf (max : ℕ) (kept bytes : List UInt8) : Prop :=
  ∃ start, start <+: bytes ∧ max < start.length ∧ kept = start.take keptBytes

/-- The line that is being read is what was read of it. -/
structure CutOk (max : ℕ) (c : Cut) : Prop where
  within : c.overflow = false → c.kept = c.bytes ∧ c.bytes.length ≤ max
  beyond : c.overflow = true → KeptOf max c.kept c.bytes

/-- A line is whole within the cap, and kept by its first bytes over it. -/
def LineOk (max : ℕ) : Line → Prop
  | .whole bytes => bytes.length ≤ max
  | .oversize kept bytes => KeptOf max kept bytes

theorem CutOk.fresh {max : ℕ} : CutOk max .fresh where
  within _ := ⟨rfl, Nat.zero_le _⟩
  beyond h := by cases h

theorem Cut.add_bytes {max : ℕ} {c : Cut} {part : List UInt8} : (c.add max part).bytes = c.bytes ++ part := by
  unfold Cut.add
  split
  · rfl
  · split
    · rfl
    · rfl

theorem CutOk.add {max : ℕ} {c : Cut} (h : CutOk max c) (part : List UInt8) : CutOk max (c.add max part) := by
  unfold Cut.add
  split
  · rename_i hover
    refine ⟨fun hno => absurd (hover.symm.trans hno) (by simp), fun _ => ?_⟩
    obtain ⟨start, hstart, hlong, hkept⟩ := h.beyond hover
    exact ⟨start, hstart.trans (List.prefix_append _ _), hlong, hkept⟩
  · rename_i hover
    obtain ⟨hkept, hshort⟩ := h.within (by simpa using hover)
    split
    · rename_i hlong
      refine ⟨fun hno => by simp at hno, fun _ => ⟨c.bytes ++ part, List.prefix_refl _, ?_, ?_⟩⟩
      · rw [List.length_append, ← hkept]
        exact hlong
      · show c.kept.take keptBytes ++ part.take (min part.length (keptBytes - min c.kept.length keptBytes)) = _
        rw [← hkept, List.take_append]
        congr 1
        rw [List.take_eq_take_iff]
        omega
    · rename_i hshort'
      refine ⟨fun _ => ⟨by rw [hkept], ?_⟩, fun hyes => absurd hyes hover⟩
      rw [List.length_append, ← hkept]
      exact not_lt.mp hshort'

theorem CutOk.line {max : ℕ} {c : Cut} (h : CutOk max c) : LineOk max c.line ∧ c.line.bytes = c.bytes := by
  unfold Cut.line
  split
  · rename_i hover
    exact ⟨h.beyond hover, rfl⟩
  · rename_i hover
    obtain ⟨hkept, hshort⟩ := h.within (by simpa using hover)
    exact ⟨by rw [hkept]; exact hshort, hkept⟩

/-- The first line of a chunk, and the rest. -/
theorem splitOn_cases (chunk : List UInt8) :
    (10 ∉ chunk ∧ chunk.splitOn 10 = [chunk]) ∨
      ∃ part more, chunk = part ++ 10 :: more ∧ 10 ∉ part ∧ chunk.splitOn 10 = part :: more.splitOn 10 := by
  by_cases hmem : 10 ∈ chunk
  · obtain ⟨part, more, rfl, hpart⟩ := List.eq_append_cons_of_mem hmem
    refine .inr ⟨part, more, rfl, hpart, ?_⟩
    rw [List.splitOn_append_cons_self, List.splitOn_eq_singleton hpart]
    rfl
  · exact .inl ⟨hmem, List.splitOn_eq_singleton hmem⟩

/-- **Chunks.** Whatever the chunk, the lines that end in it are the next lines of the stream. -/
theorem feed_framed {max : ℕ} {c : Cut} (h : CutOk max c) (hopen : 10 ∉ c.bytes) (chunk : List UInt8) :
    Framed (c.bytes ++ chunk) ((c.feed max chunk).1.map Line.bytes) (c.feed max chunk).2.bytes ∧
      CutOk max (c.feed max chunk).2 ∧ ∀ l ∈ (c.feed max chunk).1, LineOk max l := by
  induction hn : chunk.length using Nat.strong_induction_on generalizing c chunk with
  | _ n ih =>
      unfold Cut.feed
      rcases splitOn_cases chunk with ⟨hclosed, hsplit⟩ | ⟨part, more, rfl, hpart, hsplit⟩
      · rw [hsplit]
        refine ⟨⟨?_, by simp [Cut.feedParts], ?_⟩, h.add chunk, by simp [Cut.feedParts]⟩
        · show _ = [] ++ (c.add max chunk).bytes
          rw [Cut.add_bytes, List.nil_append]
        · show 10 ∉ (c.add max chunk).bytes
          rw [Cut.add_bytes, List.mem_append]
          exact not_or.mpr ⟨hopen, hclosed⟩
      · rw [hsplit]
        rw [List.length_append, List.length_cons] at hn
        obtain ⟨hframed, hcut, hlines⟩ := ih more.length (by omega) CutOk.fresh (by simp [Cut.fresh]) more rfl
        obtain ⟨next, parts, hmore⟩ := List.exists_cons_of_ne_nil (List.splitOn_ne_nil 10 more)
        unfold Cut.feed at hframed hcut hlines
        rw [hmore] at hframed hcut hlines ⊢
        obtain ⟨hline, hbytes⟩ := (h.add part).line
        rw [Cut.add_bytes] at hbytes
        refine ⟨⟨?_, ?_, hframed.rest⟩, hcut, ?_⟩
        · have hstream := hframed.stream
          show c.bytes ++ (part ++ 10 :: more) = _
          simp only [Cut.feedParts, List.map_cons, List.flatMap_cons, hbytes]
          rw [show more = Cut.fresh.bytes ++ more from rfl, hstream]
          simp
        · intro l hl
          rcases List.mem_cons.mp hl with rfl | hl
          · rw [hbytes, List.mem_append]
            exact not_or.mpr ⟨hopen, hpart⟩
          · exact hframed.lines l hl
        · intro l hl
          rcases List.mem_cons.mp hl with rfl | hl
          · exact hline
          · exact hlines l hl

/-! ## Ids in a text -/

/-- The number after a key. -/
def idAfter (s : List Char) : Option ℕ :=
  (strip [':'] (s.dropWhile isWhitespace)).bind fun after =>
    let digits := (after.dropWhile isWhitespace).takeWhile Char.isDigit
    if digits ≠ [] ∧ decimalValue digits < 2 ^ 64 then some (decimalValue digits) else none

/-- The numbers after each `"id"` of the text. -/
def scanText : ℕ → List Char → List ℕ
  | 0, _ => []
  | fuel + 1, s =>
      match breakOn "\"id\"".toList s with
      | none => []
      | some (_, found) =>
          let rest := found.drop 4
          (idAfter rest).toList ++ scanText fuel rest

/-- Numeric values of `"id": <n>` in a JSON text that may be cut off. -/
def scanIds (kept : List UInt8) : List ℕ :=
  let s := Utf8.textOf kept
  scanText (s.length + 1) s

example : scanText 50 "\x7b\"jsonrpc\":\"2.0\", \"id\" : 42, \"result\": \x7b".toList = [42] ∧
    scanText 50 "\x7b\"result\":\x7b\"id\":\"x\"\x7d,\"id\":5".toList = [5] ∧ scanText 50 "garbage".toList = [] := by
  decide +kernel

end AgentRuntime.Mcp
