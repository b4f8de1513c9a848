import AgentRuntime.Audit.Integrity
import AgentRuntime.Lib.Base64
import AgentRuntime.Lib.JsonValue
import AgentRuntime.Lib.Utf8Lossy

/-!
# `Audit.FileSink` — the filesystem sink (`agent/core/src/audit/sink/fs.rs`)

A record is one line: a JSON envelope around the base64 of its CBOR. Reading takes the file apart at line feeds and
every line through three decoders, which are parameters (`Decoders`) with what their documentation says. As long
as the file holds whole lines, the sink keeps what it was given (`filesystemSink`).
-/

namespace AgentRuntime.Audit

open Json PrefixCode Utf8 Words

/-! ## The sink -/

/-- The base64 of a record's CBOR, signatures and anchor included. -/
def cborB64 (r : AuditRecord) : String := String.ofList (Base64.encode r.cbor)

/-- The JSON envelope of a record, as it is printed. -/
def envelope (r : AuditRecord) : List UInt8 :=
  utf8 "\x7b\"sequence\":" ++ decimal r.sequence.toNat ++ utf8 ",\"cbor_b64\":" ++ jsonString (cborB64 r) ++
    utf8 "\x7d"

/-- The JSON envelope of a record, as a value. -/
def document (r : AuditRecord) : Value :=
  .object [("sequence", .number (.posInt r.sequence.toNat)), ("cbor_b64", .string (cborB64 r))]

/-- What an append writes. -/
def line (r : AuditRecord) : List UInt8 := envelope r ++ [10]

/-- The decoders a line goes through, which read back what the encoders write. -/
structure Decoders where
  /-- A line as text, and `serde_json::from_str` on it. -/
  fromStr : List UInt8 → Except String Value
  /-- `Engine::decode`. -/
  b64Decode : String → Except String (List UInt8)
  /-- `ciborium::de::from_reader`. -/
  fromReader : List UInt8 → Except String AuditRecord
  fromStr_envelope : ∀ r, fromStr (envelope r) = .ok (document r)
  /-- An object that breaks off is not JSON. -/
  fromStr_torn : ∀ r p, p <+: envelope r → p ≠ envelope r → ∃ e, fromStr p = .error e
  /-- Nor is one that goes on with another. -/
  fromStr_glued : ∀ r p r', p <+: envelope r → p ≠ [] → ∃ e, fromStr (p ++ envelope r') = .error e
  b64Decode_encode : ∀ bs, b64Decode (String.ofList (Base64.encode bs)) = .ok bs
  fromReader_cbor : ∀ r, fromReader r.cbor = .ok r

section

variable (dec : Decoders)

/-- One line, read back. -/
def readRecord (bs : List UInt8) : Except String AuditRecord := do
  let envelope ← (dec.fromStr bs).mapError ("parse envelope: " ++ ·)
  let b64 ←
    match (envelope.get "cbor_b64").bind Value.asStr with
    | none => .error "envelope missing cbor_b64"
    | some b64 => .ok b64
  let cbor ← (dec.b64Decode b64).mapError ("b64 decode: " ++ ·)
  (dec.fromReader cbor).mapError ("CBOR decode: " ++ ·)

/-- The sink, over the bytes of its file. -/
def fileSink : AuditSink (List UInt8) where
  append bs r := .ok (bs ++ line r)
  iter bs := .ok ((byteLines bs).map (readRecord dec))

end

/-! ## Lines -/

/-- The bytes of a log. -/
def written (rs : List AuditRecord) : List UInt8 := rs.flatMap line

@[simp] theorem written_nil : written [] = [] := rfl

@[simp] theorem written_append (rs rs' : List AuditRecord) : written (rs ++ rs') = written rs ++ written rs' :=
  List.flatMap_append

@[simp] theorem written_singleton (r : AuditRecord) : written [r] = line r := List.flatMap_singleton ..

theorem printable_envelope (r : AuditRecord) : Printable (envelope r) := by
  have hopen : Printable (utf8 "\x7b\"sequence\":") := by decide +kernel
  have hkey : Printable (utf8 ",\"cbor_b64\":") := by decide +kernel
  have hclose : Printable (utf8 "\x7d") := by decide +kernel
  simp [envelope, hopen, hkey, hclose]

theorem getLast?_envelope (r : AuditRecord) : (envelope r).getLast? = some 125 := by
  unfold envelope
  rw [List.getLast?_append]
  rfl

theorem envelope_ne_nil (r : AuditRecord) : envelope r ≠ [] := by
  intro h
  have hlast := getLast?_envelope r
  rw [h] at hlast
  cases hlast

/-- **Reading lines.** Whole lines are read back as they are, and then what follows them, if anything. -/
theorem byteLines_ended {ls : List (List UInt8)} {rest : List UInt8} (hfeed : ∀ l ∈ ls, 10 ∉ l)
    (hret : ∀ l ∈ ls, l.getLast? ≠ some 13) (hrest : 10 ∉ rest) :
    byteLines ((ls.flatMap fun l => l ++ [10]) ++ rest) = ls ++ if rest = [] then [] else [rest] := by
  have hsplit : ((ls.flatMap fun l => l ++ [10]) ++ rest).splitOn 10 = ls ++ [rest] := by
    clear hret
    induction ls with
    | nil => exact List.splitOn_eq_singleton hrest
    | cons l ls ih =>
        have hcons : ((l :: ls).flatMap fun l => l ++ [10]) ++ rest =
            l ++ 10 :: ((ls.flatMap fun l => l ++ [10]) ++ rest) := by simp
        rw [hcons, List.splitOn_append_cons_self_of_not_mem (hfeed l List.mem_cons_self),
          ih fun l' hl' => hfeed l' (List.mem_cons_of_mem _ hl')]
        rfl
  unfold byteLines Text.linesBy
  simp only [hsplit, List.dropLast_concat, List.getLast?_concat]
  congr 1
  · calc ls.map _ = ls.map id := List.map_congr_left fun l hl => if_neg (hret l hl)
      _ = ls := List.map_id ls
  · by_cases h : rest = []
    · simp [h]
    · simp [h]

theorem written_eq (rs : List AuditRecord) : written rs = (rs.map envelope).flatMap fun l => l ++ [10] := by
  rw [List.flatMap_map]
  rfl

theorem byteLines_written {rs : List AuditRecord} {rest : List UInt8} (hrest : 10 ∉ rest) :
    byteLines (written rs ++ rest) = rs.map envelope ++ if rest = [] then [] else [rest] := by
  rw [written_eq, byteLines_ended _ _ hrest]
  · intro l hl
    obtain ⟨r, -, rfl⟩ := List.mem_map.mp hl
    exact (printable_envelope r).not_mem_newline
  · intro l hl
    obtain ⟨r, -, rfl⟩ := List.mem_map.mp hl
    rw [getLast?_envelope]
    decide

theorem splitOn_length_le (bs : List UInt8) (stop : UInt8) : (bs.splitOn stop).length ≤ bs.length + 1 := by
  induction bs with
  | nil => simp
  | cons b bs ih =>
      rw [List.splitOn_cons_eq_if_modifyHead]
      split
      · simp only [List.length_cons]
        omega
      · rw [List.length_modifyHead, List.length_cons]
        omega

/-- A file has at most one line more than bytes. -/
theorem byteLines_length_le (bs : List UInt8) : (byteLines bs).length ≤ bs.length + 1 := by
  have hsplit := splitOn_length_le bs 10
  have hne := List.length_pos_iff.mpr (List.splitOn_ne_nil 10 bs)
  have hlast : (((bs.splitOn 10).getLast?.filter fun line => !line.isEmpty).toList).length ≤ 1 := by
    cases (bs.splitOn 10).getLast?.filter fun line => !line.isEmpty <;> simp
  unfold byteLines Text.linesBy
  rw [List.length_append, List.length_map, List.length_dropLast]
  omega

/-! ## What the sink keeps -/

variable {dec : Decoders}

@[simp] theorem readRecord_envelope (r : AuditRecord) : readRecord dec (envelope r) = .ok r := by
  unfold readRecord
  rw [dec.fromStr_envelope]
  show (dec.b64Decode (cborB64 r)).mapError _ >>= _ = _
  rw [cborB64, dec.b64Decode_encode]
  show (dec.fromReader r.cbor).mapError _ = _
  rw [dec.fromReader_cbor]
  rfl

theorem readRecord_error {bs : List UInt8} (h : ∃ e, dec.fromStr bs = .error e) :
    ∃ e, readRecord dec bs = .error e := by
  obtain ⟨e, he⟩ := h
  unfold readRecord
  rw [he]
  exact ⟨_, rfl⟩

theorem iter_written (dec : Decoders) (rs : List AuditRecord) {rest : List UInt8} (hrest : 10 ∉ rest) :
    (fileSink dec).iter (written rs ++ rest) =
      .ok (rs.map .ok ++ if rest = [] then [] else [readRecord dec rest]) := by
  show Except.ok ((byteLines (written rs ++ rest)).map (readRecord dec)) = _
  rw [byteLines_written hrest, List.map_append, List.map_map]
  congr 2
  · apply List.map_congr_left
    intro r _
    exact readRecord_envelope r
  · split <;> rfl

/-- A log written by the sink holds the records it was given. -/
theorem holds_written (rs : List AuditRecord) : (fileSink dec).Holds (written rs) rs := by
  have hrest : (10 : UInt8) ∉ ([] : List UInt8) := List.not_mem_nil
  have h := iter_written dec rs hrest
  simpa [AuditSink.Holds] using h

/-- **The sink is sound** over whole lines. -/
def wholeLines (dec : Decoders) : SoundSink (List UInt8) where
  toAuditSink := fileSink dec
  Whole bs := ∃ rs, bs = written rs
  whole_append := by
    rintro bs r s' ⟨rs, rfl⟩ happend
    cases happend
    exact ⟨rs ++ [r], by simp⟩
  holds_append := by
    rintro bs r s' rs ⟨rs₀, rfl⟩ hiter happend
    cases happend
    obtain rfl : rs₀ = rs := Reads.unique (holds_written rs₀) hiter
    rw [← written_singleton, ← written_append]
    exact holds_written (rs₀ ++ [r])

/-- A file: no offset is beyond `2^63`. -/
abbrev File : Type := {bs : List UInt8 // bs.length < 2 ^ 63}

/-- **The filesystem sink**, over files. -/
def filesystemSink (dec : Decoders) : BoundedSink File where
  append bs r :=
    if h : (bs.1 ++ line r).length < 2 ^ 63 then .ok ⟨bs.1 ++ line r, h⟩ else .error "append: File too large"
  iter bs := (fileSink dec).iter bs.1
  Whole bs := (wholeLines dec).Whole bs.1
  whole_append := by
    intro bs r s' hwhole happend
    split at happend
    · cases happend
      exact (wholeLines dec).whole_append hwhole rfl
    · cases happend
  holds_append := by
    intro bs r s' rs hwhole hiter happend
    split at happend
    · cases happend
      exact (wholeLines dec).holds_append hwhole hiter rfl
    · cases happend
  iter_length := by
    rintro ⟨bs, hlen⟩ items hiter
    rw [← Except.ok.inj hiter, List.length_map]
    have hle : (byteLines bs).length ≤ bs.length + 1 := byteLines_length_le bs
    show (byteLines bs).length < u64Bound
    unfold u64Bound
    omega

end AgentRuntime.Audit
