import AgentRuntime.Audit.FileSink
import Mathlib

/-!
# `Audit.TornWrite` — an append that stops half-way (`agent/core/src/audit/sink/fs.rs`)

A trait comment asks of `append` that it be atomic against partial writes. The sink writes one line and looks at
nothing when it writes the next: a log whose last append stopped after `k > 0` bytes either does not open, or
holds a record nobody acknowledged, or has the next record glued to it (`unharmed_iff_uncut`). `TornGenesis` has
a log of one record that a single byte keeps from opening.
-/

namespace AgentRuntime.Audit

open Hitl (SignerRoster Ed25519)
open Json PrefixCode Sha256 Utf8

section

variable (sha256 : List UInt8 → Digest) (ed : Ed25519) (devAllowed : Bool) (dec : Decoders)

/-- What a log is when the append of `r` stopped after `k` bytes. -/
def cut (rs : List AuditRecord) (r : AuditRecord) (k : ℕ) : List UInt8 := written rs ++ (line r).take k

/-- The log survives the cut: it still opens with the records from before, and whoever appends to it from now on,
    the writer that saw the append fail or one that opened the log anew, leaves a log that opens and verifies with
    exactly the acknowledged records. -/
structure Unharmed (c : AuditChain) (rs : List AuditRecord) (r : AuditRecord) (k : ℕ) : Prop where
  opens : ∃ c', openExisting sha256 (fileSink dec) (cut rs r k) = .ok (some c')
  earlier : ∃ rest, (fileSink dec).Holds (cut rs r k) (rs ++ rest)
  later : ∀ d acked d' s',
    (d = c ∨ ∃ c', openExisting sha256 (fileSink dec) (cut rs r k) = .ok (some c') ∧
      d = { c' with roster := c.roster }) →
    acked ≠ [] → Appends sha256 ed devAllowed (fileSink dec) d (cut rs r k) acked d' s' →
    (∃ c', openExisting sha256 (fileSink dec) s' = .ok (some c')) ∧
      d'.verifyIntegrity sha256 (fileSink dec) ed devAllowed s' = .ok d'.nextSequence ∧
      (fileSink dec).Holds s' (rs ++ acked)

end

variable {sha256 : List UInt8 → Digest} {ed : Ed25519} {devAllowed : Bool} {dec : Decoders}

theorem not_mem_take_line {r : AuditRecord} {k : ℕ} (hk : k ≤ (envelope r).length) : 10 ∉ (line r).take k := by
  have htake : (line r).take k = (envelope r).take k := List.take_append_of_le_length hk
  rw [htake]
  intro hmem
  exact (printable_envelope r).not_mem_newline (List.mem_of_mem_take hmem)

/-- A log with a line that is not a record does not open. -/
theorem openExisting_of_iter_error {s : List UInt8} {rs : List AuditRecord} {e : String}
    {rest : List (Except String AuditRecord)} (h : (fileSink dec).iter s = .ok (rs.map .ok ++ .error e :: rest))
    {c : AuditChain} : openExisting sha256 (fileSink dec) s ≠ .ok (some c) := by
  intro hopen
  obtain ⟨rs', hholds, -⟩ := openExisting_some.mp hopen
  have hitems : rs.map Except.ok ++ .error e :: rest = rs'.map .ok := Except.ok.inj (h.symm.trans hholds)
  have hmem : (Except.error e : Except String AuditRecord) ∈ rs'.map .ok := by
    rw [← hitems]
    simp
  obtain ⟨r, -, hr⟩ := List.mem_map.mp hmem
  cases hr

/-- **The torn line.** A log that ends in part of an envelope does not open. -/
theorem openExisting_torn {rs : List AuditRecord} {r : AuditRecord} {k : ℕ} (hpos : 0 < k)
    (hk : k < (envelope r).length) {c : AuditChain} :
    openExisting sha256 (fileSink dec) (cut rs r k) ≠ .ok (some c) := by
  have htake : (line r).take k = (envelope r).take k := List.take_append_of_le_length hk.le
  have hlen : ((envelope r).take k).length = k := List.length_take_of_le hk.le
  have hne : (line r).take k ≠ [] := by
    rw [htake]
    exact List.ne_nil_of_length_pos (by omega)
  have hproper : (envelope r).take k ≠ envelope r := by
    intro heq
    rw [heq] at hlen
    omega
  obtain ⟨e, he⟩ := readRecord_error (dec.fromStr_torn r _ (List.take_prefix k _) hproper)
  have hiter := iter_written dec rs (not_mem_take_line hk.le)
  rw [if_neg hne, htake, he, ← htake] at hiter
  exact openExisting_of_iter_error hiter

/-- **The glued line.** A log that ends in a whole envelope, without its line feed, does not open after another
    append. -/
theorem openExisting_glued {rs : List AuditRecord} {r r' : AuditRecord} {c : AuditChain} :
    openExisting sha256 (fileSink dec) (written rs ++ envelope r ++ line r') ≠ .ok (some c) := by
  obtain ⟨e, he⟩ := readRecord_error (dec.fromStr_glued r _ r' (List.prefix_refl _) (envelope_ne_nil r))
  have hlines : byteLines (written rs ++ envelope r ++ line r') = rs.map envelope ++ [envelope r ++ envelope r'] := by
    have hbytes : written rs ++ envelope r ++ line r' =
        ((rs.map envelope ++ [envelope r ++ envelope r']).flatMap fun l => l ++ [10]) ++ [] := by
      simp [written_eq, line]
    rw [hbytes, byteLines_ended _ _ (by simp)]
    · simp
    · intro l hl
      rcases List.mem_append.mp hl with hl | hl
      · obtain ⟨x, -, rfl⟩ := List.mem_map.mp hl
        exact (printable_envelope x).not_mem_newline
      · rw [List.mem_singleton.mp hl, List.mem_append, not_or]
        exact ⟨(printable_envelope r).not_mem_newline, (printable_envelope r').not_mem_newline⟩
    · intro l hl
      rcases List.mem_append.mp hl with hl | hl
      · obtain ⟨x, -, rfl⟩ := List.mem_map.mp hl
        rw [getLast?_envelope]
        decide
      · rw [List.mem_singleton.mp hl, List.getLast?_append, getLast?_envelope]
        simp
  have hiter : (fileSink dec).iter (written rs ++ envelope r ++ line r') = .ok (rs.map .ok ++ .error e :: []) := by
    show Except.ok ((byteLines _).map (readRecord dec)) = _
    rw [hlines, List.map_append, List.map_map, List.map_singleton, he]
    congr 2
    apply List.map_congr_left
    intro x _
    exact readRecord_envelope x
  exact openExisting_of_iter_error hiter

/-- Any chain can append: an event without signatures, no earlier than its head. -/
theorem exists_append (sha256 ed devAllowed) (dec : Decoders) (c : AuditChain) (s : List UInt8) :
    ∃ r c', c.append sha256 (fileSink dec) ed devAllowed s
      { eventType := .proposal, payload := ⟨[], by decide⟩, actor := ⟨"", by decide⟩, signatures := ⟨[], by decide⟩,
        anchor := none, nowUnixNanos := c.lastTimestamp } = .ok (r, c', s ++ line r) := by
  refine ⟨_, _, AuditChain.append_ok.mpr ⟨rfl, ⟨rfl, rfl, ?_⟩, rfl, rfl, rfl⟩⟩
  exact Int64.le_refl _

section

variable {c : AuditChain} {rs : List AuditRecord} {r : AuditRecord} {k : ℕ}

/-- **Any cut harms.** -/
theorem not_unharmed (hpos : 0 < k) : ¬ Unharmed sha256 ed devAllowed dec c rs r k := by
  intro h
  obtain ⟨r', c', happend⟩ := exists_append sha256 ed devAllowed dec c (cut rs r k)
  have hlater := h.later c [r'] c' _ (.inl rfl) (by simp) (.cons happend (.nil ..))
  rcases lt_trichotomy k (envelope r).length with hlt | heq | hgt
  · -- part of the envelope
    obtain ⟨c'', hopen⟩ := h.opens
    exact openExisting_torn hpos hlt hopen
  · -- the envelope, without the line feed
    have hcut : cut rs r k = written rs ++ envelope r := by
      rw [cut, heq, line, List.take_left]
    rw [hcut] at hlater
    obtain ⟨⟨c'', hopen⟩, -⟩ := hlater
    exact openExisting_glued hopen
  · -- the whole line, for a record that was never acknowledged
    have hcut : cut rs r k ++ line r' = written (rs ++ [r, r']) := by
      have hwhole : (line r).take k = line r := List.take_of_length_le (by simp [line]; omega)
      rw [cut, hwhole]
      simp [written]
    rw [hcut] at hlater
    have heq := congrArg List.length (Reads.unique (holds_written (rs ++ [r, r'])) hlater.2.2)
    simp at heq

/-- **No cut, no harm.** -/
theorem unharmed_zero (hreads : Reads sha256 (fileSink dec) (written rs) c.toHead rs)
    (hverified : ∀ x ∈ rs, verifySignatures ed devAllowed c.roster x = .ok ()) :
    Unharmed sha256 ed devAllowed dec c rs r 0 := by
  have hcut : cut rs r 0 = written rs := by simp [cut]
  refine ⟨?_, ?_, ?_⟩
  · rw [hcut]
    exact ⟨_, hreads.openExisting_eq⟩
  · rw [hcut]
    refine ⟨[], ?_⟩
    rw [List.append_nil]
    exact hreads.holds
  · rw [hcut]
    intro d acked d' s' hd _ hrun
    obtain rfl : d = c := by
      rcases hd with rfl | ⟨c', hopen, rfl⟩
      · rfl
      · rw [hreads.openExisting_eq] at hopen
        cases hopen
        rfl
    have hwhole : (wholeLines dec).Whole (written rs) := ⟨rs, rfl⟩
    obtain ⟨hreads', hroster, hsigs⟩ := @Appends.reads _ _ _ _ (wholeLines dec) _ _ _ _ _ _ hrun hreads hwhole
    refine ⟨⟨_, hreads'.openExisting_eq⟩, ?_, hreads'.holds⟩
    refine hreads'.verifyIntegrity_iff.mpr ?_
    intro x hx
    rw [hroster]
    rcases List.mem_append.mp hx with hx | hx
    · exact hverified x hx
    · exact hsigs x hx

/-- **A torn audit write.** The log survives an append that stopped after `k` bytes exactly when none was written. -/
theorem unharmed_iff_uncut
    (hreads : Reads sha256 (fileSink dec) (written rs) c.toHead rs)
    (hverified : ∀ x ∈ rs, verifySignatures ed devAllowed c.roster x = .ok ()) :
    Unharmed sha256 ed devAllowed dec c rs r k ↔ k = 0 := by
  constructor
  · intro h
    by_contra hne
    exact not_unharmed (Nat.pos_of_ne_zero hne) h
  · rintro rfl
    exact unharmed_zero hreads hverified

end

/-! ## A log of one record -/

namespace TornGenesis

theorem mem_encMany {enc : UInt8 → List UInt8} {stop b : UInt8} {bs : List UInt8} (h : b ∈ encMany enc stop bs) :
    b = stop ∨ ∃ a ∈ bs, b ∈ enc a := by
  induction bs with
  | nil => exact .inl (List.mem_singleton.mp h)
  | cons a bs ih =>
      rcases List.mem_append.mp h with h | h
      · exact .inr ⟨a, List.mem_cons_self, h⟩
      · rcases ih h with h | ⟨a', ha', h⟩
        · exact .inl h
        · exact .inr ⟨a', List.mem_cons_of_mem _ ha', h⟩

/-- No symbol of base64 is printed with a brace. -/
theorem symbol_plain {s : Char} (h : Base64.IsSymbol s) :
    ∀ a ∈ String.utf8EncodeChar s, ∀ b ∈ escapeByte a, b ≠ 123 ∧ b ≠ 125 := by
  have hsize : ∀ n < 64, (Base64.symbol n).utf8Size = 1 := by decide +kernel
  have hbyte : ∀ n < 64, ∀ b ∈ escapeByte (Base64.symbol n).val.toUInt8, b ≠ 123 ∧ b ≠ 125 := by decide +kernel
  rcases h with rfl | ⟨n, hn, rfl⟩
  · decide +kernel
  · intro a ha b hb
    rw [String.utf8EncodeChar_eq_singleton (hsize n hn), List.mem_singleton] at ha
    rw [ha] at hb
    exact hbyte n hn b hb

theorem jsonString_plain (r : AuditRecord) {b : UInt8} (h : b ∈ jsonString (cborB64 r)) : b ≠ 123 ∧ b ≠ 125 := by
  have hquote : (34 : UInt8) ≠ 123 ∧ (34 : UInt8) ≠ 125 := by decide
  rcases List.mem_cons.mp h with rfl | h
  · exact hquote
  · rcases mem_encMany h with rfl | ⟨a, ha, hb⟩
    · exact hquote
    · have hutf8 : utf8 (cborB64 r) = (Base64.encode r.cbor).flatMap String.utf8EncodeChar := by
        unfold utf8 cborB64
        simp [List.utf8Encode]
      rw [hutf8] at ha
      obtain ⟨s, hs, ha⟩ := List.mem_flatMap.mp ha
      exact symbol_plain (Base64.isSymbol_of_mem hs) a ha b hb

/-- **An envelope has one brace at each end**, and no other. -/
theorem envelope_braces (r : AuditRecord) :
    ∃ inner, envelope r = 123 :: (inner ++ [125]) ∧ 123 ∉ inner ∧ 125 ∉ inner := by
  refine ⟨utf8 "\"sequence\":" ++ decimal r.sequence.toNat ++ utf8 ",\"cbor_b64\":" ++ jsonString (cborB64 r), ?_, ?_⟩
  · have hopen : utf8 "\x7b\"sequence\":" = 123 :: utf8 "\"sequence\":" := rfl
    have hclose : utf8 "\x7d" = [125] := rfl
    unfold envelope
    rw [hopen, hclose]
    simp
  · have hkey : ∀ b ∈ utf8 "\"sequence\":", b ≠ 123 ∧ b ≠ 125 := by decide +kernel
    have hkey' : ∀ b ∈ utf8 ",\"cbor_b64\":", b ≠ 123 ∧ b ≠ 125 := by decide +kernel
    have hall : ∀ b ∈ utf8 "\"sequence\":" ++ decimal r.sequence.toNat ++ utf8 ",\"cbor_b64\":" ++
        jsonString (cborB64 r), b ≠ 123 ∧ b ≠ 125 := by
      intro b hb
      simp only [List.mem_append] at hb
      rcases hb with ((hb | hb) | hb) | hb
      · exact hkey b hb
      · obtain ⟨-, hlt⟩ := mem_decimal hb
        refine ⟨?_, ?_⟩ <;> rintro rfl <;> exact absurd hlt (by decide)
      · exact hkey' b hb
      · exact jsonString_plain r hb
    exact ⟨fun h => (hall _ h).1 rfl, fun h => (hall _ h).2 rfl⟩

theorem envelope_injective : Function.Injective envelope := by
  intro r r' h
  unfold envelope at h
  have hbytes : utf8 "\x7b\"sequence\":" ++ (decimal r.sequence.toNat ++ [44] ++ (utf8 "\"cbor_b64\":" ++
      (jsonString (cborB64 r) ++ utf8 "\x7d"))) = utf8 "\x7b\"sequence\":" ++ (decimal r'.sequence.toNat ++ [44] ++
      (utf8 "\"cbor_b64\":" ++ (jsonString (cborB64 r') ++ utf8 "\x7d"))) := by
    have hcomma : utf8 ",\"cbor_b64\":" = [44] ++ utf8 "\"cbor_b64\":" := rfl
    rw [hcomma] at h
    simpa using h
  obtain ⟨-, hrest⟩ := @prefixFree_decimal 44 (by decide) _ _ _ _ (List.append_cancel_left hbytes)
  obtain ⟨hb64, -⟩ := prefixFree_jsonString _ _ _ _ (List.append_cancel_left hrest)
  have hchars : Base64.encode r.cbor = Base64.encode r'.cbor := String.ofList_injective hb64
  exact prefixFree_record.injective (Base64.encode_injective hchars)

open Classical in
/-- Decoders that accept what the encoders write, and nothing else. -/
noncomputable def decoders : Decoders where
  fromStr bs := if h : ∃ r, bs = envelope r then .ok (document h.choose) else .error "not an envelope"
  b64Decode s := if h : ∃ bs, s = String.ofList (Base64.encode bs) then .ok h.choose else .error "not base64"
  fromReader bs := if h : ∃ r : AuditRecord, bs = r.cbor then .ok h.choose else .error "not a record"
  fromStr_envelope r := by
    have h : ∃ r', envelope r = envelope r' := ⟨r, rfl⟩
    rw [dif_pos h, ← envelope_injective h.choose_spec]
  fromStr_torn r p hp hne := by
    refine ⟨_, dif_neg ?_⟩
    rintro ⟨r', rfl⟩
    obtain ⟨inner, henv, -, hclose⟩ := envelope_braces r
    obtain ⟨inner', henv', -, -⟩ := envelope_braces r'
    -- what is missing of the envelope ends in its closing brace, and so it has another one before
    obtain ⟨missing, hmissing⟩ := hp
    rcases List.eq_nil_or_concat missing with rfl | ⟨missing, b, rfl⟩
    · rw [List.append_nil] at hmissing
      exact hne hmissing
    · rw [henv, henv', List.concat_eq_append, List.cons_append, ← List.append_assoc] at hmissing
      obtain ⟨hinner, -⟩ := List.append_inj' (List.cons.inj hmissing).2 rfl
      apply hclose
      rw [← hinner]
      simp
  fromStr_glued r p r' hp hne := by
    refine ⟨_, dif_neg ?_⟩
    rintro ⟨r'', hglued⟩
    obtain ⟨inner', henv', -, -⟩ := envelope_braces r'
    obtain ⟨inner'', henv'', hopen, -⟩ := envelope_braces r''
    -- the second opening brace is inside what would have to be one envelope
    obtain ⟨b, p, rfl⟩ := List.exists_cons_of_ne_nil hne
    rw [henv', henv'', List.cons_append] at hglued
    have hmem : (123 : UInt8) ∈ inner'' ++ [125] := by
      rw [← (List.cons.inj hglued).2]
      simp
    rcases List.mem_append.mp hmem with hmem | hmem
    · exact hopen hmem
    · exact absurd (List.mem_singleton.mp hmem) (by decide)
  b64Decode_encode bs := by
    have h : ∃ bs', String.ofList (Base64.encode bs) = String.ofList (Base64.encode bs') := ⟨bs, rfl⟩
    have hchars := String.ofList_injective h.choose_spec
    rw [dif_pos h, ← Base64.encode_injective hchars]
  fromReader_cbor r := by
    have h : ∃ r' : AuditRecord, r.cbor = r'.cbor := ⟨r, rfl⟩
    rw [dif_pos h, ← prefixFree_record.injective h.choose_spec]

def info : GenesisInfo :=
  { agentDid := ⟨"did:citrate:agent:0xab12", by decide⟩
    harnessVersion := ⟨"0.4.0", by decide⟩
    policyBundleHash := Vector.replicate 32 0
    doctorReportHash := Vector.replicate 32 0 }

def genesis : AuditRecord := genesisRecord info ⟨encodeGenesisPayload info, by decide +kernel⟩ 1715000000

def opened : AuditChain := { (chain Sha256.hash).afterAll Head.start [genesis] with roster := none }

/-- The record whose append stops after its first byte. -/
def proposal : AuditRecord :=
  opened.recordOf
    { eventType := .proposal, payload := ⟨[], none_fit⟩, actor := ⟨"did:citrate:role:0xop", by decide⟩
      signatures := ⟨[], none_fit⟩, anchor := none, nowUnixNanos := 1715000001 }

/-- No signature is looked at here. -/
def noKeys : Ed25519 where
  Key := Empty
  fromBytes _ := .error "no key"
  verify vk := vk.elim

theorem reads : Reads Sha256.hash (fileSink decoders) (written [genesis]) opened.toHead [genesis] :=
  ⟨holds_written [genesis], by simp, ⟨⟨rfl, rfl, by decide⟩, trivial⟩, rfl⟩

theorem verified : ∀ x ∈ [genesis], verifySignatures noKeys false opened.roster x = .ok () := by
  intro x hx
  rw [List.mem_singleton.mp hx]
  rfl

/-- One byte of the second record is in the file, and the log does not open any more. -/
theorem does_not_survive :
    Reads Sha256.hash (fileSink decoders) (written [genesis]) opened.toHead [genesis] ∧
      (∀ c, openExisting Sha256.hash (fileSink decoders) (cut [genesis] proposal 1) ≠ .ok (some c)) ∧
      ¬ Unharmed Sha256.hash noKeys false decoders opened [genesis] proposal 1 := by
  refine ⟨reads, fun c => openExisting_torn (by decide) ?_, not_unharmed (by decide)⟩
  obtain ⟨inner, henv, -⟩ := envelope_braces proposal
  rw [henv]
  simp

theorem survives_iff_uncut : Unharmed Sha256.hash noKeys false decoders opened [genesis] proposal 1 ↔ 1 = 0 :=
  unharmed_iff_uncut reads verified

end TornGenesis

end AgentRuntime.Audit
