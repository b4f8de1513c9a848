import AgentRuntime.Audit.Chain

/-!
# `Audit.Integrity` — what an audit log survives, and what it detects

Along any run of appends and reopenings the writer's head stays the head of the log, so `verify_integrity`
counts every record and a reopened chain knows the same head. The other way round, the head of a log that opens
determines every hashed field of every record: the argument runs backwards along the links, and needs only
that the hash has no collision among the canonical encodings at hand.
-/

namespace AgentRuntime.Audit

open Hitl (SignerRoster Ed25519)
open Sha256 Words

/-- The log reads as contiguous records, at least one. -/
structure Reads {σ : Type} (sha256 : List UInt8 → Digest) (sink : AuditSink σ) (s : σ) (head : Head)
    (rs : List AuditRecord) : Prop where
  holds : sink.Holds s rs
  ne_nil : rs ≠ []
  contiguous : (chain sha256).Accepts Head.start rs
  head_eq : head = (chain sha256).afterAll Head.start rs

/-- The chain has been opened over what the sink stores now, by either opener; its roster is its own. -/
def Opened {σ : Type} (sha256 : List UInt8 → Digest) (sink : SoundSink σ) (c : AuditChain) (s : σ) : Prop :=
  ∃ c₀ : AuditChain, c.toHead = c₀.toHead ∧
    (openExisting sha256 sink.toAuditSink s = .ok (some c₀) ∨
      ∃ s₀ info now, sink.Whole s₀ ∧ openOrInit sha256 sink.toAuditSink s₀ info now = .ok (c₀, s))

/-- A run of successful appends. -/
inductive Appends {σ : Type} (sha256 : List UInt8 → Digest) (ed : Ed25519) (devAllowed : Bool) (sink : AuditSink σ) :
    AuditChain → σ → List AuditRecord → AuditChain → σ → Prop
  | nil (c : AuditChain) (s : σ) : Appends sha256 ed devAllowed sink c s [] c s
  | cons {c c' c'' : AuditChain} {s s' s'' : σ} {e : Event} {r : AuditRecord} {rs : List AuditRecord}
      (head : c.append sha256 sink ed devAllowed s e = .ok (r, c', s'))
      (tail : Appends sha256 ed devAllowed sink c' s' rs c'' s'') :
      Appends sha256 ed devAllowed sink c s (r :: rs) c'' s''

/-- What any number of sessions with one roster make of an empty sink: a chain opened on it, appended to and
    reopened, in any order. -/
inductive Session {σ : Type} (sha256 : List UInt8 → Digest) (ed : Ed25519) (devAllowed : Bool) (sink : SoundSink σ)
    (roster : Option SignerRoster) : AuditChain → σ → Prop
  | init {c : AuditChain} {s s' : σ} {info : GenesisInfo} {now : Int64} (whole : sink.Whole s)
      (empty : sink.Holds s []) (h : openOrInit sha256 sink.toAuditSink s info now = .ok (c, s')) :
      Session sha256 ed devAllowed sink roster { c with roster := roster } s'
  | append {c c' : AuditChain} {s s' : σ} {e : Event} {r : AuditRecord}
      (before : Session sha256 ed devAllowed sink roster c s)
      (h : c.append sha256 sink.toAuditSink ed devAllowed s e = .ok (r, c', s')) :
      Session sha256 ed devAllowed sink roster c' s'
  | reopen {c c' : AuditChain} {s : σ} (before : Session sha256 ed devAllowed sink roster c s)
      (h : openExisting sha256 sink.toAuditSink s = .ok (some c')) :
      Session sha256 ed devAllowed sink roster { c' with roster := roster } s
  | reinit {c c' : AuditChain} {s s' : σ} {info : GenesisInfo} {now : Int64}
      (before : Session sha256 ed devAllowed sink roster c s)
      (h : openOrInit sha256 sink.toAuditSink s info now = .ok (c', s')) :
      Session sha256 ed devAllowed sink roster { c' with roster := roster } s'

/-! ## Survival -/

section

variable {σ : Type} {sha256 : List UInt8 → Digest} {ed : Ed25519} {devAllowed : Bool}

namespace Reads

variable {sink : AuditSink σ} {s : σ} {head : Head} {rs : List AuditRecord}

/-- What a sink reads as is determined. -/
theorem unique {rs' : List AuditRecord} (h : sink.Holds s rs) (h' : sink.Holds s rs') : rs = rs' := by
  have heq : rs.map Except.ok = rs'.map Except.ok := Except.ok.inj (h.symm.trans h')
  exact List.map_injective_iff.mpr (fun _ _ h => Except.ok.inj h) heq

theorem openExisting_eq (h : Reads sha256 sink s head rs) :
    openExisting sha256 sink s = .ok (some { head with roster := none }) :=
  openExisting_some.mpr ⟨rs, h.holds, h.ne_nil, h.contiguous, by rw [h.head_eq]⟩

theorem of_openExisting {c : AuditChain} (h : openExisting sha256 sink s = .ok (some c)) :
    ∃ rs, Reads sha256 sink s c.toHead rs := by
  obtain ⟨rs, hholds, hne, hacc, rfl⟩ := openExisting_some.mp h
  exact ⟨rs, hholds, hne, hacc, rfl⟩

/-- The head counts the records. -/
theorem nextSequence_eq (h : Reads sha256 sink s head rs) : head.nextSequence = UInt64.ofNat rs.length := by
  rw [h.head_eq]
  have hacc := h.contiguous
  clear h
  induction rs using List.reverseRecOn with
  | nil => rfl
  | append_singleton rs r ih =>
      obtain ⟨hacc, -, hseq, -⟩ := (chain sha256).accepts_concat.mp hacc
      rw [Acceptor.afterAll_concat, List.length_append, List.length_singleton, UInt64.ofNat_add]
      show r.sequence + 1 = _
      rw [hseq, ih hacc]
      rfl

/-- **Verification of what reads as contiguous** is a matter of its signatures. -/
theorem verifyIntegrity_iff {c : AuditChain} (h : Reads sha256 sink s c.toHead rs) :
    c.verifyIntegrity sha256 sink ed devAllowed s = .ok c.nextSequence ↔
      ∀ r ∈ rs, verifySignatures ed devAllowed c.roster r = .ok () := by
  rw [AuditChain.verifyIntegrity_ok]
  constructor
  · rintro ⟨rs', hholds, -, hsigs, -⟩
    rw [unique h.holds hholds]
    exact hsigs
  · intro hsigs
    exact ⟨rs, h.holds, h.contiguous, hsigs, h.nextSequence_eq⟩

end Reads

variable {sink : SoundSink σ}

/-- **One append.** The log reads one record longer, and its signatures verify. -/
theorem Reads.append {c c' : AuditChain} {s s' : σ} {e : Event} {r : AuditRecord} {rs : List AuditRecord}
    (h : Reads sha256 sink.toAuditSink s c.toHead rs) (hwhole : sink.Whole s)
    (happend : c.append sha256 sink.toAuditSink ed devAllowed s e = .ok (r, c', s')) :
    Reads sha256 sink.toAuditSink s' c'.toHead (rs ++ [r]) ∧ sink.Whole s' ∧ c'.roster = c.roster ∧
      verifySignatures ed devAllowed c.roster r = .ok () := by
  obtain ⟨-, hadm, hsigs, hsink, rfl⟩ := AuditChain.append_ok.mp happend
  refine ⟨⟨sink.holds_append hwhole h.holds hsink, by simp, ?_, ?_⟩, sink.whole_append hwhole hsink, rfl, hsigs⟩
  · rw [Acceptor.accepts_concat, ← h.head_eq]
    exact ⟨h.contiguous, hadm⟩
  · rw [Acceptor.afterAll_concat, ← h.head_eq]

/-- **The first open.** An empty sink reads as the genesis record. -/
theorem Reads.genesis {c : AuditChain} {s s' : σ} {info : GenesisInfo} {now : Int64} (hwhole : sink.Whole s)
    (hempty : sink.Holds s []) (h : openOrInit sha256 sink.toAuditSink s info now = .ok (c, s')) :
    ∃ genesis, Reads sha256 sink.toAuditSink s' c.toHead [genesis] ∧ sink.Whole s' ∧ genesis.signatures.1 = [] := by
  rcases openOrInit_ok h with ⟨-, hopen⟩ | ⟨-, genesis, happend, hadm, hsigs, rfl⟩
  · rw [openExisting_none hempty] at hopen
    cases hopen
  · refine ⟨genesis, ⟨sink.holds_append hwhole hempty happend, by simp, ⟨hadm, trivial⟩, rfl⟩, ?_, hsigs⟩
    exact sink.whole_append hwhole happend

theorem Opened.reads {c : AuditChain} {s : σ} (h : Opened sha256 sink c s) :
    ∃ rs, Reads sha256 sink.toAuditSink s c.toHead rs := by
  obtain ⟨c₀, hhead, hopen | ⟨s₀, info, now, hwhole, hinit⟩⟩ := h
  · rw [hhead]
    exact Reads.of_openExisting hopen
  · rw [hhead]
    rcases openOrInit_ok hinit with ⟨rfl, hopen⟩ | ⟨hempty, -⟩
    · exact Reads.of_openExisting hopen
    · obtain ⟨genesis, hreads, -⟩ := Reads.genesis hwhole hempty hinit
      exact ⟨_, hreads⟩

/-- **A run of appends.** The log reads longer by what was appended, all of it verified. -/
theorem Appends.reads {c c' : AuditChain} {s s' : σ} {rs appended : List AuditRecord}
    (hrun : Appends sha256 ed devAllowed sink.toAuditSink c s appended c' s')
    (h : Reads sha256 sink.toAuditSink s c.toHead rs) (hwhole : sink.Whole s) :
    Reads sha256 sink.toAuditSink s' c'.toHead (rs ++ appended) ∧ c'.roster = c.roster ∧
      ∀ r ∈ appended, verifySignatures ed devAllowed c.roster r = .ok () := by
  induction hrun generalizing rs with
  | nil c s =>
      rw [List.append_nil]
      exact ⟨h, rfl, by simp⟩
  | cons hd tail ih =>
      obtain ⟨hreads, hwhole', hroster, hsigs⟩ := h.append hwhole hd
      obtain ⟨hreads', hroster', hsigs'⟩ := ih hreads hwhole'
      rw [hroster] at hroster' hsigs'
      rw [List.append_assoc] at hreads'
      refine ⟨hreads', hroster', ?_⟩
      intro r hr
      rcases List.mem_cons.mp hr with rfl | hr
      · exact hsigs
      · exact hsigs' r hr

/-- **Sessions.** Every record of the log verifies under the roster, whatever the order of the steps. -/
theorem Session.reads {roster : Option SignerRoster} {c : AuditChain} {s : σ}
    (h : Session sha256 ed devAllowed sink roster c s) :
    ∃ rs, Reads sha256 sink.toAuditSink s c.toHead rs ∧ sink.Whole s ∧ c.roster = roster ∧
      ∀ r ∈ rs, verifySignatures ed devAllowed roster r = .ok () := by
  have reopened : ∀ {c c' : AuditChain} {s : σ} {rs : List AuditRecord}, Reads sha256 sink.toAuditSink s c.toHead rs →
      openExisting sha256 sink.toAuditSink s = .ok (some c') → Reads sha256 sink.toAuditSink s c'.toHead rs := by
    intro c c' s rs hreads hopen
    obtain ⟨rs', hreads'⟩ := Reads.of_openExisting hopen
    rwa [Reads.unique hreads'.holds hreads.holds] at hreads'
  induction h with
  | init whole empty h =>
      obtain ⟨genesis, hreads, hwhole, hsigs⟩ := Reads.genesis whole empty h
      refine ⟨[genesis], hreads, hwhole, rfl, ?_⟩
      intro r hr
      rw [List.mem_singleton.mp hr]
      unfold verifySignatures
      rw [hsigs]
      rfl
  | append before h ih =>
      obtain ⟨rs, hreads, hwhole, rfl, hverified⟩ := ih
      obtain ⟨hreads', hwhole', hroster, hsigs⟩ := hreads.append hwhole h
      refine ⟨_, hreads', hwhole', hroster, ?_⟩
      intro r hr
      rcases List.mem_append.mp hr with hr | hr
      · exact hverified r hr
      · rw [List.mem_singleton.mp hr]
        exact hsigs
  | reopen before h ih =>
      obtain ⟨rs, hreads, hwhole, -, hverified⟩ := ih
      have hreads' := reopened hreads h
      exact ⟨rs, hreads', hwhole, rfl, hverified⟩
  | reinit before h ih =>
      obtain ⟨rs, hreads, hwhole, -, hverified⟩ := ih
      rcases openOrInit_ok h with ⟨rfl, hopen⟩ | ⟨hempty, -⟩
      · have hreads' := reopened hreads hopen
        exact ⟨rs, hreads', hwhole, rfl, hverified⟩
      · -- a log that has been opened is not empty
        exact absurd (Reads.unique hreads.holds hempty) hreads.ne_nil

end

/-! ## Detection -/

section

variable {σ τ : Type} {sha256 : List UInt8 → Digest}

@[simp] theorem recordHash_recordWithoutSigs (r : AuditRecord) :
    recordHash sha256 (recordWithoutSigs r) = recordHash sha256 r := rfl

/-- The records of a contiguous log, without what the hash leaves out, are a hash chain. -/
theorem linked_of_accepts {h : Head} {rs : List AuditRecord} (hacc : (chain sha256).Accepts h rs) :
    HashChain.Linked AuditRecord.previousHash (recordHash sha256) h.lastHash (rs.map recordWithoutSigs) ∧
      HashChain.endOf (recordHash sha256) h.lastHash (rs.map recordWithoutSigs) =
        ((chain sha256).afterAll h rs).lastHash := by
  induction rs generalizing h with
  | nil => exact ⟨trivial, rfl⟩
  | cons r rs ih =>
      obtain ⟨⟨hprev, -, -⟩, hrest⟩ := hacc
      obtain ⟨hlinked, hend⟩ := ih hrest
      exact ⟨⟨hprev, hlinked⟩, hend⟩

/-- The same next sequence number, the same number of records. -/
theorem Reads.length_eq {sink : BoundedSink σ} {sink' : BoundedSink τ} {s : σ} {s' : τ} {head head' : Head}
    {rs rs' : List AuditRecord} (h : Reads sha256 sink.toAuditSink s head rs)
    (h' : Reads sha256 sink'.toAuditSink s' head' rs') (hseq : head'.nextSequence = head.nextSequence) :
    rs.length = rs'.length := by
  have hlen := sink.iter_length h.holds
  have hlen' := sink'.iter_length h'.holds
  rw [List.length_map] at hlen hlen'
  rw [h.nextSequence_eq, h'.nextSequence_eq] at hseq
  have hval := congrArg UInt64.toNat hseq
  rw [UInt64.toNat_ofNat', UInt64.toNat_ofNat', Nat.mod_eq_of_lt hlen, Nat.mod_eq_of_lt hlen'] at hval
  exact hval.symm

/-- **The head determines the log**, as far as it is hashed. -/
theorem Reads.eq_of_head {sink : BoundedSink σ} {sink' : BoundedSink τ} {s : σ} {s' : τ} {head head' : Head}
    {rs rs' : List AuditRecord} (h : Reads sha256 sink.toAuditSink s head rs)
    (h' : Reads sha256 sink'.toAuditSink s' head' rs') (hseq : head'.nextSequence = head.nextSequence)
    (hhash : head'.lastHash = head.lastHash)
    (hcf : CollisionFreeOn sha256 ((rs ++ rs').map canonicalCbor)) :
    rs.map recordWithoutSigs = rs'.map recordWithoutSigs := by
  obtain ⟨hlinked, hend⟩ := linked_of_accepts h.contiguous
  obtain ⟨hlinked', hend'⟩ := linked_of_accepts h'.contiguous
  refine (hlinked.eq_of_end hlinked' ?_ ?_ ?_).1
  · rw [List.length_map, List.length_map, h.length_eq h' hseq]
  · rw [hend, hend', ← h.head_eq, ← h'.head_eq, hhash]
  · intro a ha b hb hab
    obtain ⟨x, hx, rfl⟩ := List.mem_map.mp ha
    obtain ⟨y, hy, rfl⟩ := List.mem_map.mp hb
    apply canonicalCbor_inj
    apply hcf
    · exact List.mem_map_of_mem (List.mem_append_left _ hx)
    · exact List.mem_map_of_mem (List.mem_append_right _ hy)
    · exact hab

/-- A log that reads has a next sequence number above zero. -/
theorem Reads.nextSequence_ne_zero {sink : BoundedSink σ} {s : σ} {head : Head} {rs : List AuditRecord}
    (h : Reads sha256 sink.toAuditSink s head rs) : head.nextSequence ≠ 0 := by
  intro hzero
  have hlen := sink.iter_length h.holds
  rw [List.length_map] at hlen
  rw [h.nextSequence_eq] at hzero
  have hval := congrArg UInt64.toNat hzero
  rw [UInt64.toNat_ofNat', Nat.mod_eq_of_lt hlen] at hval
  exact h.ne_nil (List.length_eq_zero_iff.mp hval)

/-- `verify_head` compares heads. -/
theorem Reads.verifyHead_iff {sink : BoundedSink τ} {s : τ} {c : AuditChain} {rs : List AuditRecord}
    (h : Reads sha256 sink.toAuditSink s c.toHead rs) {head : Head} :
    verifyHead c (head.nextSequence - 1) head.lastHash = .ok () ↔
      c.nextSequence = head.nextSequence ∧ c.lastHash = head.lastHash := by
  unfold verifyHead
  rw [if_neg h.nextSequence_ne_zero]
  by_cases hseq : c.nextSequence = head.nextSequence
  · by_cases hhash : c.lastHash = head.lastHash
    · simp [hseq, hhash]
    · simp [hseq, hhash]
  · have hsub : c.nextSequence - 1 ≠ head.nextSequence - 1 := fun heq => hseq ((UInt64.sub_left_inj 1).mp heq)
    simp [hseq, hsub]

end

/-- **The audit chain survives any history, and its head binds it.** -/
theorem chain_survives (sha256 : List UInt8 → Digest) (ed : Ed25519) (devAllowed : Bool) {σ τ : Type}
    (sink : BoundedSink σ) (sink' : BoundedSink τ) :
    -- any sessions with one roster, from an empty sink
    (∀ roster c s, Session sha256 ed devAllowed sink.toSoundSink roster c s →
      c.verifyIntegrity sha256 sink.toAuditSink ed devAllowed s = .ok c.nextSequence ∧
        openExisting sha256 sink.toAuditSink s = .ok (some { c.toHead with roster := none })) ∧
    -- appends to a log written before, perhaps under another roster
    (∀ c s rs appended c' s', Opened sha256 sink.toSoundSink c s → sink.Whole s → sink.Holds s rs →
      Appends sha256 ed devAllowed sink.toAuditSink c s appended c' s' →
      openExisting sha256 sink.toAuditSink s' = .ok (some { c'.toHead with roster := none }) ∧
        (c'.verifyIntegrity sha256 sink.toAuditSink ed devAllowed s' = .ok c'.nextSequence ↔
          ∀ r ∈ rs, verifySignatures ed devAllowed c.roster r = .ok ())) ∧
    -- the same head, the same hashed fields
    (∀ c s c' s', Opened sha256 sink.toSoundSink c s → Opened sha256 sink'.toSoundSink c' s' →
      ∃ rs rs', sink.Holds s rs ∧ sink'.Holds s' rs' ∧
        (verifyHead c' (c.nextSequence - 1) c.lastHash = .ok () ↔
          c'.nextSequence = c.nextSequence ∧ c'.lastHash = c.lastHash) ∧
        (CollisionFreeOn sha256 ((rs ++ rs').map canonicalCbor) → c'.nextSequence = c.nextSequence →
          c'.lastHash = c.lastHash → rs.map recordWithoutSigs = rs'.map recordWithoutSigs)) ∧
    -- a truncated log is empty, or has another head
    (∀ c s rs s' rs', Opened sha256 sink.toSoundSink c s → sink.Holds s rs → sink'.Holds s' rs' → rs' <+: rs → rs' ≠ rs →
      (rs' = [] → openExisting sha256 sink'.toAuditSink s' = .ok none) ∧
        ∀ c', Opened sha256 sink'.toSoundSink c' s' → ∃ e, verifyHead c' (c.nextSequence - 1) c.lastHash = .error e) := by
  refine ⟨?_, ?_, ?_, ?_⟩
  · intro roster c s h
    obtain ⟨rs, hreads, -, hroster, hverified⟩ := h.reads
    refine ⟨hreads.verifyIntegrity_iff.mpr ?_, hreads.openExisting_eq⟩
    rw [hroster]
    exact hverified
  · intro c s rs appended c' s' hopened hwhole hholds hrun
    obtain ⟨rs₀, hreads₀⟩ := hopened.reads
    obtain rfl := Reads.unique hreads₀.holds hholds
    obtain ⟨hreads, hroster, hsigs⟩ := hrun.reads hreads₀ hwhole
    refine ⟨hreads.openExisting_eq, ?_⟩
    rw [hreads.verifyIntegrity_iff, hroster]
    constructor
    · intro h r hr
      exact h r (List.mem_append_left _ hr)
    · intro h r hr
      rcases List.mem_append.mp hr with hr | hr
      · exact h r hr
      · exact hsigs r hr
  · intro c s c' s' hopened hopened'
    obtain ⟨rs, hreads⟩ := hopened.reads
    obtain ⟨rs', hreads'⟩ := hopened'.reads
    refine ⟨rs, rs', hreads.holds, hreads'.holds, hreads'.verifyHead_iff, ?_⟩
    intro hcf hseq hhash
    exact hreads.eq_of_head hreads' hseq hhash hcf
  · intro c s rs s' rs' hopened hholds hholds' hbegin hne
    refine ⟨?_, ?_⟩
    · rintro rfl
      exact openExisting_none hholds'
    · intro c' hopened'
      obtain ⟨rs₀, hreads⟩ := hopened.reads
      obtain rfl := Reads.unique hreads.holds hholds
      obtain ⟨rs₀', hreads'⟩ := hopened'.reads
      obtain rfl := Reads.unique hreads'.holds hholds'
      cases hverify : verifyHead c' (c.nextSequence - 1) c.lastHash with
      | error e => exact ⟨e, rfl⟩
      | ok u =>
          -- the same head counts the same number of records, and a proper beginning has fewer
          have hlen := hreads.length_eq hreads' (hreads'.verifyHead_iff.mp hverify).1
          exact absurd (hbegin.eq_of_length hlen.symm) hne

end AgentRuntime.Audit
