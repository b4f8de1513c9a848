import AgentRuntime.Records.Session

/-!
# `Records.Agreement` — writer and verifier agree on every run

After each acknowledged call the strict walk of the directory is computed twice over: by the walk
itself (`Describes.walk_eq`) and by the writer's memory (`Inner.Follows`), both against the same
abstract log. `writer_verifier_agree` reads the two off each other.

The agreement ends where segment names stop reading back: the segment that `rotate` starts at
`segNameBound` is written but never listed, so the record in it is missing from every later walk
(`unlisted_segment_truncates`).
-/

namespace AgentRuntime.Records

open Transition Words

/-! ## The open set, read off the acknowledged calls -/

/-- The call records an allowing decision. -/
def Call.allows (c : Call) : Prop := ∃ d, c.entry = .decision d ∧ d.decision.expectsOutcome = true

/-- The call closes decision `seq`. -/
def Call.closes (c : Call) (seq : ℕ) : Prop := ∃ o, c.entry = .outcome o ∧ o.decisionSeq = seq

/-- Decision `seq` was acknowledged, allows an effect, and no outcome of it was acknowledged. -/
def Session.Awaits (s : Session) (seq : ℕ) : Prop :=
  (∃ a ∈ s.acked, a.1.allows ∧ a.2.seq = seq) ∧ ¬ ∃ a ∈ s.acked, a.1.closes seq

theorem exists_mem_iff_of_forall₂ {α β : Type} {R : α → β → Prop} {p : α → Prop} {q : β → Prop}
    (hpq : ∀ a b, R a b → (p a ↔ q b)) {as : List α} {bs : List β} (h : List.Forall₂ R as bs) :
    (∃ a ∈ as, p a) ↔ ∃ b ∈ bs, q b := by
  induction h with
  | nil => simp
  | cons hab _ ih => simp [hpq _ _ hab, ih]

theorem allows_iff {stored : StoredRecord} {a : Call × Receipt} (h : Acknowledges stored a)
    (seq : ℕ) : stored.allows ∧ stored.record.seq = seq ↔ a.1.allows ∧ a.2.seq = seq := by
  rw [h.receipt, StoredRecord.allows, Call.allows, h.entry]
  rfl

theorem closes_iff {stored : StoredRecord} {a : Call × Receipt} (h : Acknowledges stored a)
    (seq : ℕ) : stored.closes seq ↔ a.1.closes seq := by
  rw [StoredRecord.closes, Call.closes, h.entry]

variable {sha256 : List UInt8 → Digest} (serde : Serde) {cfg : LogConfig}

theorem awaits_iff {s : Session} {L : Log} (hchain : (recordChain sha256).Accepts Cursor.genesis L.hist)
    (hacked : List.Forall₂ Acknowledges L.hist s.acked) {seq : ℕ} :
    seq ∈ L.cursor.openSet ↔ s.Awaits seq := by
  have hallows : (∃ r ∈ L.hist, r.allows ∧ r.record.seq = seq) ↔
      ∃ a ∈ s.acked, a.1.allows ∧ a.2.seq = seq :=
    exists_mem_iff_of_forall₂ (p := fun r => r.allows ∧ r.record.seq = seq)
      (q := fun a => a.1.allows ∧ a.2.seq = seq) (fun _ _ h => allows_iff h seq) hacked
  have hcloses : (∃ r ∈ L.hist, r.closes seq) ↔ ∃ a ∈ s.acked, a.1.closes seq :=
    exists_mem_iff_of_forall₂ (p := fun r => r.closes seq) (q := fun a => a.1.closes seq)
      (fun _ _ h => closes_iff h seq) hacked
  rw [Log.cursor, mem_openSet_afterAll hchain, Session.Awaits, hallows, hcloses]

/-! ## A call that returns Ok -/

/-- An acknowledged call appends its record to the log, and the memory follows. -/
theorem exists_of_call_ok {s : Session} {L : Log} (h : s.Logged sha256 [] L) {c : Call}
    (hlisted : s.RotationListed sha256 cfg c) {receipt : Receipt}
    (hok : (record sha256 serde cfg.clamped s.inner s.dir c).result = .ok receipt) :
    ∃ L' stored, Describes (s.call sha256 serde cfg c).dir L' ∧ L'.Ok sha256 ∧
      (s.call sha256 serde cfg c).inner.Follows L' ∧
      List.Forall₂ Acknowledges L'.hist (s.call sha256 serde cfg c).acked ∧
      receipt = receiptFor stored ∧ L'.hist = L.hist ++ [stored] ∧ stored ∈ L'.cur := by
  obtain ⟨acked, extra, hhist, hacked, -, hfailed | ⟨rfl, hfollows⟩⟩ := h.history
  · -- a failed writer acknowledges nothing
    have hacc : ¬ Accepted s.inner c := by
      intro hacc
      rw [hacc.failed] at hfailed
      cases hfailed
    obtain ⟨e, hrefused⟩ : ∃ e, record sha256 serde cfg.clamped s.inner s.dir c =
        { result := .error e, inner := s.inner, steps := [] } := record_refused serde hacc
    rw [hrefused] at hok
    cases hok
  · obtain ⟨L', hrun, hleaves⟩ :=
      record_steps serde (one_le_of_clamped cfg) h.describes h.ok hfollows hlisted
    obtain ⟨hdescribes, hok'⟩ := describes_steps hrun.steps h.describes h.ok
    cases hleaves with
    | appended hresult hfollows' hhist' hcur =>
        refine ⟨L', _, hdescribes, hok', hfollows', ?_, ?_, hhist', hcur⟩
        · rw [hhist', hhist, List.append_nil, List.nil_append]
          simp only [Session.call, hresult]
          exact forall₂_concat hacked ⟨rfl, rfl, rfl⟩
        · rw [hresult] at hok
          exact (Except.ok.inj hok).symm
    | refused e hresult =>
        rw [hresult] at hok
        cases hok
    | failed e hresult =>
        rw [hresult] at hok
        cases hok

/-! ## The walk of a quiet log -/

/-- Every walk of a quiet log accepts it, with `HEAD` at the tip. -/
theorem walk_quiet {d : Dir} {L : Log} (hd : Describes d L) (h : L.Ok sha256) (hq : L.Quiet)
    (mode : Mode) :
    ∃ n stale, walk sha256 serde d.view mode =
      .ok (walkedOf (checkpointFor L.pruned) n L.retained false none stale, L.retained) := by
  have htorn : tornMark mode L.index L.cur L.tail = none := by
    rw [hq.tail]
    cases mode <;> rfl
  refine ⟨d.view.segs.length, staleIndices L.stale, ?_⟩
  rw [hd.walk_eq h (Or.inl hq.tail), hq.head, h.checkHead_current, htorn]
  rfl

/-! ## Agreement -/

/-- **Writer and verifier agree on every run.** In a run whose rotations start segments that read
    back, after a call that returns `Ok`: the strict walk accepts the directory, its tip is the
    receipt, `HEAD` does not lag, the retained `seq` run from the checkpoint to the tip with timestamps
    that never decrease, and the open decisions are the writer's, which are the acknowledged allowing
    decisions without an acknowledged outcome. -/
theorem writer_verifier_agree (sha256 : List UInt8 → Digest) (serde : Serde) (cfg : LogConfig)
    (s : Session)
    (hs : Session.Reachable sha256 serde cfg (Session.RotationListed sha256 cfg) s)
    (c : Call) (hlisted : s.RotationListed sha256 cfg c) (receipt : Receipt)
    (hok : (record sha256 serde cfg.clamped s.inner s.dir c).result = .ok receipt) :
    ∃ report w visited,
      verifyDir sha256 serde (s.call sha256 serde cfg c).dir = .ok report ∧
      walk sha256 serde (s.call sha256 serde cfg c).dir.view .strict = .ok (w, visited) ∧
      report.tip = some (receipt.seq, receipt.hash) ∧ report.headLag = false ∧
      floorOf w.checkpoint ≤ receipt.seq ∧
      visited.map (fun r => r.record.seq) =
        List.range' (floorOf w.checkpoint) (receipt.seq + 1 - floorOf w.checkpoint) ∧
      (visited.map fun r => r.record.tsMs).Pairwise (· ≤ ·) ∧
      report.openDecisions = (s.call sha256 serde cfg c).inner.openSet.sort (· ≤ ·) ∧
      ∀ seq, seq ∈ (s.call sha256 serde cfg c).inner.openSet ↔
        (s.call sha256 serde cfg c).Awaits seq := by
  obtain ⟨L, hL⟩ := exists_logged serde hs
  obtain ⟨L', stored, hd, h, hfollows, hacked, rfl, hhist, hcur⟩ :=
    exists_of_call_ok serde hL hlisted hok
  obtain ⟨n, stale, hwalk⟩ := walk_quiet serde hd h hfollows.quiet .strict
  -- the acknowledged record is the last retained one
  have hne : L'.retained ≠ [] := List.ne_nil_of_mem (List.mem_append_right _ hcur)
  obtain ⟨last, hlast, hhistLast, hseq, -⟩ := h.tip_eq hne
  rw [hhist, List.getLast?_concat, Option.some_inj] at hhistLast
  subst hhistLast
  have hlen := L'.length_hist
  have hfloor := h.floor_eq
  have hpos := List.length_pos_of_ne_nil hne
  have hopen : (s.call sha256 serde cfg c).inner.openSet = L'.cursor.openSet := hfollows.openSet
  refine ⟨(walkedOf (checkpointFor L'.pruned) n L'.retained false none stale).report, _,
    L'.retained, ?_, hwalk, ?_, rfl, ?_, ?_, ?_, ?_, ?_⟩
  · rw [verifyDir, hwalk]
    rfl
  · simp only [Walked.report, walkedOf, hlast]
    rfl
  · simp only [walkedOf, hfloor, receiptFor]
    omega
  · have hseqs := map_seq_of_accepts h.chain_retained
    have hnext := nextSeq_afterAll h.chain_pruned
    simp only [walkedOf, hfloor, receiptFor]
    rw [hseqs, hnext]
    simp only [Cursor.genesis]
    congr 1
    · omega
    · omega
  · exact (sorted_ts_of_accepts h.chain_retained).1
  · simp only [Walked.report, walkedOf, openSet_retained, hopen]
  · intro seq
    rw [hopen]
    exact awaits_iff h.chain hacked

/-! ### An acknowledged decision -/

/-- An approval. -/
def approval : Call where
  now := 1000
  actor := { kind := .member, id := "m" }
  entry := .decision
    { tier := .hic1, kind := "tool.exec", subject := "s", decision := .approved, reason := "",
      evidence := [] }
  fault := .none

/-- The approval is accepted by every writer that has not failed. -/
theorem accepted_approval {g : Inner} (h : g.failed = false) : Accepted g approval :=
  ⟨h, by decide +kernel, by decide +kernel, rfl⟩

/-- A session over an empty directory. -/
def freshSession : Session where
  inner := freshInner
  dir := Dir.empty.applyAll [.createSeg 1]
  acked := []

theorem opened_freshSession (sha256 : List UInt8 → Digest) (serde : Serde) (cfg : LogConfig) :
    freshSession.Opened sha256 serde cfg := by
  refine ⟨fun _ => 0, .clean, ?_, ?_, rfl⟩
  · rw [openWithClock_empty]
    rfl
  · rw [openWithClock_empty]
    rfl

/-- An append into an empty segment does not rotate. -/
theorem record_of_empty {cfg : LogConfig} {g : Inner} {d : Dir} {c : Call} (hacc : Accepted g c)
    (hlen : g.segLen = 0) :
    record sha256 serde cfg g d c = writeRecord g (c.stored sha256 g) c.fault := by
  have hrot : ¬ mustRotate cfg g (c.stored sha256 g) := by
    rintro ⟨hpos, -⟩
    omega
  rw [record_accepted serde hacc, if_neg hrot]

/-- The log after its first approval. -/
def approvedLog (stored : StoredRecord) : Log :=
  { Log.init.push stored with headAt := (Log.init.push stored).hist.length }

/-- The first approval is acknowledged, and the memory follows the log it leaves. -/
theorem approved (sha256 : List UInt8 → Digest) (serde : Serde) (cfg : LogConfig) :
    Describes (freshSession.call sha256 serde cfg approval).dir
        (approvedLog (approval.stored sha256 freshInner)) ∧
      (approvedLog (approval.stored sha256 freshInner)).Ok sha256 ∧
      (freshSession.call sha256 serde cfg approval).inner.Follows
        (approvedLog (approval.stored sha256 freshInner)) := by
  have hacc : Accepted freshInner approval := accepted_approval rfl
  have hadm : Log.init.cursor.Admits sha256 (approval.stored sha256 freshInner) :=
    admits_stored follows_init hacc
  have hrecord : record sha256 serde cfg.clamped freshInner freshSession.dir approval =
      writeRecord freshInner (approval.stored sha256 freshInner) .none :=
    record_of_empty serde hacc rfl
  simp only [Session.call, freshSession] at hrecord ⊢
  rw [hrecord]
  generalize approval.stored sha256 freshInner = stored at hadm
  have hrun : Log.StepsIn sha256 (Log.init.Appending stored) Log.init _ (approvedLog stored) :=
    (writeStored_steps follows_init.quiet hadm).append (.single (headStep Log.init stored))
  obtain ⟨hd, h⟩ := describes_steps hrun.steps describes_init ok_init
  exact ⟨hd, h, follows_push follows_init hadm⟩

/-- The first approval of a log is acknowledged, and is the tip the verifier reports. -/
theorem writer_verifier_agree_approval :
    ∃ report, verifyDir Sha256.hash Serde.canonical
        (freshSession.call Sha256.hash Serde.canonical ⟨1, some 1⟩ approval).dir = .ok report ∧
      report.tip = some (0, (approval.stored Sha256.hash freshInner).hash) ∧
      report.headLag = false := by
  have hacc : Accepted freshInner approval := accepted_approval rfl
  have hok : (record Sha256.hash Serde.canonical (LogConfig.clamped ⟨1, some 1⟩) freshInner
      freshSession.dir approval).result
      = .ok (receiptFor (approval.stored Sha256.hash freshInner)) := by
    rw [record_of_empty _ hacc rfl]
    rfl
  have hlisted : Session.RotationListed Sha256.hash ⟨1, some 1⟩ freshSession approval := by
    intro _ _
    decide
  obtain ⟨report, -, -, hverify, -, htip, hlag, -⟩ :=
    writer_verifier_agree Sha256.hash Serde.canonical ⟨1, some 1⟩ freshSession
      (.start (opened_freshSession _ _ _)) approval hlisted _ hok
  exact ⟨report, hverify, htip, hlag⟩

/-! ## The segment that is never listed -/

theorem head_applyAll_writeLine (d : Dir) (i : ℕ) (bytes : List UInt8) :
    (d.applyAll (writeLine i bytes)).head = d.head ∧
      (d.applyAll (writeLine i bytes)).checkpoint = d.checkpoint := by
  induction bytes generalizing d with
  | nil => exact ⟨rfl, rfl⟩
  | cons b bytes ih => exact ih (d.apply (.writeByte i b))

theorem entries_applyAll_writeLine {d : Dir} {i : ℕ} {init : List (ℕ × List UInt8)}
    {before : List UInt8} (hd : d.segs.entries = init ++ [(i, before)]) (bytes : List UInt8) :
    (d.applyAll (writeLine i bytes)).segs.entries = init ++ [(i, before ++ bytes)] := by
  induction bytes generalizing d before with
  | nil =>
      rw [List.append_nil]
      exact hd
  | cons b bytes ih =>
      have hstep : (d.apply (.writeByte i b)).segs.entries = init ++ [(i, before ++ [b])] :=
        entries_modify_last _ hd
      rw [List.append_cons before b bytes]
      exact ih hstep

/-- A line in a file past `segNameBound`: the file is there, and is not listed. -/
theorem unlisted_written {d : Dir} {L : Log} (hd : Describes d L) (h : L.Ok sha256) {i : ℕ}
    (hi : segNameBound ≤ i) (hfresh : i ∉ d.segs.entries.map Prod.fst) (line : List UInt8) :
    ((d.apply (.createSeg i)).applyAll (writeLine i line)).segs.entries = L.entries ++ [(i, line)] ∧
      ((d.apply (.createSeg i)).applyAll (writeLine i line)).checkpoint = d.checkpoint ∧
      ((d.apply (.createSeg i)).applyAll (writeLine i line)).view.segs = d.view.segs := by
  have hle := h.deleted_le.trans h.covered_le
  have hcreated : (d.apply (.createSeg i)).segs.entries = L.entries ++ [(i, [])] := by
    change (d.segs.create _).entries = _
    rw [entries_create hfresh, hd.entries]
  have hwritten := entries_applyAll_writeLine hcreated line
  refine ⟨hwritten, (head_applyAll_writeLine (d.apply (.createSeg i)) i line).2, ?_⟩
  have hunlisted : ∀ e ∈ [(i, [] ++ line)], segNameBound ≤ e.1 := by
    intro e he
    rw [List.mem_singleton.mp he]
    exact hi
  rw [view_segs_of_sorted hwritten (entries_sorted hle) (entries_listed hle h.listed) hunlisted, hd.view_segs h]

/-- A file past `segNameBound` is not listed: `HEAD` names a record in it, and the walk misses it. -/
theorem verifyDir_unlisted {d : Dir} {L : Log} (hd : Describes d L) (h : L.Ok sha256)
    (htail : L.tail = []) (hne : L.cur ≠ []) {i : ℕ} (hi : segNameBound ≤ i)
    (hfresh : i ∉ d.segs.entries.map Prod.fst) (line : List UInt8) {head : Head}
    (hhead : head.seq = L.hist.length) :
    verifyDir sha256 serde
      (d.applyAll ([.createSeg i] ++ (writeLine i line ++ [.replaceHead head]))) =
        .error (.integrity (.truncated L.hist.length (some (L.hist.length - 1)))) := by
  rw [applyAll_append, applyAll_append, applyAll_cons, applyAll_nil, applyAll_cons, applyAll_nil]
  obtain ⟨-, hcheckpoint, hview⟩ := unlisted_written hd h hi hfresh line
  generalize (d.apply (.createSeg i)).applyAll (writeLine i line) = written at hcheckpoint hview ⊢
  have hlaid := hd.laidOut h
  have hlaid' : (written.apply (.replaceHead head)).view.LaidOut sha256 (some head)
      (checkpointFor L.pruned) L.stale L.live (L.index, L.cur) L.tail := by
    refine ⟨rfl, ?_, ?_, hlaid.tail, hlaid.stale_lt, hlaid.stale_hash, hlaid.chain⟩
    · change readJsonFile written.checkpoint = _
      rw [hcheckpoint]
      exact hlaid.checkpoint_eq
    · change written.view.segs = _
      rw [hview]
      exact hlaid.segs
  have hretained : L.retained ≠ [] := by
    intro hnil
    exact hne (List.append_eq_nil_iff.mp hnil).2
  obtain ⟨last, hlast, -, hseq, -⟩ := h.tip_eq hretained
  have hpast : head.seq > last.record.seq := by omega
  have hcheck : checkHead .strict (some head) (checkpointFor L.pruned) (some last.tip)
      (hashAt (some head) L.retained)
      = .error (.integrity (.truncated head.seq (some last.record.seq))) := by
    simp only [checkHead, StoredRecord.tip]
    exact if_pos hpast
  have hwalk : walk sha256 serde (written.apply (.replaceHead head)).view .strict =
      .error (.integrity (.truncated head.seq (some last.record.seq))) := by
    rw [walk_laidOut hlaid' (Or.inl htail)]
    simp only [Log.live_flatMap, hlast, Option.map_some, hcheck]
    rfl
  rw [verifyDir, hwalk, hhead, ← hseq, Nat.add_sub_cancel]
  rfl

/-- A rotation to `segNameBound` succeeds. -/
theorem rotate_unlisted {g : Inner} {d : Dir} {L : Log} (hd : Describes d L) (h : L.Ok sha256)
    (hf : g.Follows L) (hbound : L.index + 1 = segNameBound) (hcfg : cfg.maxSegments = none) :
    (segNameBound ∉ d.segs.entries.map Prod.fst) ∧ rotate serde cfg g d =
      { result := .ok ()
        inner := { g with segIndex := segNameBound, segLen := 0, segCount := g.segCount + 1 }
        steps := [.createSeg segNameBound] } := by
  have hle := h.deleted_le.trans h.covered_le
  have hindex : g.segIndex + 1 = segNameBound := by rw [hf.segIndex, hbound]
  have hadd : checkedAdd u32Bound g.segIndex 1 = some segNameBound :=
    checkedAdd_eq_some.mpr ⟨hindex.symm, hindex.le.trans_lt segNameBound_lt_u32Bound⟩
  have hfresh : segNameBound ∉ d.segs.entries.map Prod.fst := by
    rw [hd.entries, map_fst_entries hle, List.mem_range'_1, ← hindex, hf.segIndex, Log.index]
    omega
  have hcontains : ¬ d.segs.contains segNameBound = true := fun hc =>
    hfresh (SegFiles.contains_iff.mp hc)
  refine ⟨hfresh, ?_⟩
  simp only [rotate, hadd, if_neg hcontains, hcfg]

/-- A call that rotates to `segNameBound` writes its record there. -/
theorem record_unlisted {g : Inner} {d : Dir} {L : Log} (hd : Describes d L) (h : L.Ok sha256)
    (hf : g.Follows L) (hbound : L.index + 1 = segNameBound) {c : Call} (hacc : Accepted g c)
    (hfault : c.fault = .none) (hcfg : cfg.maxSegments = none) (hrot : mustRotate cfg g (c.stored sha256 g)) :
    (segNameBound ∉ d.segs.entries.map Prod.fst) ∧
      (record sha256 serde cfg g d c).result = .ok (receiptFor (c.stored sha256 g)) ∧
      (record sha256 serde cfg g d c).steps = [.createSeg segNameBound] ++
        (writeLine segNameBound ((c.stored sha256 g).toVec ++ [10]) ++
          [.replaceHead { seq := (c.stored sha256 g).record.seq, hash := (c.stored sha256 g).hash }]) := by
  obtain ⟨hfresh, hrotate⟩ := rotate_unlisted serde hd h hf hbound hcfg
  rw [record_accepted serde hacc, if_pos hrot, hrotate, hfault]
  exact ⟨hfresh, rfl, rfl⟩

/-- **The record in an unlisted segment is lost to every walk.** When a call rotates to
    `segNameBound`, it is acknowledged, and the strict walk then finds the log truncated. -/
theorem unlisted_segment_truncates {g : Inner} {d : Dir} {L : Log} (hd : Describes d L)
    (h : L.Ok sha256) (hf : g.Follows L) (hbound : L.index + 1 = segNameBound) (hne : L.cur ≠ [])
    {c : Call} (hacc : Accepted g c) (hfault : c.fault = .none) (hcfg : cfg.maxSegments = none)
    (hrot : mustRotate cfg g (c.stored sha256 g)) :
    (record sha256 serde cfg g d c).result = .ok (receiptFor (c.stored sha256 g)) ∧
      verifyDir sha256 serde (d.applyAll (record sha256 serde cfg g d c).steps) =
        .error (.integrity (.truncated L.hist.length (some (L.hist.length - 1)))) := by
  obtain ⟨hfresh, hok, hsteps⟩ := record_unlisted serde hd h hf hbound hacc hfault hcfg hrot
  have hseq : (c.stored sha256 g).record.seq = L.hist.length := hf.nextSeq.trans h.nextSeq_cursor
  rw [hsteps]
  exact ⟨hok, verifyDir_unlisted serde hd h hf.quiet.tail hne le_rfl hfresh _ hseq⟩

/-! ### A run that reaches it -/

/-- One record a segment, all of them kept. -/
def oneRecordSegments : LogConfig := { maxSegmentBytes := 1, maxSegments := none }

theorem mustRotate_oneRecord {g : Inner} (hpos : 0 < g.segLen) (stored : StoredRecord) :
    mustRotate oneRecordSegments.clamped g stored := by
  refine ⟨hpos, ?_⟩
  change g.segLen + _ > 1
  rw [List.length_append, List.length_singleton]
  omega

theorem segLen_pos {g : Inner} {L : Log} (hf : g.Follows L) (hne : L.cur ≠ []) : 0 < g.segLen := by
  obtain ⟨r, rs, hcur⟩ := List.exists_cons_of_ne_nil hne
  rw [hf.segLen, hcur, encodeSeg_cons, List.length_append, List.length_cons]
  omega

/-- One more approval. -/
theorem reach_approval {s : Session} {L : Log}
    (hs : Session.Reachable sha256 serde cfg (Session.RotationListed sha256 cfg) s) (hL : s.Logged sha256 [] L)
    (hf : s.inner.Follows L) (hlisted : s.RotationListed sha256 cfg approval) :
    ∃ t L', Session.Reachable sha256 serde cfg (Session.RotationListed sha256 cfg) t ∧ t.Logged sha256 [] L' ∧
      t.inner.Follows L' ∧ L'.cur ≠ [] ∧
      L'.index = if mustRotate cfg.clamped s.inner (approval.stored sha256 s.inner)
        then L.index + 1 else L.index := by
  obtain ⟨hok, hindex⟩ := record_ok serde (one_le_of_clamped cfg) hL.describes hL.ok hf
    (accepted_approval hf.failed) rfl hlisted
  obtain ⟨L', stored, hd', h', hf', hacked, -, -, hcur⟩ := exists_of_call_ok serde hL hlisted hok
  refine ⟨s.call sha256 serde cfg approval, L', .next hs ⟨hlisted, rfl⟩,
    logged_of_follows hd' h' hf' rfl hacked, hf', List.ne_nil_of_mem hcur, ?_⟩
  rw [← hf'.segIndex, ← hf.segIndex]
  exact hindex

/-- A run stays one without its condition. -/
theorem reachable_any {cond : Session → Call → Prop} {s : Session}
    (h : Session.Reachable sha256 serde cfg cond s) : Session.Reachable sha256 serde cfg (fun _ _ => True) s :=
  h.mono fun _ _ _ hstep => ⟨trivial, hstep.2⟩

/-- Approvals that take a segment each reach every listed segment. -/
theorem exists_session_at (sha256 : List UInt8 → Digest) (serde : Serde) (n : ℕ)
    (hn : n + 1 < segNameBound) :
    ∃ s L, Session.Reachable sha256 serde oneRecordSegments (Session.RotationListed sha256 oneRecordSegments) s ∧
      s.Logged sha256 [] L ∧ s.inner.Follows L ∧ L.cur ≠ [] ∧ L.index = n + 1 := by
  induction n with
  | zero =>
      have hopened := opened_freshSession sha256 serde oneRecordSegments
      have hrot : ¬ mustRotate oneRecordSegments.clamped freshInner
          (approval.stored sha256 freshInner) := by
        rintro ⟨hpos, -⟩
        exact absurd hpos (Nat.lt_irrefl 0)
      obtain ⟨t, L', ht, hL', hf', hcur, hindex⟩ :=
        reach_approval serde (.start hopened) (logged_of_opened serde hopened) follows_init
          (fun _ hrot' => absurd hrot' hrot)
      refine ⟨t, L', ht, hL', hf', hcur, hindex.trans (if_neg hrot)⟩
  | succ n ih =>
      obtain ⟨s, L, hs, hL, hf, hcur, hindex⟩ := ih (Nat.lt_of_succ_lt hn)
      have hrot := mustRotate_oneRecord (segLen_pos hf hcur) (approval.stored sha256 s.inner)
      have hlisted : s.RotationListed sha256 oneRecordSegments approval := by
        intro _ _
        rw [hf.segIndex, hindex]
        exact hn
      obtain ⟨t, L', ht, hL', hf', hcur', hindex'⟩ := reach_approval serde hs hL hf hlisted
      refine ⟨t, L', ht, hL', hf', hcur', ?_⟩
      rw [hindex', if_pos hrot, hindex]

/-- Without the condition on rotations, the agreement fails: a run of approvals that take a segment
    each ends in an acknowledged record the verifier cannot see. -/
theorem agreement_fails_unlisted :
    ∃ s c receipt report, Session.Reachable Sha256.hash Serde.canonical oneRecordSegments
        (fun _ _ => True) s ∧
      (record Sha256.hash Serde.canonical oneRecordSegments.clamped s.inner s.dir c).result
        = .ok receipt ∧
      verifyDir Sha256.hash Serde.canonical
        (s.call Sha256.hash Serde.canonical oneRecordSegments c).dir
        = .error (.integrity (.truncated receipt.seq report)) := by
  have hn : segNameBound - 2 + 1 < segNameBound := by decide
  obtain ⟨s, L, hs, hL, hf, hcur, hindex⟩ :=
    exists_session_at Sha256.hash Serde.canonical (segNameBound - 2) hn
  have hbound : L.index + 1 = segNameBound := by
    rw [hindex]
    decide
  have hacc : Accepted s.inner approval := accepted_approval hf.failed
  have hrot := mustRotate_oneRecord (segLen_pos hf hcur) (approval.stored Sha256.hash s.inner)
  obtain ⟨hok, hverify⟩ := unlisted_segment_truncates Serde.canonical hL.describes hL.ok hf hbound hcur
    hacc rfl rfl hrot
  have hseq : (approval.stored Sha256.hash s.inner).record.seq = L.hist.length :=
    hf.nextSeq.trans hL.ok.nextSeq_cursor
  rw [← hseq] at hverify
  exact ⟨s, approval, _, some ((approval.stored Sha256.hash s.inner).record.seq - 1),
    reachable_any Serde.canonical hs, hok, hverify⟩

end AgentRuntime.Records
