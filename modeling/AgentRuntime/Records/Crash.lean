import AgentRuntime.Records.Agreement
import AgentRuntime.Records.Recovery

/-!
# `Records.Crash` — one process after another over the same directory

A `World` is a records directory over its whole life: a process opens it, makes calls, and stops, at
rest or after any durable step of a call or of the opening itself; then the next one opens what is left.
`World.kept` is the invariant: the directory is a well-formed log, whose history is, session after
session, the closings of its recovery, its acknowledged records, and at most one record more.

From it, `recovery_keeps_log`: opening what a stopped process left behind succeeds, and loses nothing,
exactly when `HEAD` had come as far as the first retained record (`Dir.HeadKept`). Otherwise it refuses
the directory, as it does after a crash in the first append of all (`crash_before_first_head`).
-/

namespace AgentRuntime.Records

open Transition Words

/-! ## Worlds -/

/-- The calls a session acknowledged. -/
abbrev Acked := List (Call × Receipt)

/-- A records directory, with the sessions of the processes that had it open. -/
inductive World where
  | running (past : List Acked) (session : Session)
  | stopped (past : List Acked) (dir : Dir)

inductive World.Event where
  | opens (clock : ℕ → ℕ)
  /-- The process stops, or gives up, after some steps of the opening. -/
  | opensPartly (clock : ℕ → ℕ) (steps : ℕ)
  | calls (call : Call)
  | stops
  /-- The process stops after some steps of a call. -/
  | stopsIn (call : Call) (steps : ℕ)

section Run

variable (sha256 : List UInt8 → Digest) (serde : Serde) (cfg : LogConfig)

inductive World.Step : World → World.Event → World → Prop
  | opens (past : List Acked) (d : Dir) (clock : ℕ → ℕ) (g : Inner) (report : RecoveryReport)
      (hok : (openWithClock sha256 serde cfg d clock).result = .ok (g, report)) :
      Step (.stopped past d) (.opens clock)
        (.running past
          { inner := g
            dir := d.applyAll (openWithClock sha256 serde cfg d clock).steps
            acked := [] })
  | opensPartly (past : List Acked) (d : Dir) (clock : ℕ → ℕ) (k : ℕ) :
      Step (.stopped past d) (.opensPartly clock k)
        (.stopped (past ++ [[]])
          (d.applyAll ((openWithClock sha256 serde cfg d clock).steps.take k)))
  | calls (past : List Acked) (s : Session) (c : Call) :
      Step (.running past s) (.calls c) (.running past (s.call sha256 serde cfg c))
  | stops (past : List Acked) (s : Session) :
      Step (.running past s) .stops (.stopped (past ++ [s.acked]) s.dir)
  | stopsIn (past : List Acked) (s : Session) (c : Call) (k : ℕ) :
      Step (.running past s) (.stopsIn c k)
        (.stopped (past ++ [s.acked])
          (s.dir.applyAll ((record sha256 serde cfg.clamped s.inner s.dir c).steps.take k)))

/-- **Runs** from an empty directory whose events all meet `cond`. -/
def World.Reachable (cond : World → World.Event → Prop) : World → Prop :=
  Reach (· = World.stopped [] .empty) fun w e w' => cond w e ∧ World.Step sha256 serde cfg w e w'

/-- The rotations made by the event start segments whose names read back. -/
def World.Listed : World → World.Event → Prop
  | .stopped _ d, .opens clock => OpeningListed serde sha256 cfg d clock
  | .stopped _ d, .opensPartly clock _ => OpeningListed serde sha256 cfg d clock
  | .running _ s, .calls c => s.RotationListed sha256 cfg c
  | .running _ s, .stopsIn c _ => s.RotationListed sha256 cfg c
  | _, _ => True

end Run

/-! ## The invariant -/

/-- The records a session left in the history: the closings of its recovery, the records it
    acknowledged, and at most one it did not. -/
def SessionRecords (records : List StoredRecord) (acked : Acked) : Prop :=
  ∃ closings kept extra, records = closings ++ (kept ++ extra) ∧
    (∀ r ∈ closings, ∃ seq, r.ClosedOnRecovery seq) ∧ List.Forall₂ Acknowledges kept acked ∧
    extra.length ≤ 1

/-- The directory is a log with this history; before the first step, it is empty. -/
def Dir.Keeps (sha256 : List UInt8 → Digest) (d : Dir) (records : List StoredRecord) : Prop :=
  (d = .empty ∧ records = []) ∨ ∃ L, Describes d L ∧ L.Ok sha256 ∧ L.hist = records

/-- **Nothing is lost**: the history is what the sessions left, one after the other. -/
def World.Kept (sha256 : List UInt8 → Digest) : World → Prop
  | .stopped past d =>
      ∃ parts, List.Forall₂ SessionRecords parts past ∧ d.Keeps sha256 parts.flatten
  | .running past s =>
      ∃ parts closings L, List.Forall₂ SessionRecords parts past ∧
        (∀ r ∈ closings, ∃ seq, r.ClosedOnRecovery seq) ∧
        s.Logged sha256 (parts.flatten ++ closings) L

variable {sha256 : List UInt8 → Digest} (serde : Serde) {cfg : LogConfig}

theorem sessionRecords_closings {closings : List StoredRecord}
    (h : ∀ r ∈ closings, ∃ seq, r.ClosedOnRecovery seq) : SessionRecords closings [] :=
  ⟨closings, [], [], (List.append_nil _).symm, h, .nil, Nat.zero_le _⟩

theorem kept_concat {parts : List (List StoredRecord)} {past : List Acked}
    (hparts : List.Forall₂ SessionRecords parts past) {records : List StoredRecord} {acked : Acked}
    (hrecords : SessionRecords records acked) {d : Dir}
    (hd : d.Keeps sha256 (parts.flatten ++ records)) :
    World.Kept sha256 (.stopped (past ++ [acked]) d) := by
  refine ⟨parts ++ [records], forall₂_concat hparts hrecords, ?_⟩
  rw [List.flatten_append, List.flatten_singleton]
  exact hd

/-- A session stops where its history is `before`, the acknowledged records, and at most one more. -/
theorem kept_of_stopped {parts : List (List StoredRecord)} {past : List Acked}
    {closings kept extra : List StoredRecord} {acked : Acked} {d : Dir} {L : Log}
    (hparts : List.Forall₂ SessionRecords parts past)
    (hclosings : ∀ r ∈ closings, ∃ seq, r.ClosedOnRecovery seq)
    (hkept : List.Forall₂ Acknowledges kept acked) (hextra : extra.length ≤ 1)
    (hd : Describes d L) (h : L.Ok sha256)
    (hhist : L.hist = parts.flatten ++ closings ++ (kept ++ extra)) :
    World.Kept sha256 (.stopped (past ++ [acked]) d) := by
  refine kept_concat hparts ⟨closings, kept, extra, rfl, hclosings, hkept, hextra⟩ ?_
  refine Or.inr ⟨L, hd, h, ?_⟩
  rw [hhist, List.append_assoc]

/-- Opening keeps the world. -/
theorem kept_opens {past : List Acked} {d : Dir} {clock : ℕ → ℕ} {g : Inner}
    {report : RecoveryReport} (h : World.Kept sha256 (.stopped past d))
    (hlisted : OpeningListed serde sha256 cfg d clock)
    (hok : (openWithClock sha256 serde cfg d clock).result = .ok (g, report)) :
    World.Kept sha256 (.running past
      { inner := g, dir := d.applyAll (openWithClock sha256 serde cfg d clock).steps, acked := [] }) := by
  obtain ⟨parts, hparts, ⟨rfl, hnil⟩ | ⟨L, hd, hL, hhist⟩⟩ := h
  · rw [openWithClock_empty] at hok ⊢
    obtain ⟨rfl, -⟩ := Prod.mk.inj (Except.ok.inj hok)
    refine ⟨parts, [], Log.init, hparts, fun _ hr => absurd hr List.not_mem_nil, ?_⟩
    rw [hnil]
    exact logged_of_follows describes_init ok_init follows_init rfl .nil
  · by_cases hr : L.Recoverable
    · obtain ⟨g', report', L', closings, hresult, hrun, hf, hhist', hclosed, -, -⟩ :=
        open_steps serde hd hL hr hlisted
      rw [hok] at hresult
      obtain ⟨rfl, rfl⟩ := Prod.mk.inj (Except.ok.inj hresult)
      obtain ⟨hd', hL'⟩ := describes_steps hrun.steps hd hL
      refine ⟨parts, closings, L', hparts, ?_, ?_⟩
      · intro r hr
        obtain ⟨seq, -, hseq⟩ := exists_right_of_forall₂ hclosed hr
        exact ⟨seq, hseq⟩
      · refine logged_of_follows hd' hL' hf ?_ .nil
        rw [hhist', hhist, List.append_nil]
    · obtain ⟨e, hlost⟩ : ∃ e, openWithClock sha256 serde cfg d clock =
          { result := .error (.integrity e), steps := [] } := open_lost serde hd hL hr clock
      rw [hlost] at hok
      cases hok

/-- So does an opening that stops on the way. -/
theorem kept_opensPartly {past : List Acked} {d : Dir} {clock : ℕ → ℕ}
    (h : World.Kept sha256 (.stopped past d)) (hlisted : OpeningListed serde sha256 cfg d clock)
    (k : ℕ) :
    World.Kept sha256 (.stopped (past ++ [[]])
      (d.applyAll ((openWithClock sha256 serde cfg d clock).steps.take k))) := by
  obtain ⟨parts, hparts, ⟨rfl, hnil⟩ | ⟨L, hd, hL, hhist⟩⟩ := h
  · refine kept_concat hparts (sessionRecords_closings fun _ hr => absurd hr List.not_mem_nil) ?_
    rw [openWithClock_empty, hnil]
    cases k with
    | zero => exact Or.inl ⟨rfl, rfl⟩
    | succ k =>
        rw [List.take_of_length_le (Nat.le_add_left 1 k)]
        exact Or.inr ⟨Log.init, describes_init, ok_init, rfl⟩
  · by_cases hr : L.Recoverable
    · obtain ⟨g, report, L', closings, -, hrun, -⟩ := open_steps serde hd hL hr hlisted
      obtain ⟨M, hstopped⟩ := hrun.upTo k
      obtain ⟨hdM, hM⟩ := describes_steps hstopped.steps hd hL
      obtain ⟨closed, hhistM, hclosed⟩ := hstopped.hist (Closings.refl L.hist)
      refine kept_concat hparts (sessionRecords_closings hclosed) (Or.inr ⟨M, hdM, hM, ?_⟩)
      rw [hhistM, hhist]
    · obtain ⟨e, hlost⟩ : ∃ e, openWithClock sha256 serde cfg d clock =
          { result := .error (.integrity e), steps := [] } := open_lost serde hd hL hr clock
      refine kept_concat hparts (sessionRecords_closings fun _ hr => absurd hr List.not_mem_nil) ?_
      rw [hlost, List.take_nil, applyAll_nil, List.append_nil]
      exact Or.inr ⟨L, hd, hL, hhist⟩

/-- A session that stops between two calls. -/
theorem kept_stops {past : List Acked} {s : Session} (h : World.Kept sha256 (.running past s)) :
    World.Kept sha256 (.stopped (past ++ [s.acked]) s.dir) := by
  obtain ⟨parts, closings, L, hparts, hclosings, hL⟩ := h
  obtain ⟨kept, extra, hhist, hkept, hextra, -⟩ := hL.history
  exact kept_of_stopped hparts hclosings hkept hextra hL.describes hL.ok hhist

/-- A session that stops inside a call. -/
theorem kept_stopsIn {past : List Acked} {s : Session} (h : World.Kept sha256 (.running past s))
    {c : Call} (hlisted : s.RotationListed sha256 cfg c) (k : ℕ) :
    World.Kept sha256 (.stopped (past ++ [s.acked])
      (s.dir.applyAll ((record sha256 serde cfg.clamped s.inner s.dir c).steps.take k))) := by
  by_cases hfailed : s.inner.failed = true
  · have hacc : ¬ Accepted s.inner c := by
      intro hacc
      rw [hacc.failed] at hfailed
      cases hfailed
    obtain ⟨e, hrefused⟩ : ∃ e, record sha256 serde cfg.clamped s.inner s.dir c =
        { result := .error e, inner := s.inner, steps := [] } := record_refused serde hacc
    rw [hrefused, List.take_nil, applyAll_nil]
    exact kept_stops h
  · obtain ⟨parts, closings, L, hparts, hclosings, hL⟩ := h
    obtain ⟨kept, extra, hhist, hkept, -, hbroken⟩ := hL.history
    obtain ⟨rfl, hf⟩ := hbroken.resolve_left hfailed
    obtain ⟨L', hrun, -⟩ :=
      record_steps serde (one_le_of_clamped cfg) hL.describes hL.ok hf hlisted
    obtain ⟨M, hstopped⟩ := hrun.upTo k
    obtain ⟨hdM, hM⟩ := describes_steps hstopped.steps hL.describes hL.ok
    rw [List.append_nil] at hhist
    rcases hstopped.hist (Or.inl rfl) with hhistM | hhistM
    · have hnone : M.hist = parts.flatten ++ closings ++ (kept ++ []) := by
        rw [hhistM, hhist, List.append_nil]
      exact kept_of_stopped hparts hclosings hkept (Nat.zero_le _) hdM hM hnone
    · have hone : M.hist = parts.flatten ++ closings ++ (kept ++ [c.stored sha256 s.inner]) := by
        rw [hhistM, hhist, List.append_assoc]
      exact kept_of_stopped hparts hclosings hkept le_rfl hdM hM hone

/-- **Every reachable world is kept.** -/
theorem World.kept {w : World}
    (h : World.Reachable sha256 serde cfg (World.Listed sha256 serde cfg) w) : w.Kept sha256 := by
  refine Reach.invariant (P := World.Kept sha256) ?_ ?_ h
  · rintro w rfl
    exact ⟨[], .nil, Or.inl ⟨rfl, rfl⟩⟩
  · rintro w e w' hw ⟨hlisted, hstep⟩
    cases hstep with
    | opens past d clock g report hok => exact kept_opens serde hw hlisted hok
    | opensPartly past d clock k => exact kept_opensPartly serde hw hlisted k
    | calls past s c =>
        obtain ⟨parts, closings, L, hparts, hclosings, hL⟩ := hw
        obtain ⟨L', hL', -⟩ := logged_call serde hL hlisted
        exact ⟨parts, closings, L', hparts, hclosings, hL'⟩
    | stops past s => exact kept_stops hw
    | stopsIn past s c k => exact kept_stopsIn serde hw hlisted k

/-! ## When `HEAD` has come far enough -/

/-- A segment holds a whole record after CHECKPOINT. -/
def Dir.HoldsRetained (serde : Serde) (d : Dir) : Prop :=
  ∃ s ∈ d.view.segs, ∃ seg, readSegment serde s.1 s.2 = .ok seg ∧
    ∃ r ∈ seg.records, d.floor ≤ r.record.seq

/-- **`HEAD` names a record after CHECKPOINT**, if there is one. -/
def Dir.HeadKept (serde : Serde) (d : Dir) : Prop :=
  d.HoldsRetained serde → ∃ head, d.head = .ok head ∧ d.floor ≤ head.seq

theorem Describes.floor_eq {d : Dir} {L : Log} (hd : Describes d L) (h : L.Ok sha256) :
    d.floor = L.pruned.length := by
  rw [← h.floor_eq, Dir.floor, hd.checkpoint]
  cases checkpointFor L.pruned <;> rfl

theorem holdsRetained_iff {d : Dir} {L : Log} (hd : Describes d L) (h : L.Ok sha256) :
    d.HoldsRetained serde ↔ L.retained ≠ [] := by
  have hlaid := hd.laidOut h
  have hfloor := hd.floor_eq h
  have hretained : L.live.flatMap Prod.snd ++ L.cur = L.retained := L.live_flatMap
  unfold Dir.HoldsRetained
  rw [hlaid.segs]
  constructor
  · rintro ⟨s, hs, seg, hseg, r, hr, hle⟩
    apply List.ne_nil_of_mem (a := r)
    rw [← hretained]
    rcases List.mem_append.mp hs with hs | hs
    · obtain ⟨t, ht, rfl⟩ := List.mem_map.mp hs
      have hread := readSegment_encodeSeg_whole serde t.1 t.2
      rw [wholeSeg, hread] at hseg
      obtain rfl := Except.ok.inj hseg
      rcases List.mem_append.mp ht with ht | ht
      · -- the records of a stale segment precede the checkpoint
        have hlt := hlaid.stale_lt t ht r hr
        rw [h.floor_eq] at hlt
        omega
      · exact List.mem_append_left _ (List.mem_flatMap.mpr ⟨t, ht, hr⟩)
    · rw [List.mem_singleton.mp hs, readSegment_encodeSeg serde _ _ hlaid.tail] at hseg
      obtain rfl := Except.ok.inj hseg
      exact List.mem_append_right _ hr
  · intro hne
    obtain ⟨r, hr⟩ := List.exists_mem_of_ne_nil _ hne
    have hle : d.floor ≤ r.record.seq := by
      rw [hfloor, ← h.floor_eq, ← nextSeq_cursorOf, cursorOf_checkpointFor]
      exact (seq_of_mem h.chain_retained hr).1
    rw [← hretained] at hr
    rcases List.mem_append.mp hr with hr | hr
    · obtain ⟨t, ht, hrt⟩ := List.mem_flatMap.mp hr
      refine ⟨wholeSeg t, ?_, _, readSegment_encodeSeg_whole serde t.1 t.2, r, hrt, hle⟩
      exact List.mem_append_left _ (List.mem_map.mpr ⟨t, List.mem_append_right _ ht, rfl⟩)
    · refine ⟨_, List.mem_append_right _ List.mem_cons_self, _,
        readSegment_encodeSeg serde _ _ hlaid.tail, r, hr, hle⟩

theorem headKept_iff {d : Dir} {L : Log} (hd : Describes d L) (h : L.Ok sha256) :
    d.HeadKept serde ↔ L.Recoverable := by
  have hlen := L.length_hist
  have hle := h.head_le
  have hpruned := h.pruned_le
  have hhead : (∃ head, d.head = .ok head ∧ d.floor ≤ head.seq) ↔ L.pruned.length < L.headAt := by
    rw [hd.head, hd.floor_eq h]
    rcases Nat.eq_zero_or_pos L.headAt with hzero | hpos
    · rw [hzero, List.take_zero]
      constructor
      · rintro ⟨head, hnone, -⟩
        cases hnone
      · intro hlt
        exact absurd hlt (Nat.not_lt_zero _)
    · rw [h.headFor_take hpos hle]
      constructor
      · rintro ⟨head, hsome, hfloor⟩
        cases hsome
        simp only at hfloor
        omega
      · intro hlt
        exact ⟨_, rfl, Nat.le_sub_one_of_lt hlt⟩
  unfold Dir.HeadKept Log.Recoverable
  rw [holdsRetained_iff serde hd h, hhead]
  constructor
  · intro hkept
    by_cases hne : L.retained = []
    · left
      rw [hne, List.length_nil] at hlen
      omega
    · exact Or.inr (hkept hne)
  · rintro (hcurrent | hlt) hne
    · have := List.length_pos_of_ne_nil hne
      omega
    · exact hlt

/-! ## Recovery -/

/-- **The log is recovered**: opened with memory `g` over the directory `d`, after sessions that
    acknowledged `past` and left the records `parts`, recovery having added `closings`. -/
structure Recovered (sha256 : List UInt8 → Digest) (serde : Serde) (past : List Acked) (d : Dir)
    (g : Inner) (marked : List ℕ) (parts : List (List StoredRecord))
    (closings visited : List StoredRecord) (w : Walked) : Prop where
  /-- The strict walk accepts the directory, `HEAD` at the tip. -/
  walk : walk sha256 serde d.view .strict = .ok (w, visited)
  current : w.headLag = false
  /-- Each session left what it acknowledged, and at most one record more. -/
  sessions : List.Forall₂ SessionRecords parts past
  /-- The retained chain is all of it, from CHECKPOINT on. -/
  retained : visited = (parts.flatten ++ closings).drop (floorOf w.checkpoint)
  acknowledged : ∀ acked ∈ past, ∀ a ∈ acked, floorOf w.checkpoint ≤ a.2.seq →
    ∃ r ∈ visited, Acknowledges r a
  /-- The next `seq` is the successor of the last record's. -/
  nextSeq : g.nextSeq = (parts.flatten ++ closings).length
  tip : ∀ last, (parts.flatten ++ closings).getLast? = some last →
    g.nextSeq = last.record.seq + 1
  /-- Every decision left open is closed. -/
  closed : List.Forall₂ StoredRecord.ClosedOnRecovery closings marked
  marked : ∀ seq, seq ∈ marked ↔
    (∃ r ∈ parts.flatten, r.allows ∧ r.record.seq = seq) ∧ ¬ ∃ r ∈ parts.flatten, r.closes seq
  openSet : w.openSet = ∅ ∧ g.openSet = ∅

theorem retained_eq_drop (L : Log) : L.retained = L.hist.drop L.pruned.length := by
  rw [← L.pruned_append_retained, List.drop_left]

/-- What an acknowledged record's `seq` is good for: it is in the retained chain or pruned. -/
theorem mem_retained {L : Log} (h : L.Ok sha256) {r : StoredRecord} (hr : r ∈ L.hist)
    (hle : L.pruned.length ≤ r.record.seq) : r ∈ L.retained := by
  rw [← L.pruned_append_retained] at hr
  rcases List.mem_append.mp hr with hr | hr
  · have hlt := (seq_of_mem h.chain_pruned hr).2
    simp only [Cursor.genesis, Nat.zero_add] at hlt
    omega
  · exact hr

theorem recovered_of_follows {past : List Acked} {d : Dir} {g : Inner} {marked : List ℕ}
    {parts : List (List StoredRecord)} {closings : List StoredRecord} {L : Log} (hd : Describes d L)
    (h : L.Ok sha256) (hf : g.Follows L) (hparts : List.Forall₂ SessionRecords parts past)
    (hhist : L.hist = parts.flatten ++ closings) (hopen : L.cursor.openSet = ∅)
    (hclosed : List.Forall₂ StoredRecord.ClosedOnRecovery closings marked)
    (hmarked : ∀ seq, seq ∈ marked ↔
      (∃ r ∈ parts.flatten, r.allows ∧ r.record.seq = seq) ∧
        ¬ ∃ r ∈ parts.flatten, r.closes seq) :
    ∃ w, Recovered sha256 serde past d g marked parts closings L.retained w := by
  obtain ⟨n, stale, hwalk⟩ := walk_quiet serde hd h hf.quiet .strict
  have hnext : g.nextSeq = L.hist.length := hf.nextSeq.trans h.nextSeq_cursor
  refine ⟨_, ⟨hwalk, rfl, hparts, ?_, ?_, ?_, ?_, hclosed, hmarked, ?_, ?_⟩⟩
  · simp only [walkedOf, h.floor_eq]
    rw [← hhist, retained_eq_drop]
  · intro acked hacked a ha hle
    simp only [walkedOf, h.floor_eq] at hle
    obtain ⟨part, hpart, closed, kept, extra, rfl, -, hkept, -⟩ :=
      exists_left_of_forall₂ hparts hacked
    obtain ⟨r, hr, hack⟩ := exists_left_of_forall₂ hkept ha
    have hmem : r ∈ L.hist := by
      rw [hhist]
      apply List.mem_append_left
      refine List.mem_flatten.mpr ⟨_, hpart, ?_⟩
      exact List.mem_append_right _ (List.mem_append_left _ hr)
    refine ⟨r, mem_retained h hmem ?_, hack⟩
    rw [hack.receipt] at hle
    exact hle
  · rw [hnext, hhist]
  · intro last hlast
    rw [← hhist, List.getLast?_eq_getElem?] at hlast
    obtain ⟨hlt, hget⟩ := List.getElem?_eq_some_iff.mp hlast
    have hseq := h.seq_getElem hlt
    rw [hget] at hseq
    omega
  · simp only [walkedOf, openSet_retained, hopen]
  · rw [hf.openSet, hopen]

/-- **Recovery keeps the log.** In every run whose rotations start segments that read back, opening
    what a stopped process left behind succeeds when `HEAD` names a retained record as soon as there is
    one: the strict walk then visits every retained record that was acknowledged, with at most one more
    from each session, the next `seq` follows the last record, and every allowing decision without an
    outcome is closed. When `HEAD` does not, the directory is refused as it is. -/
theorem recovery_keeps_log (sha256 : List UInt8 → Digest) (serde : Serde) (cfg : LogConfig)
    (past : List Acked) (d : Dir)
    (hs : World.Reachable sha256 serde cfg (World.Listed sha256 serde cfg) (.stopped past d))
    (clock : ℕ → ℕ) (hlisted : OpeningListed serde sha256 cfg d clock) :
    (d.HeadKept serde → ∃ g report parts closings visited w,
      (openWithClock sha256 serde cfg d clock).result = .ok (g, report) ∧
      Recovered sha256 serde past
        (d.applyAll (openWithClock sha256 serde cfg d clock).steps) g report.markedUnknown parts
        closings visited w) ∧
    (¬ d.HeadKept serde → ∃ e,
      openWithClock sha256 serde cfg d clock = { result := .error (.integrity e), steps := [] }) := by
  obtain ⟨parts, hparts, ⟨rfl, hnil⟩ | ⟨L, hd, h, hhist⟩⟩ := World.kept serde hs
  · -- nothing was ever written
    have hfresh : Dir.empty.HeadKept serde := by
      rintro ⟨s, hs, -⟩
      rw [Dir.view, listSegments_empty] at hs
      cases hs
    refine ⟨fun _ => ?_, fun hlost => absurd hfresh hlost⟩
    have hhist : Log.init.hist = parts.flatten ++ [] := by
      rw [hnil]
      rfl
    have hnone : ∀ seq : ℕ, seq ∈ RecoveryReport.clean.markedUnknown ↔
        (∃ r ∈ parts.flatten, r.allows ∧ r.record.seq = seq) ∧
          ¬ ∃ r ∈ parts.flatten, r.closes seq := by
      intro seq
      rw [hnil]
      simp [RecoveryReport.clean]
    have hok : Log.init.Ok sha256 := ok_init
    obtain ⟨w, hrecovered⟩ :=
      recovered_of_follows serde describes_init hok follows_init hparts hhist rfl .nil hnone
    rw [openWithClock_empty]
    exact ⟨_, _, parts, [], _, w, rfl, hrecovered⟩
  · rw [headKept_iff serde hd h]
    constructor
    · intro hr
      obtain ⟨g, report, L', closings, hresult, hrun, hf, hhist', hclosed, hmarked, hopen⟩ :=
        open_steps serde hd h hr hlisted
      obtain ⟨hd', h'⟩ := describes_steps hrun.steps hd h
      rw [hhist] at hhist'
      have hleft : ∀ seq, seq ∈ report.markedUnknown ↔
          (∃ r ∈ parts.flatten, r.allows ∧ r.record.seq = seq) ∧
            ¬ ∃ r ∈ parts.flatten, r.closes seq := by
        intro seq
        rw [hmarked, Finset.mem_sort, Log.cursor, mem_openSet_afterAll h.chain, hhist]
      obtain ⟨w, hrecovered⟩ :=
        recovered_of_follows serde hd' h' hf hparts hhist' hopen hclosed hleft
      exact ⟨g, report, parts, closings, _, w, hresult, hrecovered⟩
    · intro hlost
      exact open_lost serde hd h hlost clock

/-! ### A crash after an acknowledged approval -/

theorem openingListed_empty (cfg : LogConfig) (clock : ℕ → ℕ) :
    OpeningListed serde sha256 cfg .empty clock := by
  intro w visited hwalk
  rw [walk_empty] at hwalk
  obtain ⟨rfl, -⟩ := Prod.mk.inj (Except.ok.inj hwalk)
  have hsort : (walkedOf none 0 [] false none []).openSet.sort (· ≤ ·) = [] := Finset.sort_empty _
  rw [hsort]
  trivial

theorem opens_freshSession (sha256 : List UInt8 → Digest) (serde : Serde) (cfg : LogConfig) :
    World.Step sha256 serde cfg (.stopped [] .empty) (.opens fun _ => 0)
      (.running [] freshSession) := by
  have hok : (openWithClock sha256 serde cfg .empty fun _ => 0).result = .ok (freshInner, .clean) := by
    rw [openWithClock_empty]
  have hstep := World.Step.opens [] _ _ _ _ hok
  rw [openWithClock_empty] at hstep
  exact hstep

theorem card_openSet_le {L : Log} (h : L.Ok sha256) : L.cursor.openSet.card ≤ L.hist.length := by
  have hsub : L.cursor.openSet ⊆ Finset.range L.hist.length := by
    intro seq hseq
    exact Finset.mem_range.mpr (lt_nextSeq_of_mem_openSet h.chain hseq)
  exact (Finset.card_le_card hsub).trans (Finset.card_range _).le

/-- A process stops after its first approval was acknowledged. -/
theorem reachable_approval :
    World.Reachable Sha256.hash Serde.canonical ⟨1, some 1⟩ (World.Listed Sha256.hash Serde.canonical ⟨1, some 1⟩)
      (.stopped [(freshSession.call Sha256.hash Serde.canonical ⟨1, some 1⟩ approval).acked]
        (freshSession.call Sha256.hash Serde.canonical ⟨1, some 1⟩ approval).dir) := by
  have hlisted : freshSession.RotationListed Sha256.hash ⟨1, some 1⟩ approval := by
    intro _ _
    show 1 + 1 < segNameBound
    decide
  exact .next (l := .stops)
    (.next (l := .calls approval)
      (.next (l := .opens fun _ => 0) (.start rfl)
        ⟨openingListed_empty Serde.canonical _ _, opens_freshSession _ _ _⟩)
      ⟨hlisted, .calls [] freshSession approval⟩)
    ⟨trivial, .stops [] _⟩

/-- The process stops after its first approval was acknowledged; the log opens again, and the
    approval is closed. -/
theorem recovery_keeps_log_approval :
    ∃ g report, (openWithClock Sha256.hash Serde.canonical ⟨1, some 1⟩
        (freshSession.call Sha256.hash Serde.canonical ⟨1, some 1⟩ approval).dir
        fun _ => 0).result = .ok (g, report) ∧ g.openSet = ∅ := by
  obtain ⟨hd, h, hf⟩ := approved Sha256.hash Serde.canonical ⟨1, some 1⟩
  have hroom : (approvedLog (approval.stored Sha256.hash freshInner)).index +
      (approvedLog (approval.stored Sha256.hash freshInner)).cursor.openSet.card < segNameBound := by
    have hcard := card_openSet_le h
    have hsmall : 1 + 1 < segNameBound := by decide
    exact (Nat.add_le_add_left hcard 1).trans_lt hsmall
  have hkept := (headKept_iff Serde.canonical hd h).mpr (Or.inl hf.quiet.head)
  obtain ⟨g, report, parts, closings, visited, w, hresult, hrecovered⟩ :=
    (recovery_keeps_log Sha256.hash Serde.canonical ⟨1, some 1⟩ _ _ reachable_approval (fun _ => 0)
      (openingListed_of_lt Serde.canonical hd h _ hroom)).1 hkept
  exact ⟨g, report, hresult, hrecovered.openSet.2⟩

/-! ### A crash before `HEAD` names the first record -/

/-- A record after nothing retained, not yet in `HEAD`, cannot be recovered. -/
theorem not_recoverable_push {L : Log} (hq : L.Quiet) (hnone : L.retained = []) (r : StoredRecord) :
    ¬ (L.push r).Recoverable := by
  have hhead : (L.push r).headAt = L.hist.length := hq.head
  have hpruned : (L.push r).pruned.length = L.hist.length := by
    rw [← L.pruned_append_retained, hnone, List.append_nil]
    rfl
  rintro (hcurrent | hlt)
  · rw [hist_push, List.length_append, hhead, List.length_singleton] at hcurrent
    omega
  · omega

/-- The process stops after the line of the first record of all was written, and before `HEAD` was:
    the directory never opens again. -/
theorem crash_before_first_head :
    ∃ past d clock e, World.Reachable Sha256.hash Serde.canonical ⟨1, some 1⟩ (fun _ _ => True)
        (.stopped past d) ∧
      (openWithClock Sha256.hash Serde.canonical ⟨1, some 1⟩ d clock).result
        = .error (.integrity e) := by
  have hacc : Accepted freshInner approval := accepted_approval rfl
  have hadm : Log.init.cursor.Admits Sha256.hash (approval.stored Sha256.hash freshInner) :=
    admits_stored follows_init hacc
  have hrecord : record Sha256.hash Serde.canonical (LogConfig.clamped ⟨1, some 1⟩) freshInner
      freshSession.dir approval = writeRecord freshInner (approval.stored Sha256.hash freshInner) .none :=
    record_of_empty Serde.canonical hacc rfl
  generalize approval.stored Sha256.hash freshInner = stored at hadm hrecord
  have htake : (record Sha256.hash Serde.canonical (LogConfig.clamped ⟨1, some 1⟩) freshInner
      freshSession.dir approval).steps.take (stored.toVec ++ [10]).length
      = writeLine 1 (stored.toVec ++ [10]) := by
    rw [hrecord]
    show (writeLine 1 (stored.toVec ++ [10]) ++ _).take _ = _
    rw [List.take_append_of_le_length (by simp [writeLine]), List.take_of_length_le]
    simp [writeLine]
  obtain ⟨hd, h⟩ := describes_steps (writeStored_steps follows_init.quiet hadm).steps describes_init
    ok_init
  obtain ⟨e, hlost⟩ : ∃ e, openWithClock Sha256.hash Serde.canonical ⟨1, some 1⟩
      (freshSession.dir.applyAll (writeLine 1 (stored.toVec ++ [10]))) (fun _ => 0) =
        { result := .error (.integrity e), steps := [] } :=
    open_lost Serde.canonical hd h (not_recoverable_push follows_init.quiet rfl stored) _
  rw [← htake] at hlost
  refine ⟨_, _, fun _ => 0, e, .next (.next (.start rfl) ⟨trivial, opens_freshSession _ _ _⟩)
    ⟨trivial, .stopsIn [] freshSession approval (stored.toVec ++ [10]).length⟩, ?_⟩
  exact congrArg Opened.result hlost

end AgentRuntime.Records
