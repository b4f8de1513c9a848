import AgentRuntime.Records.Agreement
import AgentRuntime.Sidecar.RecordEvents

/-!
# `Sidecar.RecordBatch` — batches of core's records (`agent-sidecar/src/hic_records.rs`, `web_signing_records.rs`)

A batch is checked as a whole and then appended record by record, each decision with its outcome. The two routes are one
algorithm (`Route`), with their own mappings and limits.

A batch that was mapped is appended when the log takes every decision (`writeEvents_appends`); so it is written whole
or not at all, and nothing of it is refused after the mapping took it, exactly for batches that can be read
(`record_batches_iff`).
-/

namespace AgentRuntime.Sidecar

open Records

/-! ## Routes -/

/-- The actor is named, the outcome fits in the log, and there is one when the decision allows something. -/
structure Sound (ev : CoreEvents) : Prop where
  actor : validateActor ev.1 = .ok ()
  outcome : ev.2.2.isSome = ev.2.1.decision.expectsOutcome
  detail : ∀ o detail, ev.2.2 = some (o, detail) → detail.utf8ByteSize ≤ 300

/-- A route: the limit of a batch and the mapping of a record, with which records it takes and which of these the log
    takes. -/
structure Route (R : Type) where
  max : ℕ
  toEvents : R → Except String CoreEvents
  WellFormed : R → Prop
  Readable : R → Prop
  mapped : ∀ r, WellFormed r → ∃ ev, toEvents r = .ok ev
  sound : ∀ r ev, toEvents r = .ok ev → WellFormed r ∧ Sound ev
  valid : ∀ r ev, toEvents r = .ok ev → (validateDecision ev.2.1 = .ok () ↔ Readable r)

def coreRoute (table : Char → Bool) : Route CoreHicRecord where
  max := maxCoreRecordsPerCall
  toEvents := coreToEvents table
  WellFormed := CoreHicRecord.WellFormed
  Readable := CoreHicRecord.Readable
  mapped _ h := h.mapped table
  sound r ev h := by
    obtain ⟨hwf, hactor, hevent, houtcome⟩ := coreToEvents_ok h
    obtain ⟨hsome, hdetail⟩ := coreOutcome_ok houtcome
    refine ⟨hwf, ?_, ?_, hdetail⟩
    · rw [hactor]
      unfold coreDecision
      split_ifs
      all_goals decide
    · rw [hsome, hevent]
      rfl
  valid _ _ := coreToEvents_valid

def webRoute (table : Char → Bool) : Route CoreRecord where
  max := maxRecordsPerCall
  toEvents := toEvents table
  WellFormed := CoreRecord.WellFormed
  Readable := CoreRecord.Readable
  mapped _ h := h.mapped table
  sound r ev h := by
    obtain ⟨d, hd, hhash, horigin, rfl⟩ := toEvents_ok h
    obtain ⟨hknown, hsound⟩ := webDecision_ok hd
    refine ⟨⟨hhash, horigin, hknown⟩, hsound.actor, hsound.allows.symm, ?_⟩
    rintro o detail ⟨⟩
    exact hsound.detail
  valid _ _ := toEvents_valid

/-! ## Writing -/

section

variable (sha256 : List UInt8 → Digest) (serde : Serde) (cfg : LogConfig) (clock : ℕ → ℕ)

/-- One call of the log, with what it returns. -/
def send (s : Session) (c : Call) : Session × Except Error Receipt :=
  (s.call sha256 serde cfg c, (record sha256 serde cfg.clamped s.inner s.dir c).result)

/-- The `i`-th call of a batch. -/
def decisionCall (i : ℕ) (actor : Actor) (decision : DecisionEvent) : Call where
  now := clock i
  actor := actor
  entry := .decision decision
  fault := .none

def outcomeCall (i : ℕ) (actor : Actor) (seq : ℕ) (o : Outcome × String) : Call where
  now := clock i
  actor := actor
  entry := .outcome { decisionSeq := seq, outcome := o.1, detail := o.2 }
  fault := .none

def unwritten (e : Error) : String := "the decision records could not be written: " ++ e.text

def writeEvents (s : Session) (i : ℕ) (last : Option ℕ) : List CoreEvents → Session × Except String (Option ℕ)
  | [] => (s, .ok last)
  | (actor, decision, outcome) :: events =>
      match send sha256 serde cfg s (decisionCall clock i actor decision) with
      | (s, .error e) => (s, .error (unwritten e))
      | (s, .ok rcpt) =>
          match outcome with
          | none => writeEvents s (i + 1) (some rcpt.seq) events
          | some o =>
              match send sha256 serde cfg s (outcomeCall clock (i + 1) actor rcpt.seq o) with
              | (s, .error e) => (s, .error (unwritten e))
              | (s, .ok out) => writeEvents s (i + 2) (some out.seq) events

def writeBatch {R : Type} (route : Route R) (s : Session) (records : List R) : Session × Except String (Option ℕ) :=
  if route.max < records.length then (s, .error ("at most " ++ toString route.max ++ " records per call"))
  else
    match records.mapM route.toEvents with
    | .error e => (s, .error e)
    | .ok events => writeEvents sha256 serde cfg clock s 0 none events

def writeCoreRecords (table : Char → Bool) : Session → List CoreHicRecord → Session × Except String (Option ℕ) :=
  writeBatch sha256 serde cfg clock (coreRoute table)

def writeRecords (table : Char → Bool) : Session → List CoreRecord → Session × Except String (Option ℕ) :=
  writeBatch sha256 serde cfg clock (webRoute table)

/-- The log makes the call durable if it accepts it. -/
def Appends (s : Session) (c : Call) : Prop :=
  Accepted s.inner c → ∃ receipt, (send sha256 serde cfg s c).2 = .ok receipt

/-- No append of the batch fails in writing. -/
def Steady (s : Session) (i : ℕ) : List CoreEvents → Prop
  | [] => True
  | (actor, decision, outcome) :: events =>
      let first := decisionCall clock i actor decision
      Appends sha256 serde cfg s first ∧
        ∀ rcpt, (send sha256 serde cfg s first).2 = .ok rcpt →
          match outcome with
          | none => Steady (send sha256 serde cfg s first).1 (i + 1) events
          | some o =>
              let second := outcomeCall clock (i + 1) actor rcpt.seq o
              let s := (send sha256 serde cfg s first).1
              Appends sha256 serde cfg s second ∧
                ∀ out, (send sha256 serde cfg s second).2 = .ok out →
                  Steady (send sha256 serde cfg s second).1 (i + 2) events

end

/-! ## What a call does to the writer -/

section

variable {sha256 : List UInt8 → Digest} {serde : Serde} {cfg : LogConfig} {clock : ℕ → ℕ}

/-- A call that returns was accepted, and is remembered with its receipt. -/
structure Taken (sha256 : List UInt8 → Digest) (s s' : Session) (c : Call) (receipt : Receipt) : Prop where
  accepted : Accepted s.inner c
  seq : receipt.seq = s.inner.nextSeq
  failed : s'.inner.failed = false
  openSet : s'.inner.openSet = openAfter s.inner.openSet (c.stored sha256 s.inner).record
  acked : s'.acked = s.acked ++ [(c, receipt)]

theorem writeRecord_ok {g : Records.Inner} {stored : StoredRecord} {fault : Fault} {receipt : Receipt}
    (h : (writeRecord g stored fault).result = .ok receipt) :
    receipt.seq = stored.record.seq ∧ (writeRecord g stored fault).inner.failed = g.failed ∧
      (writeRecord g stored fault).inner.openSet = openAfter g.openSet stored.record := by
  cases fault with
  | none =>
      cases h
      exact ⟨rfl, rfl, rfl⟩
  | line written rolledBack => cases h
  | head replaced => cases h

theorem send_refused {s : Session} {c : Call} (h : ¬ Accepted s.inner c) :
    ∃ e, send sha256 serde cfg s c = (s, .error e) := by
  obtain ⟨e, he⟩ : ∃ e, record sha256 serde cfg.clamped s.inner s.dir c =
      { result := .error e, inner := s.inner, steps := [] } := record_refused serde h
  refine ⟨e, ?_⟩
  unfold send Session.call
  rw [he]
  rfl

theorem send_ok {s : Session} {c : Call} {receipt : Receipt} (h : (send sha256 serde cfg s c).2 = .ok receipt) :
    Taken sha256 s (send sha256 serde cfg s c).1 c receipt := by
  have hrecord : (record sha256 serde cfg.clamped s.inner s.dir c).result = .ok receipt := h
  have hacc : Accepted s.inner c := by
    by_contra hnot
    obtain ⟨e, he⟩ : ∃ e, send sha256 serde cfg s c = (s, .error e) := send_refused hnot
    rw [he] at h
    cases h
  have hinner : receipt.seq = s.inner.nextSeq ∧
      (record sha256 serde cfg.clamped s.inner s.dir c).inner.failed = false ∧
      (record sha256 serde cfg.clamped s.inner s.dir c).inner.openSet =
        openAfter s.inner.openSet (c.stored sha256 s.inner).record := by
    rw [record_accepted serde hacc] at hrecord ⊢
    split at hrecord
    · rename_i hrotate
      rw [if_pos hrotate]
      split at hrecord
      · cases hrecord
      · rename_i hok
        obtain ⟨len, n, hg⟩ := rotate_ok hok
        obtain ⟨hseq, hfailed, hopen⟩ := writeRecord_ok hrecord
        rw [hg] at hfailed hopen
        rw [hg]
        exact ⟨hseq, hfailed.trans hacc.failed, hopen⟩
    · rename_i hrotate
      rw [if_neg hrotate]
      obtain ⟨hseq, hfailed, hopen⟩ := writeRecord_ok hrecord
      exact ⟨hseq, hfailed.trans hacc.failed, hopen⟩
  refine ⟨hacc, hinner.1, hinner.2.1, hinner.2.2, ?_⟩
  unfold send Session.call
  dsimp only
  rw [hrecord]

/-! ## Whole batches -/

/-- One decision for each record, in order, and each that allows something closed by its outcome. -/
inductive Appended : List CoreEvents → List (Call × Receipt) → Prop
  | nil : Appended [] []
  | denied {actor : Actor} {decision : DecisionEvent} {events : List CoreEvents} {c : Call} {receipt : Receipt}
      {rest : List (Call × Receipt)} (hactor : c.actor = actor) (hentry : c.entry = .decision decision)
      (hdenied : decision.decision.expectsOutcome = false) (hrest : Appended events rest) :
      Appended ((actor, decision, none) :: events) ((c, receipt) :: rest)
  | closed {actor : Actor} {decision : DecisionEvent} {o : Outcome} {detail : String} {events : List CoreEvents}
      {c c' : Call} {receipt receipt' : Receipt} {rest : List (Call × Receipt)} (hactor : c.actor = actor)
      (hentry : c.entry = .decision decision) (hactor' : c'.actor = actor)
      (hentry' : c'.entry = .outcome { decisionSeq := receipt.seq, outcome := o, detail }) (hrest : Appended events rest) :
      Appended ((actor, decision, some (o, detail)) :: events) ((c, receipt) :: (c', receipt') :: rest)

/-- The log takes the events. -/
structure Valid (ev : CoreEvents) : Prop where
  sound : Sound ev
  decision : validateDecision ev.2.1 = .ok ()

theorem Valid.accepted {s : Session} {actor : Actor} {decision : DecisionEvent} {outcome : Option (Outcome × String)}
    (h : Valid (actor, decision, outcome)) (hs : s.inner.failed = false) (i : ℕ) :
    Accepted s.inner (decisionCall clock i actor decision) := ⟨hs, h.sound.actor, h.decision, rfl⟩

/-- After its decision was taken, the outcome of an allowing one is accepted. -/
theorem Valid.accepted_outcome {s s' : Session} {actor : Actor} {decision : DecisionEvent} {o : Outcome × String} {i : ℕ}
    {receipt : Receipt} (h : Valid (actor, decision, some o))
    (htaken : Taken sha256 s s' (decisionCall clock i actor decision) receipt) :
    Accepted s'.inner (outcomeCall clock (i + 1) actor receipt.seq o) := by
  have hallows : decision.decision.expectsOutcome = true := h.sound.outcome.symm
  have hopen : receipt.seq ∈ s'.inner.openSet := by
    rw [htaken.openSet, htaken.seq]
    show s.inner.nextSeq ∈ if decision.decision.expectsOutcome then insert s.inner.nextSeq s.inner.openSet
      else s.inner.openSet
    rw [if_pos hallows]
    exact Finset.mem_insert_self _ _
  refine ⟨htaken.failed, h.sound.actor, ?_, if_pos hopen⟩
  show validateOutcome { decisionSeq := receipt.seq, outcome := o.1, detail := o.2 } = .ok ()
  exact checkLen_ok.mpr ⟨nofun, (h.sound.detail o.1 o.2 rfl).trans (by decide)⟩

/-- **Events the log takes are all appended**, when no append fails in writing. -/
theorem writeEvents_appends {s : Session} {i : ℕ} {last : Option ℕ} {events : List CoreEvents}
    (hvalid : ∀ ev ∈ events, Valid ev) (hs : s.inner.failed = false) (hsteady : Steady sha256 serde cfg clock s i events) :
    ∃ last' added, (writeEvents sha256 serde cfg clock s i last events).2 = .ok last' ∧
      (writeEvents sha256 serde cfg clock s i last events).1.acked = s.acked ++ added ∧ Appended events added := by
  induction events generalizing s i last with
  | nil => exact ⟨last, [], rfl, (List.append_nil _).symm, .nil⟩
  | cons ev events ih =>
      obtain ⟨actor, decision, outcome⟩ := ev
      have hev := hvalid _ List.mem_cons_self
      have hrest : ∀ ev ∈ events, Valid ev := fun ev hmem => hvalid ev (List.mem_cons_of_mem _ hmem)
      obtain ⟨happends, hnext⟩ := hsteady
      obtain ⟨rcpt, hsend⟩ := happends (hev.accepted hs i)
      have htaken := send_ok hsend
      have hnext := hnext rcpt hsend
      rw [writeEvents]
      generalize hdone : send sha256 serde cfg s (decisionCall clock i actor decision) = done at hsend htaken hnext
      obtain ⟨s', result⟩ := done
      obtain rfl : result = .ok rcpt := hsend
      cases outcome with
      | none =>
          obtain ⟨last', added, hok, hacked, happended⟩ := ih hrest htaken.failed hnext
          refine ⟨last', (decisionCall clock i actor decision, rcpt) :: added, hok, ?_, .denied rfl rfl hev.sound.outcome.symm happended⟩
          simp only
          rw [hacked, htaken.acked, List.append_assoc]
          rfl
      | some o =>
          obtain ⟨happends', hnext'⟩ := hnext
          obtain ⟨out, hsend'⟩ := happends' (hev.accepted_outcome htaken)
          have htaken' := send_ok hsend'
          have hnext' := hnext' out hsend'
          simp only at htaken' hnext' hsend' ⊢
          generalize hdone' : send sha256 serde cfg s' (outcomeCall clock (i + 1) actor rcpt.seq o) = done'
            at hsend' htaken' hnext'
          obtain ⟨s'', result'⟩ := done'
          obtain rfl : result' = .ok out := hsend'
          obtain ⟨last', added, hok, hacked, happended⟩ := ih hrest htaken'.failed hnext'
          refine ⟨last', (decisionCall clock i actor decision, rcpt) ::
            (outcomeCall clock (i + 1) actor rcpt.seq o, out) :: added, hok, ?_, .closed rfl rfl rfl rfl happended⟩
          simp only
          rw [hacked, htaken'.acked, htaken.acked, List.append_assoc, List.append_assoc]
          rfl

/-- The first event that the log refuses ends the batch there. -/
theorem writeEvents_refused {s : Session} {i : ℕ} {last : Option ℕ} {ev : CoreEvents} {events : List CoreEvents}
    (h : ¬ Accepted s.inner (decisionCall clock i ev.1 ev.2.1)) :
    ∃ e, writeEvents sha256 serde cfg clock s i last (ev :: events) = (s, .error e) := by
  obtain ⟨e, he⟩ : ∃ e, send sha256 serde cfg s (decisionCall clock i ev.1 ev.2.1) = (s, .error e) := send_refused h
  refine ⟨unwritten e, ?_⟩
  rw [writeEvents, he]

/-! ## The batch -/

theorem mapM_forall {R : Type} {f : R → Except String CoreEvents} {records : List R} {events : List CoreEvents}
    (h : records.mapM f = .ok events) : List.Forall₂ (fun r ev => f r = .ok ev) records events := by
  induction records generalizing events with
  | nil =>
      rw [List.mapM_nil] at h
      cases h
      exact .nil
  | cons r records ih =>
      rw [List.mapM_cons] at h
      obtain ⟨ev, hev, h⟩ := Except.bind_eq_ok.mp h
      obtain ⟨rest, hrest, h⟩ := Except.bind_eq_ok.mp h
      cases h
      exact .cons hev (ih hrest)

theorem mapM_of_forall {R : Type} {f : R → Except String CoreEvents} {records : List R}
    (h : ∀ r ∈ records, ∃ ev, f r = .ok ev) : ∃ events, records.mapM f = .ok events := by
  induction records with
  | nil => exact ⟨[], rfl⟩
  | cons r records ih =>
      obtain ⟨ev, hev⟩ := h r List.mem_cons_self
      obtain ⟨events, hevents⟩ := ih fun r' hr' => h r' (List.mem_cons_of_mem _ hr')
      refine ⟨ev :: events, ?_⟩
      rw [List.mapM_cons]
      exact Except.bind_eq_ok.mpr ⟨ev, hev, Except.bind_eq_ok.mpr ⟨events, hevents, rfl⟩⟩

/-- A batch is written whole or not at all, and the log refuses nothing that the mapping took. -/
structure Whole {R : Type} (route : Route R) (records : List R) (s : Session)
    (done : Session × Except String (Option ℕ)) : Prop where
  written : (∃ e, done.2 = .error e ∧ done.1 = s) ∨
    ∃ last events added, done.2 = .ok last ∧ records.mapM route.toEvents = .ok events ∧
      done.1.acked = s.acked ++ added ∧ Appended events added
  accepted : records.length ≤ route.max → ∀ events, records.mapM route.toEvents = .ok events →
    ∀ ev ∈ events, validateActor ev.1 = .ok () ∧ validateDecision ev.2.1 = .ok () ∧
      ∀ o detail seq, ev.2.2 = some (o, detail) → validateOutcome ⟨seq, o, detail⟩ = .ok ()

/-- A batch within the limit of well-formed records can be read. -/
def ReadableBatch {R : Type} (route : Route R) (records : List R) : Prop :=
  records.length ≤ route.max → (∀ r ∈ records, route.WellFormed r) → ∀ r ∈ records, route.Readable r

theorem whole_iff {R : Type} (route : Route R) (records : List R) (s : Session)
    (hsteady : ∀ events, records.mapM route.toEvents = .ok events → Steady sha256 serde cfg clock s 0 events) :
    Whole route records s (writeBatch sha256 serde cfg clock route s records) ↔ ReadableBatch route records := by
  constructor
  · intro h hlen hwf r hr
    obtain ⟨events, hevents⟩ := mapM_of_forall fun r hr => route.mapped r (hwf r hr)
    have hforall := mapM_forall hevents
    obtain ⟨i, hi, rfl⟩ := List.getElem_of_mem hr
    have hev := hforall.get hi (hforall.length_eq ▸ hi)
    exact (route.valid _ _ hev).mp (h.accepted hlen events hevents _ (List.getElem_mem _)).2.1
  · intro h
    -- the mapped events are valid when the batch is readable
    have hvalid : records.length ≤ route.max → ∀ events, records.mapM route.toEvents = .ok events →
        ∀ ev ∈ events, Valid ev := by
      intro hlen events hevents ev hev
      have hforall := mapM_forall hevents
      have hwf : ∀ r ∈ records, route.WellFormed r := by
        intro r hr
        obtain ⟨i, hi, rfl⟩ := List.getElem_of_mem hr
        exact (route.sound _ _ (hforall.get hi (hforall.length_eq ▸ hi))).1
      obtain ⟨i, hi, rfl⟩ := List.getElem_of_mem hev
      have hi' : i < records.length := hforall.length_eq ▸ hi
      have hmapped := hforall.get hi' hi
      exact ⟨(route.sound _ _ hmapped).2, (route.valid _ _ hmapped).mpr (h hlen hwf _ (List.getElem_mem hi'))⟩
    constructor
    · unfold writeBatch
      split
      · exact .inl ⟨_, rfl, rfl⟩
      · rename_i hlen
        cases hevents : records.mapM route.toEvents with
        | error e => exact .inl ⟨e, rfl, rfl⟩
        | ok events =>
            have hvalid := hvalid (not_lt.mp hlen) events hevents
            cases hs : s.inner.failed with
            | false =>
                obtain ⟨last, added, hok, hacked, happended⟩ :
                    ∃ last added, (writeEvents sha256 serde cfg clock s 0 none events).2 = .ok last ∧
                      (writeEvents sha256 serde cfg clock s 0 none events).1.acked = s.acked ++ added ∧
                      Appended events added := writeEvents_appends hvalid hs (hsteady events hevents)
                exact .inr ⟨last, events, added, hok, rfl, hacked, happended⟩
            | true =>
                cases events with
                | nil => exact .inr ⟨none, [], [], rfl, rfl, (List.append_nil _).symm, .nil⟩
                | cons ev events =>
                    have hnot : ¬ Accepted s.inner (decisionCall clock 0 ev.1 ev.2.1) := by
                      intro hacc
                      rw [hacc.failed] at hs
                      cases hs
                    obtain ⟨e, he⟩ : ∃ e, writeEvents sha256 serde cfg clock s 0 none (ev :: events) = (s, .error e) :=
                      writeEvents_refused hnot
                    refine .inl ⟨e, ?_, ?_⟩
                    · exact congrArg Prod.snd he
                    · exact congrArg Prod.fst he
    · intro hlen events hevents ev hev
      have hval := hvalid hlen events hevents ev hev
      refine ⟨hval.sound.actor, hval.decision, ?_⟩
      intro o detail seq ho
      exact checkLen_ok.mpr ⟨nofun, (hval.sound.detail o detail ho).trans (by decide)⟩

/-- **Batches of core's records.** On a log whose appends do not fail in writing, a batch of either route is written
    whole or not at all, and nothing of it is refused after the mapping took it, exactly when it can be read. -/
theorem record_batches_iff (table : Char → Bool) (sha256 : List UInt8 → Digest) (serde : Serde) (cfg : LogConfig)
    (clock : ℕ → ℕ) (s : Session) (core : List CoreHicRecord) (web : List CoreRecord)
    (hcore : ∀ events, core.mapM (coreRoute table).toEvents = .ok events → Steady sha256 serde cfg clock s 0 events)
    (hweb : ∀ events, web.mapM (webRoute table).toEvents = .ok events → Steady sha256 serde cfg clock s 0 events) :
    (Whole (coreRoute table) core s (writeCoreRecords sha256 serde cfg clock table s core) ↔
        ReadableBatch (coreRoute table) core) ∧
      (Whole (webRoute table) web s (writeRecords sha256 serde cfg clock table s web) ↔
        ReadableBatch (webRoute table) web) :=
  ⟨whole_iff _ core s hcore, whole_iff _ web s hweb⟩

end

/-! ### Denials -/

/-- A denied approval, on this subject. -/
def denial (subject : String) : CoreHicRecord where
  recordId := 1
  kind := "ceremony.approval"
  decision := "denied"
  subject := subject
  reason := ""
  outcome := none
  outcomeDetail := none
  evidence := []
  atMs := 0
  hash := "0x" ++ String.ofList (List.replicate 64 'a')

theorem denial_wellFormed {subject : String} (h : isBlank subject = false) (hlen : subject.utf8ByteSize ≤ 300) :
    (denial subject).WellFormed where
  hash := by
    show isHash ("0x" ++ String.ofList (List.replicate 64 'a')) = true
    decide +kernel
  kind := by
    refine ⟨["approved", "denied"], rfl, ?_⟩
    show "denied" ∈ ["approved", "denied"]
    decide
  subject := ⟨h, hlen⟩
  reason := Nat.zero_le _
  count := Nat.zero_le _
  denied _ := rfl
  outcome := nofun
  evidence := nofun

/-- An event of a batch of denials has no outcome, so at most its decision is appended. -/
theorem denial_event {table : Char → Bool} {subject : String} {ev : CoreEvents}
    (h : coreToEvents table (denial subject) = .ok ev) : ev.2.2 = none := by
  obtain ⟨-, -, -, houtcome⟩ := coreToEvents_ok h
  obtain ⟨hsome, -⟩ := coreOutcome_ok houtcome
  exact Option.isNone_iff_eq_none.mp (by rw [← Option.not_isSome, hsome]; rfl)

/-- The first append to an empty log does not fail. -/
theorem appends_fresh (sha256 : List UInt8 → Digest) (serde : Serde) (cfg : LogConfig) (i : ℕ) (actor : Actor)
    (decision : DecisionEvent) :
    Appends sha256 serde cfg freshSession (decisionCall (fun _ => 0) i actor decision) := by
  intro hacc
  have hrecord : record sha256 serde cfg.clamped freshInner freshSession.dir (decisionCall (fun _ => 0) i actor decision) =
      writeRecord freshInner _ .none := record_of_empty serde hacc rfl
  exact ⟨_, congrArg Done.result hrecord⟩

/-- One denial is written. -/
theorem record_batches_denial :
    (Whole (coreRoute fun _ => false) [denial "a transfer"] freshSession
        (writeCoreRecords Sha256.hash Serde.canonical { maxSegmentBytes := 1000, maxSegments := none } (fun _ => 0)
          (fun _ => false) freshSession [denial "a transfer"]) ↔
        ReadableBatch (coreRoute fun _ => false) [denial "a transfer"]) ∧
      (Whole (webRoute fun _ => false) [] freshSession
        (writeRecords Sha256.hash Serde.canonical { maxSegmentBytes := 1000, maxSegments := none } (fun _ => 0)
          (fun _ => false) freshSession []) ↔
        ReadableBatch (webRoute fun _ => false) []) := by
  refine record_batches_iff _ _ _ _ _ _ _ _ ?_ ?_
  · intro events hevents
    obtain ⟨ev, rest, hev, hrest, rfl⟩ := List.forall₂_cons_left_iff.mp (mapM_forall hevents)
    obtain rfl := List.forall₂_nil_left_iff.mp hrest
    obtain ⟨actor, decision, outcome⟩ := ev
    have hev : coreToEvents (fun _ => false) (denial "a transfer") = .ok (actor, decision, outcome) := hev
    obtain rfl : outcome = none := denial_event hev
    exact ⟨appends_fresh _ _ _ 0 actor decision, fun _ _ => trivial⟩
  · intro events hevents
    obtain rfl := List.forall₂_nil_left_iff.mp (mapM_forall hevents)
    trivial

theorem bell_not_legible : ¬ Legible "\x07" := by
  rintro ⟨c, hc, hcontrol, -⟩
  obtain rfl : c = '\x07' := by simpa using hc
  exact absurd hcontrol (by decide)

/-- A decision whose subject is a bell is not accepted. -/
theorem bell_not_accepted {table : Char → Bool} {actor : Actor} {decision : DecisionEvent} {outcome : Option (Outcome × String)}
    (h : coreToEvents table (denial "\x07") = .ok (actor, decision, outcome)) (s : Session) (i : ℕ) :
    ¬ Accepted s.inner (decisionCall (fun _ => 0) i actor decision) := by
  intro hacc
  exact bell_not_legible ((coreToEvents_valid h).mp hacc.entry).subject

/-- A subject of one control character is mapped, and the log refuses it after the record before it is written. -/
theorem unreadable_subject_refused :
    ¬ ∀ (table : Char → Bool) (sha256 : List UInt8 → Digest) (serde : Serde) (cfg : LogConfig) (clock : ℕ → ℕ)
      (s : Session) (core : List CoreHicRecord),
      (∀ events, core.mapM (coreRoute table).toEvents = .ok events → Steady sha256 serde cfg clock s 0 events) →
        Whole (coreRoute table) core s (writeCoreRecords sha256 serde cfg clock table s core) := by
  intro h
  let cfg : LogConfig := { maxSegmentBytes := 1000, maxSegments := none }
  have hsteady : ∀ events, [denial "a transfer", denial "\x07"].mapM (coreRoute fun _ => false).toEvents = .ok events →
      Steady Sha256.hash Serde.canonical cfg (fun _ => 0) freshSession 0 events := by
    intro events hevents
    obtain ⟨ev, rest, hev, hrest, rfl⟩ := List.forall₂_cons_left_iff.mp (mapM_forall hevents)
    obtain ⟨bell, rest', hbell, hrest', rfl⟩ := List.forall₂_cons_left_iff.mp hrest
    obtain rfl := List.forall₂_nil_left_iff.mp hrest'
    obtain ⟨actor, decision, outcome⟩ := ev
    obtain ⟨actor', decision', outcome'⟩ := bell
    have hev : coreToEvents (fun _ => false) (denial "a transfer") = .ok (actor, decision, outcome) := hev
    have hbell : coreToEvents (fun _ => false) (denial "\x07") = .ok (actor', decision', outcome') := hbell
    obtain rfl : outcome = none := denial_event hev
    refine ⟨appends_fresh _ _ _ 0 actor decision, fun rcpt _ => ⟨?_, ?_⟩⟩
    · intro hacc
      exact absurd hacc (bell_not_accepted hbell _ _)
    · intro rcpt hok
      exact absurd (send_ok hok).accepted (bell_not_accepted hbell _ _)
  have hwhole := h (fun _ => false) Sha256.hash Serde.canonical cfg (fun _ => 0) freshSession _ hsteady
  have hreadable := (whole_iff _ _ _ hsteady).mp hwhole (by decide)
  have hbell : (denial "\x07").Readable := by
    refine hreadable ?_ _ (List.mem_cons_of_mem _ (List.mem_singleton_self _))
    intro r hr
    rcases List.mem_cons.mp hr with rfl | hr
    · exact denial_wellFormed (by decide) (by decide)
    · rw [List.mem_singleton.mp hr]
      exact denial_wellFormed (by decide) (by decide)
  exact bell_not_legible hbell.subject

end AgentRuntime.Sidecar
