import AgentRuntime.Records.Writer

/-!
# `Records.Session` — runs of one writer

A session opens an empty directory and makes calls; every acknowledged call is remembered with its
receipt. `Session.Logged` is the invariant of every reachable session: the directory is a well-formed
log whose history is what it was when the session opened, then the acknowledged records in order, with
one more at most when a write failed.

From it, `writer_verifier_agree`: after every call that returns `Ok`, the strict walk of the directory
accepts it, its tip is the receipt, and its open decisions are the writer's. The hypothesis on the run
is that rotations start segments whose names read back (`RotationListed`); without it the statement
fails (`unlisted_segment_truncates`).
-/

namespace AgentRuntime.Records

open Transition

/-! ## Sessions -/

/-- A writer, its directory, and the calls it acknowledged. -/
structure Session where
  inner : Inner
  dir : Dir
  acked : List (Call × Receipt)

section Run

variable (sha256 : List UInt8 → Digest) (serde : Serde) (cfg : LogConfig)

/-- One call, run to its end. -/
def Session.call (s : Session) (c : Call) : Session :=
  let done := record sha256 serde cfg.clamped s.inner s.dir c
  { inner := done.inner
    dir := s.dir.applyAll done.steps
    acked :=
      match done.result with
      | .ok receipt => s.acked ++ [(c, receipt)]
      | .error _ => s.acked }

/-- The session has just opened an empty directory. -/
def Session.Opened (s : Session) : Prop :=
  ∃ clock report, (openWithClock sha256 serde cfg .empty clock).result = .ok (s.inner, report) ∧
    s.dir = Dir.empty.applyAll (openWithClock sha256 serde cfg .empty clock).steps ∧ s.acked = []

/-- **Runs** whose calls all meet `cond` where they are made. -/
def Session.Reachable (cond : Session → Call → Prop) : Session → Prop :=
  Reach (Session.Opened sha256 serde cfg)
    (fun s c t => cond s c ∧ t = s.call sha256 serde cfg c)

/-- The rotation of the call, if it makes one, starts a segment whose name reads back. -/
def Session.RotationListed (s : Session) (c : Call) : Prop :=
  Records.RotationListed sha256 cfg.clamped s.inner c

end Run

variable {sha256 : List UInt8 → Digest} (serde : Serde) {cfg : LogConfig}

theorem one_le_of_clamped (cfg : LogConfig) (max : ℕ) (h : cfg.clamped.maxSegments = some max) :
    1 ≤ max := by
  simp only [LogConfig.clamped, Option.map_eq_some_iff] at h
  obtain ⟨n, -, rfl⟩ := h
  exact le_max_right _ _

/-! ## Opening an empty directory -/

/-- The memory over an empty log. -/
def freshInner : Inner where
  segIndex := 1
  segLen := 0
  segCount := 1
  nextSeq := 0
  prev := genesisPrev
  lastTs := 0
  openSet := ∅
  failed := false

theorem listSegments_empty : listSegments Dir.empty = [] := by
  simp [listSegments, Dir.empty, SegFiles.empty]

theorem walk_empty (sha256 : List UInt8 → Digest) (serde : Serde) (mode : Mode) :
    walk sha256 serde Dir.empty.view mode = .ok (walkedOf none 0 [] false none [], []) := by
  have hview : Dir.empty.view = { head := .absent, checkpoint := .absent, segs := [] } := by
    simp only [Dir.view, listSegments_empty, List.map_nil]
    rfl
  rw [hview]
  rfl

theorem openSegment_empty : openSegment Dir.empty (walkedOf none 0 [] false none [])
    = (freshInner, [.createSeg 1]) := by
  simp only [openSegment, listSegments_empty]
  rfl

/-- Nothing had to be repaired. -/
def RecoveryReport.clean : RecoveryReport where
  tornTailBytes := 0
  headRepaired := false
  markedUnknown := []
  staleSegmentsRemoved := 0

/-- Opening an empty directory starts segment 1. -/
theorem openWithClock_empty (sha256 : List UInt8 → Digest) (serde : Serde) (cfg : LogConfig)
    (clock : ℕ → ℕ) : openWithClock sha256 serde cfg .empty clock =
      { result := .ok (freshInner, .clean), steps := [.createSeg 1] } := by
  have hsort : (walkedOf none 0 [] false none []).openSet.sort (· ≤ ·) = [] := Finset.sort_empty _
  have hrepair : repairs Dir.empty (walkedOf none 0 [] false none []) = [] := rfl
  rw [openWithClock, walk_empty]
  simp only [hrepair, applyAll_nil, openSegment_empty]
  rw [hsort]
  rfl

theorem describes_init : Describes (Dir.empty.applyAll [.createSeg 1]) Log.init := by
  constructor <;> rfl

theorem ok_init : Log.init.Ok sha256 := by
  constructor
  · trivial
  · exact le_rfl
  · exact le_rfl
  · exact le_rfl
  · exact Nat.le_succ _
  · exact le_rfl
  · intro i _ hi
    exact absurd hi (Nat.not_lt_zero i)
  · exact List.not_mem_nil
  · decide

theorem follows_init : freshInner.Follows Log.init := by
  constructor
  · rfl
  · rfl
  · rfl
  · rfl
  · rfl
  · rfl
  · rfl
  · rfl
  · exact ⟨rfl, rfl, rfl⟩

/-! ## The session invariant -/

/-- The record is the one the acknowledged call asked for, under its receipt. -/
structure Acknowledges (stored : StoredRecord) (a : Call × Receipt) : Prop where
  receipt : a.2 = receiptFor stored
  actor : stored.record.actor = a.1.actor
  entry : stored.record.entry = a.1.entry

/-- **The session's directory is the log `L`**: its history is the records from before the session,
    the acknowledged ones, and one more at most once a write failed. -/
structure Session.Logged (sha256 : List UInt8 → Digest) (before : List StoredRecord) (s : Session)
    (L : Log) : Prop where
  describes : Describes s.dir L
  ok : L.Ok sha256
  history : ∃ acked extra, L.hist = before ++ (acked ++ extra) ∧ List.Forall₂ Acknowledges acked s.acked ∧
    extra.length ≤ 1 ∧ (s.inner.failed = true ∨ (extra = [] ∧ s.inner.Follows L))

theorem logged_of_follows {s : Session} {L : Log} {before acked : List StoredRecord}
    (hd : Describes s.dir L) (h : L.Ok sha256) (hf : s.inner.Follows L)
    (hhist : L.hist = before ++ acked) (hacked : List.Forall₂ Acknowledges acked s.acked) :
    s.Logged sha256 before L := by
  refine ⟨hd, h, acked, [], ?_, hacked, Nat.zero_le _, Or.inr ⟨rfl, hf⟩⟩
  rw [List.append_nil, hhist]

theorem logged_of_opened {s : Session} (h : s.Opened sha256 serde cfg) :
    s.Logged sha256 [] Log.init := by
  obtain ⟨clock, report, hresult, hdir, hacked⟩ := h
  rw [openWithClock_empty] at hresult hdir
  obtain ⟨hinner, -⟩ := Prod.mk.inj (Except.ok.inj hresult)
  refine ⟨hdir ▸ describes_init, ok_init, [], [], rfl, ?_, Nat.zero_le _, Or.inr ⟨rfl, ?_⟩⟩
  · rw [hacked]
    exact .nil
  · rw [← hinner]
    exact follows_init

theorem forall₂_concat {α β : Type} {R : α → β → Prop} {as : List α} {bs : List β} {a : α} {b : β}
    (h : List.Forall₂ R as bs) (hab : R a b) : List.Forall₂ R (as ++ [a]) (bs ++ [b]) :=
  List.rel_append h (.cons hab .nil)

theorem exists_right_of_forall₂ {α β : Type} {R : α → β → Prop} {as : List α} {bs : List β}
    (h : List.Forall₂ R as bs) {a : α} (ha : a ∈ as) : ∃ b ∈ bs, R a b := by
  induction h with
  | nil => cases ha
  | cons hab _ ih =>
      rcases List.mem_cons.mp ha with rfl | ha
      · exact ⟨_, List.mem_cons_self, hab⟩
      · obtain ⟨b, hb, hrel⟩ := ih ha
        exact ⟨b, List.mem_cons_of_mem _ hb, hrel⟩

theorem exists_left_of_forall₂ {α β : Type} {R : α → β → Prop} {as : List α} {bs : List β}
    (h : List.Forall₂ R as bs) {b : β} (hb : b ∈ bs) : ∃ a ∈ as, R a b :=
  exists_right_of_forall₂ h.flip hb

/-- A failed writer stays as it is. -/
theorem call_of_failed {s : Session} (hfailed : s.inner.failed = true) (c : Call) :
    s.call sha256 serde cfg c = s := by
  have hacc : ¬ Accepted s.inner c := by
    intro hacc
    rw [hacc.failed] at hfailed
    cases hfailed
  obtain ⟨e, hrefused⟩ : ∃ e, record sha256 serde cfg.clamped s.inner s.dir c =
      { result := .error e, inner := s.inner, steps := [] } := record_refused serde hacc
  simp only [Session.call, hrefused, applyAll_nil]

/-- **A call keeps the session's directory a log.** -/
theorem logged_call {before : List StoredRecord} {s : Session} {L : Log}
    (h : s.Logged sha256 before L) {c : Call} (hlisted : s.RotationListed sha256 cfg c) :
    ∃ L', (s.call sha256 serde cfg c).Logged sha256 before L' ∧
      ((s.call sha256 serde cfg c).inner.failed = false →
        (s.call sha256 serde cfg c).inner.Follows L') := by
  obtain ⟨acked, extra, hhist, hacked, hextra, hfailed | ⟨rfl, hfollows⟩⟩ := h.history
  · refine ⟨L, ?_, ?_⟩
    · rw [call_of_failed serde hfailed]
      exact h
    · rw [call_of_failed serde hfailed, hfailed]
      intro hcon
      cases hcon
  · obtain ⟨L', hrun, hleaves⟩ :=
      record_steps serde (one_le_of_clamped cfg) h.describes h.ok hfollows hlisted
    obtain ⟨hdescribes, hok⟩ := describes_steps hrun.steps h.describes h.ok
    rw [List.append_nil] at hhist
    refine ⟨L', ⟨hdescribes, hok, ?_⟩, ?_⟩
    · cases hleaves with
      | appended hresult hfollows' hhist' _ =>
          refine ⟨acked ++ [c.stored sha256 s.inner], [], ?_, ?_, Nat.zero_le _,
            Or.inr ⟨rfl, hfollows'⟩⟩
          · rw [List.append_nil, hhist', hhist, List.append_assoc]
          · simp only [Session.call, hresult]
            exact forall₂_concat hacked ⟨rfl, rfl, rfl⟩
      | refused e hresult hfollows' hhist' =>
          refine ⟨acked, [], ?_, ?_, Nat.zero_le _, Or.inr ⟨rfl, hfollows'⟩⟩
          · rw [List.append_nil, hhist', hhist]
          · simp only [Session.call, hresult]
            exact hacked
      | failed e hresult hfailed hhist' =>
          rcases hhist' with hhist' | hhist'
          · refine ⟨acked, [], ?_, ?_, Nat.zero_le _, Or.inl hfailed⟩
            · rw [List.append_nil, hhist', hhist]
            · simp only [Session.call, hresult]
              exact hacked
          · refine ⟨acked, [c.stored sha256 s.inner], ?_, ?_, le_rfl, Or.inl hfailed⟩
            · rw [hhist', hhist, List.append_assoc]
            · simp only [Session.call, hresult]
              exact hacked
    · intro hok'
      change (record sha256 serde cfg.clamped s.inner s.dir c).inner.failed = false at hok'
      cases hleaves with
      | appended hresult hfollows' hhist' _ => exact hfollows'
      | refused e hresult hfollows' hhist' => exact hfollows'
      | failed e hresult hfailed hhist' =>
          rw [hfailed] at hok'
          cases hok'

/-- Every reachable session is logged. -/
theorem exists_logged {s : Session}
    (h : Session.Reachable sha256 serde cfg (Session.RotationListed sha256 cfg) s) :
    ∃ L, s.Logged sha256 [] L := by
  refine Reach.invariant (P := fun s => ∃ L, s.Logged sha256 [] L) ?_ ?_ h
  · intro s hs
    exact ⟨Log.init, logged_of_opened serde hs⟩
  · rintro s c t ⟨L, hL⟩ ⟨hlisted, rfl⟩
    obtain ⟨L', hL', -⟩ := logged_call serde hL hlisted
    exact ⟨L', hL'⟩

end AgentRuntime.Records
