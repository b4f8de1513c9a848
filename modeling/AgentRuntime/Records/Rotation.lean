import AgentRuntime.Records.Read

/-!
# `Records.Rotation` — the segment a rotation starts (`agent-records/src/seg.rs`, `store.rs`)

The writer names a segment after any `u32` (`segName`), the readers list the names with eight digits. Below
`segNameBound` the two agree, and the segment that a rotation moves to is the last one listed, with every record on disk
visible to the walk, to `page` and to the next open (`rotation_seen_iff`). The segment `segNameBound` itself is the one a
rotation can move to that is not listed (`rotation_unseen`).
-/

namespace AgentRuntime.Records

open Transition Words Paging

/-- **The segment is listed, and last**, and no record on disk is invisible: every walk, the one of the next open
    included, visits them all, and so do the pages. -/
structure SegmentSeen (sha256 : List UInt8 → Digest) (serde : Serde) (d : Dir) (i : ℕ) : Prop where
  name : parseSegName (segName i) = some i
  last : (listSegments d).getLast? = some i
  walked : ∀ mode, ∃ w visited, walk sha256 serde d.view mode = .ok (w, visited) ∧ ∀ r, d.Holds serde r → r ∈ visited
  paged : ∀ limit, 1 ≤ limit → ∃ rs, Pages seqOf (fun before p => page serde d before limit = .ok p) none rs ∧
    ∀ r, d.Holds serde r → r ∈ rs

variable {sha256 : List UInt8 → Digest} {serde : Serde} {cfg : LogConfig}

/-- At rest, the current segment of a log is seen. -/
theorem seen_of_quiet {d : Dir} {L : Log} (hd : Describes d L) (h : L.Ok sha256) (hq : L.Quiet) (serde : Serde) :
    SegmentSeen sha256 serde d L.index := by
  have hle := h.deleted_le.trans h.covered_le
  constructor
  · rw [parseSegName_segName, if_pos h.listed]
  · rw [listSegments_describes hd h,
      show L.closed.length + 1 - L.deleted = L.closed.length - L.deleted + 1 from by omega, List.range'_concat,
      List.getLast?_concat, Log.index]
    congr 1
    omega
  · intro mode
    obtain ⟨n, stale, hwalk⟩ := walk_quiet serde hd h hq mode
    refine ⟨_, _, hwalk, fun r hr => ?_⟩
    -- nothing stale is left, so what is on disk is what is retained
    rw [hd.holds_iff h, List.flatten_append, List.flatten_singleton, ← hq.covered] at hr
    exact hr
  · intro limit hlimit
    obtain ⟨rs, hpages, -, hmem⟩ := (hd.readsExact h serde).pages limit hlimit
    exact ⟨rs, hpages, fun r hr => (hmem r).mpr hr⟩

theorem listSegments_eq_view (d : Dir) : listSegments d = d.view.segs.map Prod.fst := by
  rw [Dir.view, List.map_map]
  exact (List.map_id (listSegments d)).symm

theorem writeRecord_segIndex (g : Inner) (stored : StoredRecord) (fault : Fault) :
    (writeRecord g stored fault).inner.segIndex = g.segIndex := by
  cases fault <;> rfl

/-- **A rotation is seen exactly below `segNameBound`**: in a run whose rotations were listed so far, the segment that a
    live writer rotates to is seen, after the rotation and after a call that made it and was acknowledged, when its index
    has at most eight digits, and not otherwise. -/
theorem rotation_seen_iff (sha256 : List UInt8 → Digest) (serde : Serde) (cfg : LogConfig) (s : Session)
    (hs : Session.Reachable sha256 serde cfg (Session.RotationListed sha256 cfg) s) (hlive : s.inner.failed = false)
    (hok : (rotate serde cfg.clamped s.inner s.dir).result = .ok ()) :
    (SegmentSeen sha256 serde (s.dir.applyAll (rotate serde cfg.clamped s.inner s.dir).steps)
        (rotate serde cfg.clamped s.inner s.dir).inner.segIndex ∧
      ∀ c receipt, mustRotate cfg.clamped s.inner (c.stored sha256 s.inner) →
        (record sha256 serde cfg.clamped s.inner s.dir c).result = .ok receipt →
          SegmentSeen sha256 serde (s.call sha256 serde cfg c).dir
            (rotate serde cfg.clamped s.inner s.dir).inner.segIndex) ↔
      s.inner.segIndex + 1 < segNameBound := by
  obtain ⟨len, n, hinner⟩ := rotate_ok hok
  rw [hinner]
  constructor
  · rintro ⟨hseen, -⟩
    by_contra hbound
    have hname := hseen.name
    rw [parseSegName_segName, if_neg hbound] at hname
    cases hname
  · intro hbound
    obtain ⟨L, hL⟩ := exists_logged serde hs
    have hf : s.inner.Follows L := by
      obtain ⟨acked, extra, -, -, -, hfailed | ⟨-, hf⟩⟩ := hL.history
      · rw [hlive] at hfailed
        cases hfailed
      · exact hf
    constructor
    · obtain ⟨steps, hrotate, hrun⟩ :=
        rotate_steps serde (one_le_of_clamped cfg) hL.describes hL.ok hf hbound
      obtain ⟨hd', h'⟩ := describes_steps hrun.steps hL.describes hL.ok
      have hf' := @follows_rotate cfg.clamped s.inner L hf (hL.ok.deleted_le.trans hL.ok.covered_le)
      rw [hrotate]
      have hseen := seen_of_quiet hd' h' hf'.quiet serde
      rwa [← hf'.segIndex] at hseen
    · intro c receipt hrot hcall
      obtain ⟨L', stored, hd', h', hf', -, -, -, -⟩ := exists_of_call_ok serde hL (fun _ _ => hbound) hcall
      have hseen := seen_of_quiet hd' h' hf'.quiet serde
      have hacc : Accepted s.inner c := by
        by_contra hnot
        obtain ⟨e, he⟩ : ∃ e, record sha256 serde cfg.clamped s.inner s.dir c =
            { result := .error e, inner := s.inner, steps := [] } := record_refused serde hnot
        rw [he] at hcall
        cases hcall
      have hindex : (s.call sha256 serde cfg c).inner.segIndex = s.inner.segIndex + 1 := by
        show (record sha256 serde cfg.clamped s.inner s.dir c).inner.segIndex = _
        rw [record_accepted serde hacc, if_pos hrot, hok]
        simp only [writeRecord_segIndex, hinner]
      rwa [← hf'.segIndex, hindex] at hseen

/-- The first rotation of a log: segment 2 is listed. -/
theorem rotation_seen_second :
    (listSegments (freshSession.dir.applyAll
      (rotate Serde.canonical oneRecordSegments.clamped freshSession.inner freshSession.dir).steps)).getLast? = some 2 := by
  have hok : (rotate Serde.canonical oneRecordSegments.clamped freshSession.inner freshSession.dir).result = .ok () := by
    decide
  exact ((rotation_seen_iff Sha256.hash Serde.canonical oneRecordSegments freshSession
    (.start (opened_freshSession _ _ _)) rfl hok).mpr (by decide)).1.last

/-- **The segment that is not listed**: approvals that take a segment each come to a rotation that succeeds, moves to
    `seg-100000000.jsonl`, whose name does not read back, and leaves the segment before as the last one listed. -/
theorem rotation_unseen :
    ∃ s, Session.Reachable Sha256.hash Serde.canonical oneRecordSegments
        (Session.RotationListed Sha256.hash oneRecordSegments) s ∧ s.inner.failed = false ∧
      (rotate Serde.canonical oneRecordSegments.clamped s.inner s.dir).result = .ok () ∧
      (rotate Serde.canonical oneRecordSegments.clamped s.inner s.dir).inner.segIndex = 10 ^ 8 ∧
      parseSegName (segName (10 ^ 8)) = none ∧
      (listSegments (s.dir.applyAll (rotate Serde.canonical oneRecordSegments.clamped s.inner s.dir).steps)).getLast? =
        some (10 ^ 8 - 1) := by
  have hn : segNameBound - 2 + 1 < segNameBound := by decide
  obtain ⟨s, L, hs, hL, hf, -, hindex⟩ := exists_session_at Sha256.hash Serde.canonical (segNameBound - 2) hn
  have hbound : L.index + 1 = segNameBound := by
    rw [hindex]
    decide
  obtain ⟨hfresh, hrotate⟩ :=
    @rotate_unlisted _ Serde.canonical oneRecordSegments.clamped _ _ _ hL.describes hL.ok hf hbound rfl
  have hle := hL.ok.deleted_le.trans hL.ok.covered_le
  refine ⟨s, hs, hf.failed, by rw [hrotate], by rw [hrotate]; rfl, ?_, ?_⟩
  · rw [parseSegName_segName]
    exact if_neg (lt_irrefl _)
  · -- the segments that are listed are those from before
    obtain ⟨-, -, hview⟩ := unlisted_written hL.describes hL.ok le_rfl hfresh []
    have hlist : listSegments (s.dir.apply (.createSeg segNameBound)) = listSegments s.dir := by
      rw [listSegments_eq_view, listSegments_eq_view]
      exact congrArg (List.map Prod.fst) hview
    rw [hrotate]
    show (listSegments (s.dir.apply (.createSeg segNameBound))).getLast? = _
    rw [hlist, listSegments_describes hL.describes hL.ok,
      show L.closed.length + 1 - L.deleted = L.closed.length - L.deleted + 1 from by omega, List.range'_concat,
      List.getLast?_concat]
    unfold Log.index at hbound
    unfold segNameBound at hbound
    congr 1
    omega

end AgentRuntime.Records
