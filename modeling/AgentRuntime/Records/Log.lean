import AgentRuntime.Lib.Transition
import AgentRuntime.Records.Store
import AgentRuntime.Records.Walk

/-!
# `Records.Log` — the abstract log and its directory

A `Log` is what a records directory means: every segment ever started with its records, how many of
them are deleted and how many CHECKPOINT stands for, the incomplete line after the current segment and
how far `HEAD` has come. `Describes` says that a directory is laid out that way, `Log.Step` is what one
durable file step may do to the meaning, and a directory executes a step as the log takes it
(`describes_apply`). `Ok` holds along every step (`ok_step`), so a crash or a reader between two steps
finds a described, well-formed log.
-/

namespace AgentRuntime.Records

open Transition

/-! ## Logs -/

structure Log where
  /-- The finished segments, index 1 first, deleted ones included. -/
  closed : List (List StoredRecord)
  /-- The records of the segment being written. -/
  cur : List StoredRecord
  /-- How many finished segments were deleted. -/
  deleted : ℕ
  /-- How many finished segments CHECKPOINT stands for. -/
  covered : ℕ
  /-- An incomplete line at the end of the current segment. -/
  tail : List UInt8
  /-- How many records `HEAD` has seen. -/
  headAt : ℕ

namespace Log

/-- A log with one empty segment. -/
def init : Log := { closed := [], cur := [], deleted := 0, covered := 0, tail := [], headAt := 0 }

/-- Every record ever made durable, in order. -/
def hist (L : Log) : List StoredRecord := L.closed.flatten ++ L.cur

/-- The records behind CHECKPOINT. -/
def pruned (L : Log) : List StoredRecord := (L.closed.take L.covered).flatten

/-- The records of the retained chain. -/
def retained (L : Log) : List StoredRecord := (L.closed.drop L.covered).flatten ++ L.cur

/-- Index of the segment being written. -/
def index (L : Log) : ℕ := L.closed.length + 1

theorem pruned_append_retained (L : Log) : L.pruned ++ L.retained = L.hist := by
  rw [pruned, retained, hist, ← List.append_assoc, ← List.flatten_append, List.take_append_drop]

/-- The position after every record. -/
def cursor (L : Log) : Cursor := Cursor.genesis.afterAll L.hist

/-- **Well-formed logs.** -/
structure Ok (sha256 : List UInt8 → Digest) (L : Log) : Prop where
  chain : (recordChain sha256).Accepts Cursor.genesis L.hist
  deleted_le : L.deleted ≤ L.covered
  covered_le : L.covered ≤ L.closed.length
  head_le : L.headAt ≤ L.hist.length
  head_lag : L.hist.length ≤ L.headAt + 1
  /-- Only what `HEAD` has seen is pruned. -/
  pruned_le : L.pruned.length ≤ L.headAt
  /-- CHECKPOINT is written before a segment is deleted only for its records. -/
  stale_ne : ∀ i, L.deleted ≤ i → i < L.covered → L.closed[i]? ≠ some []
  tail : (10 : UInt8) ∉ L.tail
  listed : L.index < segNameBound

/-- Nothing is in flight. -/
structure Quiet (L : Log) : Prop where
  tail : L.tail = []
  head : L.headAt = L.hist.length
  covered : L.covered = L.deleted

end Log

/-! ## The directory of a log -/

/-- `HEAD` after the records `rs`. -/
def headFor (rs : List StoredRecord) : Option Head :=
  rs.getLast?.map fun r => { seq := r.record.seq, hash := r.hash }

/-- CHECKPOINT after pruning the records `rs`. -/
def checkpointFor (rs : List StoredRecord) : Option Checkpoint :=
  rs.getLast?.map fun r =>
    { nextSeq := r.record.seq + 1
      prev := r.hash
      tsMs := r.record.tsMs
      openSeqs := (Cursor.genesis.afterAll rs).openSet.sort (· ≤ ·) }

/-- A JSON file as its writer leaves it. -/
def JsonFile.ofOption {α : Type} : Option α → JsonFile α
  | none => .absent
  | some value => .ok value

@[simp] theorem readJsonFile_ofOption {α : Type} (o : Option α) :
    readJsonFile (JsonFile.ofOption o) = .ok o := by
  cases o <;> rfl

/-- Segments with their indices, the first one being index 1. -/
def numbered (segs : List (List StoredRecord)) : List (ℕ × List StoredRecord) :=
  (segs.zipIdx 1).map Prod.swap

@[simp] theorem length_numbered (segs : List (List StoredRecord)) :
    (numbered segs).length = segs.length := by
  simp [numbered]

theorem map_snd_numbered (segs : List (List StoredRecord)) : (numbered segs).map Prod.snd = segs := by
  rw [numbered, List.map_map]
  exact List.zipIdx_map_fst 1 segs

theorem map_fst_numbered (segs : List (List StoredRecord)) :
    (numbered segs).map Prod.fst = List.range' 1 segs.length := by
  rw [numbered, List.map_map]
  exact List.zipIdx_map_snd 1 segs

theorem numbered_concat (segs : List (List StoredRecord)) (s : List StoredRecord) :
    numbered (segs ++ [s]) = numbered segs ++ [(segs.length + 1, s)] := by
  simp [numbered, List.zipIdx_append, Nat.add_comm]

/-- A finished segment's file. -/
def closedEntry (s : ℕ × List StoredRecord) : ℕ × List UInt8 := (s.1, encodeSeg s.2)

/-- The segment files of a log. -/
def Log.entries (L : Log) : List (ℕ × List UInt8) :=
  ((numbered L.closed).drop L.deleted).map closedEntry ++ [(L.index, encodeSeg L.cur ++ L.tail)]

/-- **The directory means the log.** -/
structure Describes (d : Dir) (L : Log) : Prop where
  entries : d.segs.entries = L.entries
  checkpoint : d.checkpoint = .ofOption (checkpointFor L.pruned)
  head : d.head = .ofOption (headFor (L.hist.take L.headAt))

theorem map_fst_entries {L : Log} (h : L.deleted ≤ L.closed.length) :
    L.entries.map Prod.fst = List.range' (L.deleted + 1) (L.closed.length + 1 - L.deleted) := by
  have hfst : ((numbered L.closed).drop L.deleted).map (Prod.fst ∘ closedEntry)
      = List.range' (L.deleted + 1) (L.closed.length - L.deleted) := by
    change ((numbered L.closed).drop L.deleted).map Prod.fst = _
    rw [List.map_drop, map_fst_numbered, List.drop_range']
    congr 1
    omega
  rw [Log.entries, List.map_append, List.map_map, hfst, List.map_singleton,
    show L.closed.length + 1 - L.deleted = L.closed.length - L.deleted + 1 from by omega,
    List.range'_concat, Log.index]
  congr 2
  omega

/-! ## What the walk's reads return -/

theorem lookup_of_nodup {entries : List (ℕ × List UInt8)} (h : (entries.map Prod.fst).Nodup)
    {e : ℕ × List UInt8} (he : e ∈ entries) : entries.lookup e.1 = some e.2 := by
  induction entries with
  | nil => cases he
  | cons x entries ih =>
      obtain ⟨k, bytes⟩ := x
      rw [List.map_cons, List.nodup_cons] at h
      rcases List.mem_cons.mp he with rfl | hmem
      · simp
      · have hne : e.1 ≠ k := by
          intro heq
          apply h.1
          rw [← heq]
          exact List.mem_map.mpr ⟨e, hmem, rfl⟩
        rw [List.lookup_cons, beq_eq_false_iff_ne.mpr hne]
        exact ih h.2 hmem

/-- Files with ascending indices are listed when their names read back, and others are not. -/
theorem listSegments_of_sorted {d : Dir} {listed unlisted : List (ℕ × List UInt8)}
    (hentries : d.segs.entries = listed ++ unlisted)
    (hsorted : (listed.map Prod.fst).Pairwise (· ≤ ·))
    (hlisted : ∀ e ∈ listed, e.1 < segNameBound)
    (hunlisted : ∀ e ∈ unlisted, segNameBound ≤ e.1) :
    listSegments d = listed.map Prod.fst := by
  have hmap : (listed.filterMap fun e => parseSegName (segName e.1)) = listed.map Prod.fst := by
    rw [← List.filterMap_eq_map]
    apply List.filterMap_congr
    intro e he
    rw [parseSegName_segName, if_pos (hlisted e he)]
    rfl
  have hnone : (unlisted.filterMap fun e => parseSegName (segName e.1)) = [] := by
    apply List.filterMap_eq_nil_iff.mpr
    intro e he
    rw [parseSegName_segName, if_neg (Nat.not_lt.mpr (hunlisted e he))]
  rw [listSegments, hentries, List.filterMap_append, hmap, hnone, List.append_nil]
  exact List.mergeSort_of_pairwise (hsorted.imp fun hab => decide_eq_true hab)

theorem view_segs_of_sorted {d : Dir} {listed unlisted : List (ℕ × List UInt8)}
    (hentries : d.segs.entries = listed ++ unlisted)
    (hsorted : (listed.map Prod.fst).Pairwise (· ≤ ·))
    (hlisted : ∀ e ∈ listed, e.1 < segNameBound)
    (hunlisted : ∀ e ∈ unlisted, segNameBound ≤ e.1) :
    d.view.segs = listed.map fun e => (e.1, some e.2) := by
  rw [Dir.view, listSegments_of_sorted hentries hsorted hlisted hunlisted, List.map_map]
  apply List.map_congr_left
  intro e he
  have hmem : e ∈ d.segs.entries := hentries ▸ List.mem_append_left _ he
  exact congrArg (Prod.mk e.1) (lookup_of_nodup d.segs.nodup hmem)

theorem entries_sorted {L : Log} (h : L.deleted ≤ L.closed.length) :
    (L.entries.map Prod.fst).Pairwise (· ≤ ·) := by
  rw [map_fst_entries h]
  exact List.pairwise_le_range'

theorem entries_listed {L : Log} (h : L.deleted ≤ L.closed.length) (hlisted : L.index < segNameBound) :
    ∀ e ∈ L.entries, e.1 < segNameBound := by
  intro e he
  have hmem := List.mem_map_of_mem (f := Prod.fst) he
  rw [map_fst_entries h, List.mem_range'_1] at hmem
  unfold Log.index at hlisted
  omega

/-! ## Positions of a log -/

theorem cursorOf_checkpointFor (rs : List StoredRecord) :
    cursorOf (checkpointFor rs) = Cursor.genesis.afterAll rs := by
  rcases List.eq_nil_or_concat rs with rfl | ⟨init, last, rfl⟩
  · rfl
  · simp only [checkpointFor, List.concat_eq_append, List.getLast?_concat, Option.map_some, cursorOf,
      Finset.sort_toFinset, afterAll_concat]
    rfl

theorem openSet_retained (L : Log) :
    ((cursorOf (checkpointFor L.pruned)).afterAll L.retained).openSet = L.cursor.openSet := by
  rw [cursorOf_checkpointFor, ← afterAll_append, L.pruned_append_retained, Log.cursor]

variable {sha256 : List UInt8 → Digest} {serde : Serde}

section Ok

variable {L : Log} (h : L.Ok sha256)

include h

theorem Log.Ok.chain_pruned : (recordChain sha256).Accepts Cursor.genesis L.pruned := by
  have hchain := h.chain
  rw [← L.pruned_append_retained] at hchain
  exact hchain.left

theorem Log.Ok.chain_retained :
    (recordChain sha256).Accepts (Cursor.genesis.afterAll L.pruned) L.retained := by
  have hchain := h.chain
  rw [← L.pruned_append_retained] at hchain
  exact hchain.right

/-- The first retained `seq` is the number of pruned records. -/
theorem Log.Ok.floor_eq : floorOf (checkpointFor L.pruned) = L.pruned.length := by
  rw [← nextSeq_cursorOf, cursorOf_checkpointFor, nextSeq_afterAll h.chain_pruned]
  simp [Cursor.genesis]

theorem Log.Ok.nextSeq_cursor : L.cursor.nextSeq = L.hist.length := by
  rw [Log.cursor, nextSeq_afterAll h.chain]
  simp [Cursor.genesis]

/-- Record `i` of the history carries `seq` `i`. -/
theorem Log.Ok.seq_getElem {i : ℕ} (hi : i < L.hist.length) : (L.hist[i]).record.seq = i := by
  rw [AgentRuntime.Records.seq_getElem h.chain hi]
  simp [Cursor.genesis]

/-- The last of a prefix of the history. -/
theorem Log.Ok.headFor_take {n : ℕ} (hn : 0 < n) (hle : n ≤ L.hist.length) :
    headFor (L.hist.take n) = some { seq := n - 1, hash := (L.hist[n - 1]).hash } := by
  have hlast : (L.hist.take n).getLast? = some L.hist[n - 1] := by
    rw [List.getLast?_eq_getElem?, List.length_take, Nat.min_eq_left hle,
      List.getElem?_take_of_lt (by omega), List.getElem?_eq_getElem]
  rw [headFor, hlast, Option.map_some, h.seq_getElem]

end Ok

theorem Log.length_hist (L : Log) : L.hist.length = L.pruned.length + L.retained.length := by
  rw [← L.pruned_append_retained, List.length_append]

/-! ## The walk over the directory of a log -/

/-- Deleted from the chain, not yet from the directory. -/
def Log.stale (L : Log) : List (ℕ × List StoredRecord) :=
  ((numbered L.closed).take L.covered).drop L.deleted

/-- The finished segments of the retained chain. -/
def Log.live (L : Log) : List (ℕ × List StoredRecord) := (numbered L.closed).drop L.covered

theorem Log.stale_append_live {L : Log} (h : L.deleted ≤ L.covered) :
    L.stale ++ L.live = (numbered L.closed).drop L.deleted := by
  rw [stale, live, List.drop_take]
  conv_rhs => rw [← List.take_append_drop (L.covered - L.deleted) ((numbered L.closed).drop L.deleted),
    List.drop_drop, Nat.add_sub_cancel' h]

theorem Log.live_flatMap (L : Log) : L.live.flatMap Prod.snd ++ L.cur = L.retained := by
  rw [live, List.flatMap_def, List.map_drop, map_snd_numbered, retained]

theorem Log.mem_pruned_of_stale {L : Log} {s : ℕ × List StoredRecord} (hs : s ∈ L.stale)
    {r : StoredRecord} (hr : r ∈ s.2) : r ∈ L.pruned := by
  have hmem : s.2 ∈ ((numbered L.closed).take L.covered).map Prod.snd :=
    List.mem_map_of_mem (List.mem_of_mem_drop hs)
  rw [List.map_take, map_snd_numbered] at hmem
  exact List.mem_flatten.mpr ⟨s.2, hmem, hr⟩

theorem Describes.view_segs {d : Dir} {L : Log} (hd : Describes d L) (h : L.Ok sha256) :
    d.view.segs = L.entries.map fun e => (e.1, some e.2) := by
  have hle := h.deleted_le.trans h.covered_le
  have hentries : d.segs.entries = L.entries ++ [] := by rw [hd.entries, List.append_nil]
  exact view_segs_of_sorted hentries (entries_sorted hle) (entries_listed hle h.listed) (by simp)

theorem Describes.laidOut {d : Dir} {L : Log} (hd : Describes d L) (h : L.Ok sha256) :
    d.view.LaidOut sha256 (headFor (L.hist.take L.headAt)) (checkpointFor L.pruned) L.stale L.live
      (L.index, L.cur) L.tail := by
  have hlt : ∀ r ∈ L.pruned, r.record.seq < L.pruned.length := by
    intro r hr
    have := (seq_of_mem h.chain_pruned hr).2
    simpa [Cursor.genesis] using this
  constructor
  · change readJsonFile d.head = _
    rw [hd.head, readJsonFile_ofOption]
  · change readJsonFile d.checkpoint = _
    rw [hd.checkpoint, readJsonFile_ofOption]
  · rw [hd.view_segs h, Log.entries, ← Log.stale_append_live h.deleted_le, List.map_append,
      List.map_map]
    rfl
  · exact h.tail
  · intro s hs r hr
    rw [h.floor_eq]
    exact hlt r (Log.mem_pruned_of_stale hs hr)
  · intro s hs r hr hseq cp hcp
    -- the record just before the floor is the last pruned one
    have hmem := Log.mem_pruned_of_stale hs hr
    rw [h.floor_eq] at hseq
    obtain ⟨i, hi, rfl⟩ := List.getElem_of_mem hmem
    have hi' := seq_getElem h.chain_pruned hi
    have hlast : L.pruned.getLast? = some L.pruned[i] := by
      rw [List.getLast?_eq_getElem?, List.getElem?_eq_getElem (by omega)]
      congr 2
      simp [Cursor.genesis] at hi'
      omega
    rw [checkpointFor, hlast, Option.map_some, Option.some_inj] at hcp
    rw [← hcp]
  · rw [cursorOf_checkpointFor, Log.live_flatMap]
    exact h.chain_retained

/-! ## The check of the tip against HEAD -/

theorem hashAt_of_mem {c : Cursor} {rs : List StoredRecord}
    (hchain : (recordChain sha256).Accepts c rs) {r : StoredRecord} (hr : r ∈ rs) {h : Head}
    (hseq : h.seq = r.record.seq) : hashAt (some h) rs = some r.hash := by
  induction rs using List.reverseRecOn with
  | nil => cases hr
  | append_singleton rs x ih =>
      rw [hashAt_concat]
      have hx : x.record.seq = c.nextSeq + rs.length := by
        rw [((recordChain sha256).accepts_concat.mp hchain).2.seq, recordChain_afterAll,
          nextSeq_afterAll hchain.left]
      rcases List.mem_append.mp hr with hr | hr
      · have hlt := (seq_of_mem hchain.left hr).2
        have hne : ¬ (some h).any (fun h => h.seq == x.record.seq) = true := by
          simp only [Option.any_some, beq_iff_eq]
          omega
        rw [if_neg hne]
        exact ih hchain.left hr
      · obtain rfl := List.mem_singleton.mp hr
        rw [if_pos (by simpa using hseq)]

section CheckHead

variable {L : Log} (h : L.Ok sha256) {mode : Mode}

include h

theorem Log.Ok.tip_eq (hne : L.retained ≠ []) :
    ∃ r, L.retained.getLast? = some r ∧ L.hist.getLast? = some r ∧
      r.record.seq + 1 = L.hist.length ∧ r ∈ L.retained := by
  obtain ⟨init, r, hinit⟩ := (List.eq_nil_or_concat L.retained).resolve_left hne
  rw [List.concat_eq_append] at hinit
  have hhist : L.hist = (L.pruned ++ init) ++ [r] := by
    rw [← L.pruned_append_retained, hinit, List.append_assoc]
  have hlen : L.hist.length = (L.pruned ++ init).length + 1 := by
    rw [hhist, List.length_append, List.length_singleton]
  have hlt : (L.pruned ++ init).length < L.hist.length := by omega
  have hseq := h.seq_getElem hlt
  have hget : L.hist[(L.pruned ++ init).length] = r := by simp [hhist]
  rw [hget] at hseq
  refine ⟨r, ?_, ?_, by omega, ?_⟩
  · rw [hinit, List.getLast?_concat]
  · rw [hhist, List.getLast?_concat]
  · rw [hinit]
    exact List.mem_append_right _ List.mem_cons_self

/-- `HEAD` names a retained record: the check passes, strictly when at most one record follows. -/
theorem Log.Ok.checkHead_retained {n : ℕ} (hlow : L.pruned.length < n) (hle : n ≤ L.hist.length)
    (hlag : L.hist.length ≤ n + 1 ∨ mode = .live) :
    checkHead mode (headFor (L.hist.take n)) (checkpointFor L.pruned)
      (L.retained.getLast?.map StoredRecord.tip) (hashAt (headFor (L.hist.take n)) L.retained)
      = .ok (decide (n < L.hist.length)) := by
  have hlen := L.length_hist
  obtain ⟨r, hlast, hhist, hseq, -⟩ := h.tip_eq (List.ne_nil_of_length_pos (by omega))
  have hmem : L.hist[n - 1] ∈ L.retained := by
    have hget : L.hist[n - 1]? = L.retained[n - 1 - L.pruned.length]? := by
      rw [← L.pruned_append_retained, List.getElem?_append_right (by omega)]
    rw [List.getElem?_eq_getElem (by omega)] at hget
    exact List.mem_of_getElem? hget.symm
  have hseqAt : n - 1 = (L.hist[n - 1]).record.seq := (h.seq_getElem (by omega)).symm
  have hhash : hashAt (some { seq := n - 1, hash := L.hist[n - 1].hash }) L.retained
      = some L.hist[n - 1].hash := hashAt_of_mem h.chain_retained hmem hseqAt
  have htip : n - 1 = r.record.seq → r.hash = L.hist[n - 1].hash := by
    intro heq
    have hget : L.hist.getLast? = some L.hist[n - 1] := by
      rw [List.getLast?_eq_getElem?, List.getElem?_eq_getElem (by omega)]
      congr 2
      omega
    rw [hget, Option.some_inj] at hhist
    rw [hhist]
  rw [h.headFor_take (by omega) hle, hlast, hhash]
  simp only [Option.map_some, StoredRecord.tip, checkHead, h.floor_eq]
  rw [if_neg (by omega), if_neg (by omega), if_neg (by simp), if_neg (by tauto), if_neg]
  · congr 2
    exact propext ⟨fun _ => by omega, fun _ => by omega⟩
  · rintro ⟨hgt, hmode⟩
    rcases hlag with hlag | hlag
    · omega
    · exact hmode hlag

/-- `HEAD` is current. -/
theorem Log.Ok.checkHead_current :
    checkHead mode (headFor (L.hist.take L.hist.length)) (checkpointFor L.pruned)
      (L.retained.getLast?.map StoredRecord.tip)
      (hashAt (headFor (L.hist.take L.hist.length)) L.retained) = .ok false := by
  have hlen := L.length_hist
  by_cases hne : L.retained = []
  · have hpruned : L.hist = L.pruned := by rw [← L.pruned_append_retained, hne, List.append_nil]
    rw [hne, List.take_length, hpruned]
    rcases List.eq_nil_or_concat L.pruned with hnil | ⟨init, last, hlast⟩
    · rw [hnil]
      rfl
    · rw [List.concat_eq_append] at hlast
      simp [hlast, headFor, checkpointFor, checkHead]
  · have hpos := List.length_pos_of_ne_nil hne
    rw [h.checkHead_retained (by omega) le_rfl (Or.inl (by omega))]
    simp

end CheckHead

/-- **The walk over the directory of a log** visits its retained chain. -/
theorem Describes.walk_eq {d : Dir} {L : Log} (hd : Describes d L) (h : L.Ok sha256) {mode : Mode}
    (hmode : L.tail = [] ∨ mode ≠ .strict) :
    walk sha256 serde d.view mode = (do
      let lag ← checkHead mode (headFor (L.hist.take L.headAt)) (checkpointFor L.pruned)
        (L.retained.getLast?.map StoredRecord.tip)
        (hashAt (headFor (L.hist.take L.headAt)) L.retained)
      pure (walkedOf (checkpointFor L.pruned) d.view.segs.length L.retained lag
        (tornMark mode L.index L.cur L.tail) (staleIndices L.stale), L.retained)) := by
  have hwalk : walk sha256 serde d.view mode = _ := walk_laidOut (hd.laidOut h) hmode
  simp only [Log.live_flatMap] at hwalk
  exact hwalk

end AgentRuntime.Records
