import AgentRuntime.Lib.Paging
import AgentRuntime.Records.Crash

/-!
# `Records.Read` — the read API for the UI (`agent-records/src/read.rs`)

Lock-free reads of a records directory. They parse the listed segments and do not verify the chain: `page` and `get` go
from the newest segment back and stop early, `decisionView` scans in order.

The records on disk are the end of the log's history, so their `seq`s ascend from segment to segment and the early exits
miss nothing: on every directory a writer left, the three functions agree with a plain scan of the segment files
(`log_reads_exact`). The records of a segment whose name does not read back are the exception (`reads_miss_unlisted`).
-/

namespace AgentRuntime.Records

open Transition Words Paging

/-! ## The reads -/

/-- A decision together with the outcome that closed it, if any. -/
structure DecisionView where
  decision : StoredRecord
  outcome : Option StoredRecord
deriving DecidableEq

section

variable (serde : Serde)

/-- Take over the records below the cursor, until `limit` are out; and whether they are. -/
def pageRecords (beforeSeq : Option ℕ) (limit : ℕ) :
    List StoredRecord → List StoredRecord → List StoredRecord × Bool
  | [], out => (out, false)
  | r :: rest, out =>
      if beforeSeq.any fun b => decide (r.record.seq ≥ b) then pageRecords beforeSeq limit rest out
      else if (out ++ [r]).length = limit then (out ++ [r], true)
      else pageRecords beforeSeq limit rest (out ++ [r])

/-- The loop of `page`, over the segments from the last one on. -/
def pageSegs (beforeSeq : Option ℕ) (limit : ℕ) :
    List (ℕ × Option (List UInt8)) → List StoredRecord → Except Error (List StoredRecord)
  | [], out => .ok out
  | (index, bytes) :: rest, out => do
      let seg ← readSegment serde index bytes
      match pageRecords beforeSeq limit seg.records.reverse out with
      | (out, true) => pure out
      | (out, false) => pageSegs beforeSeq limit rest out

/-- Up to `limit` records, newest first, with `seq` strictly below `beforeSeq` when given. -/
def page (d : Dir) (beforeSeq : Option ℕ) (limit : ℕ) : Except Error (List StoredRecord) :=
  if limit = 0 then .ok [] else pageSegs serde beforeSeq limit d.view.segs.reverse []

/-- The loop of `get`, over the segments from the last one on. -/
def getSegs (seq : ℕ) : List (ℕ × Option (List UInt8)) → Except Error (Option StoredRecord)
  | [] => .ok none
  | (index, bytes) :: rest => do
      let seg ← readSegment serde index bytes
      match seg.records.head? with
      | none => getSegs seq rest
      | some first =>
          if first.record.seq > seq then getSegs seq rest
          else pure (seg.records.find? fun r => r.record.seq == seq)

/-- The record with this `seq`, if it is retained. -/
def get (d : Dir) (seq : ℕ) : Except Error (Option StoredRecord) := getSegs serde seq d.view.segs.reverse

/-- Scan the records of a segment; on the left, a decision with its outcome. -/
def viewRecords (seq : ℕ) : Option StoredRecord → List StoredRecord → DecisionView ⊕ Option StoredRecord
  | decision, [] => .inr decision
  | decision, r :: rest =>
      match r.record.entry with
      | .decision _ => viewRecords seq (if r.record.seq = seq then some r else decision) rest
      | .outcome o =>
          match decision with
          | some d =>
              if o.decisionSeq = seq then .inl { decision := d, outcome := some r }
              else viewRecords seq (some d) rest
          | none => viewRecords seq none rest

def viewSegs (seq : ℕ) :
    Option StoredRecord → List (ℕ × Option (List UInt8)) → Except Error (Option DecisionView)
  | decision, [] => .ok (decision.map fun d => { decision := d, outcome := none })
  | decision, (index, bytes) :: rest => do
      let seg ← readSegment serde index bytes
      match viewRecords seq decision seg.records with
      | .inl view => pure (some view)
      | .inr decision => viewSegs seq decision rest

/-- The decision with this `seq` and its outcome; `none` when `seq` is not a retained decision. -/
def decisionView (d : Dir) (seq : ℕ) : Except Error (Option DecisionView) := viewSegs serde seq none d.view.segs

/-! ## What they should return -/

/-- What the pages descend by. -/
def seqOf (r : StoredRecord) : ℕ := r.record.seq

/-- The record is a line of a segment file. -/
def Dir.Holds (d : Dir) (r : StoredRecord) : Prop :=
  ∃ e ∈ d.segs.entries, ∃ seg, readSegment serde e.1 (some e.2) = .ok seg ∧ r ∈ seg.records

/-- **Reads agree with a plain scan** of the segment files. -/
structure Dir.ReadsExact (d : Dir) : Prop where
  /-- The pages put together are the records, once each and newest first. -/
  pages : ∀ limit, 1 ≤ limit → ∃ rs,
    Pages seqOf (fun before p => page serde d before limit = .ok p) none rs ∧
      rs.Pairwise (fun a b => seqOf b < seqOf a) ∧ ∀ r, r ∈ rs ↔ d.Holds serde r
  get : ∀ seq, ∃ found, Records.get serde d seq = .ok found ∧
    ∀ r, found = some r ↔ d.Holds serde r ∧ r.record.seq = seq
  view : ∀ seq, ∃ found, decisionView serde d seq = .ok found ∧
    (found.isSome ↔ ∃ r, d.Holds serde r ∧ r.record.seq = seq ∧ ∃ e, r.record.entry = .decision e) ∧
    ∀ v, found = some v → (d.Holds serde v.decision ∧ v.decision.record.seq = seq) ∧
      ∀ r, v.outcome = some r ↔ d.Holds serde r ∧ r.closes seq

/-! ## The loops over segments that can be read -/

/-- The segments hold these records, in order. -/
def ReadAs (s : ℕ × Option (List UInt8)) (rs : List StoredRecord) : Prop :=
  ∃ torn, readSegment serde s.1 s.2 = .ok { records := rs, torn := torn }

end

section

variable {serde : Serde}

theorem pageRecords_eq {beforeSeq : Option ℕ} {limit : ℕ} (rs : List StoredRecord) {out : List StoredRecord}
    (hout : out.length < limit) :
    pageRecords beforeSeq limit rs out =
      ((out ++ below seqOf beforeSeq rs).take limit, decide (limit ≤ (out ++ below seqOf beforeSeq rs).length)) := by
  induction rs generalizing out with
  | nil =>
      simp only [pageRecords, below_nil, List.append_nil]
      rw [List.take_of_length_le hout.le, decide_eq_false (by omega)]
  | cons r rs ih =>
      have hskip : (beforeSeq.any fun b => decide (r.record.seq ≥ b)) =
          !(beforeSeq.all fun b => decide (seqOf r < b)) := by
        cases beforeSeq with
        | none => rfl
        | some b =>
            show decide (r.record.seq ≥ b) = !decide (r.record.seq < b)
            by_cases h : r.record.seq < b
            · simp [h, Nat.not_le.mpr h]
            · simp [h, Nat.not_lt.mp h]
      unfold pageRecords
      rw [hskip]
      cases hbelow : beforeSeq.all fun b => decide (seqOf r < b) with
      | true =>
          have happend : out ++ r :: below seqOf beforeSeq rs = out ++ [r] ++ below seqOf beforeSeq rs :=
            List.append_cons ..
          rw [below_cons_pos hbelow, happend]
          simp only [Bool.not_true, Bool.false_eq_true, if_false]
          split
          · -- the page is full
            rename_i hfull
            rw [List.take_append_of_le_length hfull.ge, List.take_of_length_le hfull.le,
              decide_eq_true (by rw [List.length_append]; omega)]
          · rename_i hroom
            apply ih
            rw [List.length_append, List.length_singleton] at hroom ⊢
            omega
      | false =>
          rw [below_cons_neg hbelow]
          simpa using ih hout

theorem pageSegs_eq {beforeSeq : Option ℕ} {limit : ℕ} {segs : List (ℕ × Option (List UInt8))}
    {parts : List (List StoredRecord)} (hread : List.Forall₂ (ReadAs serde) segs parts) {out : List StoredRecord}
    (hout : out.length < limit) :
    pageSegs serde beforeSeq limit segs out =
      .ok ((out ++ below seqOf beforeSeq (parts.map List.reverse).flatten).take limit) := by
  induction hread generalizing out with
  | nil =>
      simp only [pageSegs, List.map_nil, List.flatten_nil, Paging.below, List.filter_nil, List.append_nil]
      rw [List.take_of_length_le hout.le]
  | @cons s rs segs parts hs hsegs ih =>
      obtain ⟨torn, hs⟩ := hs
      obtain ⟨index, bytes⟩ := s
      unfold pageSegs
      simp only [hs, bind, Except.bind, pageRecords_eq rs.reverse hout, List.map_cons, List.flatten_cons, below_append]
      rw [← List.append_assoc]
      generalize hmore : out ++ below seqOf beforeSeq rs.reverse = more
      by_cases hfull : limit ≤ more.length
      · rw [decide_eq_true hfull, List.take_append_of_le_length hfull]
        rfl
      · have hroom : more.length < limit := by omega
        rw [decide_eq_false hfull, List.take_of_length_le hroom.le]
        exact ih hroom

theorem getSegs_eq {seq : ℕ} {segs : List (ℕ × Option (List UInt8))} {parts : List (List StoredRecord)}
    (hread : List.Forall₂ (ReadAs serde) segs parts)
    (hsorted : parts.reverse.flatten.Pairwise fun a b => a.record.seq < b.record.seq) :
    getSegs serde seq segs = .ok (parts.reverse.flatten.find? fun r => r.record.seq == seq) := by
  induction hread with
  | nil => rfl
  | @cons s rs segs parts hs hsegs ih =>
      obtain ⟨torn, hs⟩ := hs
      obtain ⟨index, bytes⟩ := s
      rw [List.reverse_cons, List.flatten_append, List.flatten_singleton] at hsorted ⊢
      obtain ⟨hbefore, hrs, hcross⟩ := List.pairwise_append.mp hsorted
      unfold getSegs
      simp only [hs, bind, Except.bind]
      rw [List.find?_append]
      cases rs with
      | nil => simpa using ih hbefore
      | cons first rs =>
          simp only [List.head?_cons]
          obtain ⟨hfirst, -⟩ := List.pairwise_cons.mp hrs
          split
          · -- every record of the segment is past `seq`
            rename_i hpast
            have hnone : (first :: rs).find? (fun r => r.record.seq == seq) = none := by
              rw [List.find?_eq_none]
              intro r hr
              rcases List.mem_cons.mp hr with rfl | hr
              · simp only [beq_iff_eq]
                omega
              · have := hfirst r hr
                simp only [beq_iff_eq]
                omega
            rw [hnone, Option.or_none]
            exact ih hbefore
          · -- every record of the segments before is below the first one
            rename_i hfrom
            have hnone : parts.reverse.flatten.find? (fun r => r.record.seq == seq) = none := by
              rw [List.find?_eq_none]
              intro r hr
              have := hcross r hr first List.mem_cons_self
              simp only [beq_iff_eq]
              omega
            rw [hnone, Option.none_or]
            rfl

/-- What the scan has when it is through. -/
def viewOf : DecisionView ⊕ Option StoredRecord → Option DecisionView
  | .inl view => some view
  | .inr decision => decision.map fun d => { decision := d, outcome := none }

theorem viewRecords_append (seq : ℕ) (decision : Option StoredRecord) (rs ss : List StoredRecord) :
    viewRecords seq decision (rs ++ ss) =
      match viewRecords seq decision rs with
      | .inl view => .inl view
      | .inr decision => viewRecords seq decision ss := by
  induction rs generalizing decision with
  | nil => rfl
  | cons r rs ih =>
      rw [List.cons_append]
      cases hentry : r.record.entry with
      | decision e =>
          simp only [viewRecords, hentry]
          exact ih _
      | outcome o =>
          cases decision with
          | none =>
              simp only [viewRecords, hentry]
              exact ih none
          | some d =>
              simp only [viewRecords, hentry]
              split
              · rfl
              · exact ih (some d)

theorem viewSegs_eq {seq : ℕ} {segs : List (ℕ × Option (List UInt8))} {parts : List (List StoredRecord)}
    (hread : List.Forall₂ (ReadAs serde) segs parts) (decision : Option StoredRecord) :
    viewSegs serde seq decision segs = .ok (viewOf (viewRecords seq decision parts.flatten)) := by
  induction hread generalizing decision with
  | nil => rfl
  | @cons s rs segs parts hs hsegs ih =>
      obtain ⟨torn, hs⟩ := hs
      obtain ⟨index, bytes⟩ := s
      unfold viewSegs
      simp only [hs, bind, Except.bind]
      rw [List.flatten_cons, viewRecords_append]
      cases viewRecords seq decision rs with
      | inl view => rfl
      | inr decision => exact ih decision

end

/-! ## A decision and its outcome -/

variable {sha256 : List UInt8 → Digest}

/-- Without the decision, the scan finds nothing. -/
theorem viewRecords_none {seq : ℕ} {rs : List StoredRecord}
    (h : ∀ r ∈ rs, r.record.seq = seq → ∀ e, r.record.entry ≠ .decision e) :
    viewRecords seq none rs = .inr none := by
  induction rs with
  | nil => rfl
  | cons r rs ih =>
      have hrest := ih fun x hx => h x (List.mem_cons_of_mem _ hx)
      cases hentry : r.record.entry with
      | decision e =>
          have hseq : r.record.seq ≠ seq := fun hseq => h r List.mem_cons_self hseq e hentry
          simp only [viewRecords, hentry, if_neg hseq, hrest]
      | outcome o => simp only [viewRecords, hentry, hrest]

/-- After the decision, the first outcome of it is taken. -/
theorem viewRecords_some {seq : ℕ} (d : StoredRecord) {rs : List StoredRecord}
    (h : ∀ r ∈ rs, r.record.seq ≠ seq) :
    (∃ r ∈ rs, r.closes seq ∧ viewRecords seq (some d) rs = .inl { decision := d, outcome := some r }) ∨
      (∀ r ∈ rs, ¬ r.closes seq) ∧ viewRecords seq (some d) rs = .inr (some d) := by
  induction rs with
  | nil => exact Or.inr ⟨by simp, rfl⟩
  | cons r rs ih =>
      have hrest := ih fun x hx => h x (List.mem_cons_of_mem _ hx)
      have hskip : ¬ r.closes seq → viewRecords seq (some d) (r :: rs) = viewRecords seq (some d) rs →
          (∃ x ∈ r :: rs, x.closes seq ∧
            viewRecords seq (some d) (r :: rs) = .inl { decision := d, outcome := some x }) ∨
          (∀ x ∈ r :: rs, ¬ x.closes seq) ∧ viewRecords seq (some d) (r :: rs) = .inr (some d) := by
        intro hnot heq
        rw [heq]
        refine hrest.imp ?_ ?_
        · rintro ⟨x, hx, hcloses, hview⟩
          exact ⟨x, List.mem_cons_of_mem _ hx, hcloses, hview⟩
        · rintro ⟨hnone, hview⟩
          exact ⟨List.forall_mem_cons.mpr ⟨hnot, hnone⟩, hview⟩
      cases hentry : r.record.entry with
      | decision e =>
          apply hskip
          · rintro ⟨o, ho, -⟩
            rw [hentry] at ho
            cases ho
          · simp only [viewRecords, hentry, if_neg (h r List.mem_cons_self)]
      | outcome o =>
          by_cases heq : o.decisionSeq = seq
          · exact Or.inl ⟨r, List.mem_cons_self, ⟨o, hentry, heq⟩, by simp only [viewRecords, hentry, if_pos heq]⟩
          · apply hskip
            · rintro ⟨o', ho', hseq⟩
              rw [hentry] at ho'
              cases ho'
              exact heq hseq
            · simp only [viewRecords, hentry, if_neg heq]

/-- An outcome stands after the decision it closes, which no record before it closes. -/
theorem closes_admitted {front back : List StoredRecord} {r : StoredRecord} {seq : ℕ}
    (h : (recordChain sha256).Accepts Cursor.genesis (front ++ r :: back)) (hcloses : r.closes seq) :
    seq < r.record.seq ∧ ∀ x ∈ front, ¬ x.closes seq := by
  obtain ⟨o, ho, rfl⟩ := hcloses
  have hadm := h.right.1
  have hopen := hadm.outcome o ho
  constructor
  · have hseq : r.record.seq = front.length := by
      rw [hadm.seq, recordChain_afterAll, nextSeq_afterAll h.left]
      simp [Cursor.genesis]
    rw [hseq]
    exact lt_nextSeq_of_mem_openSet h.left hopen
  · intro x hx hclosed
    exact ((mem_openSet_afterAll h.left).mp hopen).2 ⟨x, hx, hclosed⟩

/-- **One outcome at most** closes a decision. -/
theorem closes_unique {rs : List StoredRecord} (h : (recordChain sha256).Accepts Cursor.genesis rs) {seq : ℕ}
    {r r' : StoredRecord} (hr : r ∈ rs) (hr' : r' ∈ rs) (hcloses : r.closes seq) (hcloses' : r'.closes seq) :
    r = r' := by
  obtain ⟨front, back, rfl⟩ := List.append_of_mem hr
  rcases List.mem_append.mp hr' with hr' | hr'
  · exact absurd hcloses' ((closes_admitted h hcloses).2 r' hr')
  · rcases List.mem_cons.mp hr' with rfl | hr'
    · rfl
    · obtain ⟨mid, last, rfl⟩ := List.append_of_mem hr'
      have hassoc : front ++ r :: (mid ++ r' :: last) = (front ++ r :: mid) ++ r' :: last := by simp
      rw [hassoc] at h
      exact absurd hcloses ((closes_admitted h hcloses').2 r (by simp))

/-! ## Reads of a log -/

theorem sorted_of_accepts {c : Cursor} {rs : List StoredRecord} (h : (recordChain sha256).Accepts c rs) :
    rs.Pairwise fun a b => seqOf a < seqOf b := by
  have hseqs : (rs.map seqOf).Pairwise (· < ·) := by
    have heq : rs.map seqOf = List.range' c.nextSeq rs.length := map_seq_of_accepts h
    rw [heq]
    exact List.pairwise_lt_range'
  exact List.pairwise_map.mp hseqs

/-- A `seq` stands for one record of a chain. -/
theorem eq_of_seq_eq {rs : List StoredRecord} (hsorted : rs.Pairwise fun a b => seqOf a < seqOf b)
    {r r' : StoredRecord} (hr : r ∈ rs) (hr' : r' ∈ rs) (hseq : r.record.seq = r'.record.seq) : r = r' := by
  have hnodup : (rs.map seqOf).Nodup := (List.pairwise_map.mpr hsorted).imp fun hlt => hlt.ne
  exact List.inj_on_of_nodup_map hnodup hr hr' hseq

/-- The scan over the end of a chain. -/
theorem view_exact {before rs : List StoredRecord}
    (hchain : (recordChain sha256).Accepts Cursor.genesis (before ++ rs)) (seq : ℕ) :
    ((viewOf (viewRecords seq none rs)).isSome ↔ ∃ r ∈ rs, r.record.seq = seq ∧ ∃ e, r.record.entry = .decision e) ∧
    ∀ v, viewOf (viewRecords seq none rs) = some v → (v.decision ∈ rs ∧ v.decision.record.seq = seq) ∧
      ∀ r, v.outcome = some r ↔ r ∈ rs ∧ r.closes seq := by
  have hsorted := sorted_of_accepts hchain.right
  by_cases hdecision : ∃ r ∈ rs, r.record.seq = seq ∧ ∃ e, r.record.entry = .decision e
  swap
  · have hnone : viewRecords seq none rs = .inr none :=
      viewRecords_none fun r hr hseq e he => hdecision ⟨r, hr, hseq, e, he⟩
    rw [hnone]
    exact ⟨iff_of_false (by simp [viewOf]) hdecision, fun v hv => by cases hv⟩
  obtain ⟨d, hd, hseq, e, he⟩ := id hdecision
  obtain ⟨front, back, rfl⟩ := List.append_of_mem hd
  obtain ⟨-, htail, hcross⟩ := List.pairwise_append.mp hsorted
  -- the scan has the decision when it comes to the records after it
  have hfront : viewRecords seq none front = .inr none := by
    refine viewRecords_none fun r hr hrseq => ?_
    have hlt : r.record.seq < d.record.seq := hcross r hr d List.mem_cons_self
    omega
  have hscan : viewRecords seq none (front ++ d :: back) = viewRecords seq (some d) back := by
    rw [viewRecords_append, hfront]
    simp only [viewRecords, he, if_pos hseq]
  have hback : ∀ r ∈ back, r.record.seq ≠ seq := by
    intro r hr hrseq
    have hlt : d.record.seq < r.record.seq := (List.pairwise_cons.mp htail).1 r hr
    omega
  -- what closes it stands after it
  have hcloses : ∀ r ∈ front ++ d :: back, r.closes seq → r ∈ back := by
    intro r hr hc
    have hlt : seq < r.record.seq := by
      obtain ⟨pre, post, hsplit⟩ := List.append_of_mem hr
      rw [hsplit, ← List.append_assoc] at hchain
      exact (closes_admitted hchain hc).1
    rcases List.mem_append.mp hr with hr | hr
    · have hlt' : r.record.seq < d.record.seq := hcross r hr d List.mem_cons_self
      omega
    · rcases List.mem_cons.mp hr with rfl | hr
      · omega
      · exact hr
  rw [hscan]
  rcases viewRecords_some d hback with ⟨o, ho, hoc, hview⟩ | ⟨hnone, hview⟩
  · rw [hview]
    refine ⟨iff_of_true rfl hdecision, ?_⟩
    rintro v ⟨⟩
    refine ⟨⟨hd, hseq⟩, fun r => ⟨?_, ?_⟩⟩
    · rintro ⟨⟩
      exact ⟨List.mem_append_right _ (List.mem_cons_of_mem _ ho), hoc⟩
    · rintro ⟨hr, hc⟩
      have hmem : o ∈ before ++ (front ++ d :: back) :=
        List.mem_append_right _ (List.mem_append_right _ (List.mem_cons_of_mem _ ho))
      exact congrArg some (closes_unique hchain hmem (List.mem_append_right _ hr) hoc hc)
  · rw [hview]
    refine ⟨iff_of_true rfl hdecision, ?_⟩
    rintro v ⟨⟩
    refine ⟨⟨hd, hseq⟩, fun r => iff_of_false (by simp) ?_⟩
    rintro ⟨hr, hc⟩
    exact hnone r (hcloses r hr hc) hc

/-- **Reads are exact** where the listed segments hold, in order, the end of a chain, and no file holds more. -/
theorem readsExact_of (sha256 : List UInt8 → Digest) {serde : Serde} {d : Dir} (before : List StoredRecord)
    (parts : List (List StoredRecord))
    (hchain : (recordChain sha256).Accepts Cursor.genesis (before ++ parts.flatten))
    (hread : List.Forall₂ (ReadAs serde) d.view.segs parts)
    (hholds : ∀ r, d.Holds serde r ↔ r ∈ parts.flatten) : d.ReadsExact serde := by
  have hsorted := sorted_of_accepts hchain.right
  have hback : List.Forall₂ (ReadAs serde) d.view.segs.reverse parts.reverse := List.rel_reverse hread
  constructor
  · intro limit hlimit
    refine ⟨parts.flatten.reverse, ?_, List.pairwise_reverse.mpr hsorted, fun r => ?_⟩
    · have hpages := pages_below (List.pairwise_reverse.mpr hsorted) hlimit
        (fun before p => page serde d before limit = .ok p) (fun before => ?_) none
      · rwa [below_none] at hpages
      · rw [page, if_neg (by omega), pageSegs_eq hback (Nat.lt_of_lt_of_le Nat.zero_lt_one hlimit), List.nil_append, List.map_reverse,
          ← List.reverse_flatten]
    · rw [List.mem_reverse, hholds]
  · intro seq
    refine ⟨parts.flatten.find? fun r => r.record.seq == seq, ?_, fun r => ?_⟩
    · rw [Records.get, getSegs_eq hback (by rwa [List.reverse_reverse]), List.reverse_reverse]
    · rw [hholds]
      constructor
      · intro hfound
        exact ⟨List.mem_of_find?_eq_some hfound, by simpa using List.find?_some hfound⟩
      · rintro ⟨hmem, hseq⟩
        cases hfind : parts.flatten.find? fun r => r.record.seq == seq with
        | none => exact absurd hseq (by simpa using List.find?_eq_none.mp hfind r hmem)
        | some x =>
            have hx : x.record.seq = seq := by simpa using List.find?_some hfind
            rw [eq_of_seq_eq hsorted (List.mem_of_find?_eq_some hfind) hmem (hx.trans hseq.symm)]
  · intro seq
    obtain ⟨hsome, hview⟩ := view_exact hchain seq
    refine ⟨_, viewSegs_eq hread none, ?_, ?_⟩
    · simpa only [hholds] using hsome
    · simpa only [hholds] using hview

theorem Describes.readAs {d : Dir} {L : Log} (hd : Describes d L) (h : L.Ok sha256) (serde : Serde) :
    List.Forall₂ (fun e rs => ReadAs serde (e.1, some e.2) rs) d.segs.entries (L.closed.drop L.deleted ++ [L.cur]) := by
  rw [hd.entries, Log.entries]
  refine List.rel_append ?_ (.cons ⟨_, readSegment_encodeSeg serde L.index L.cur h.tail⟩ .nil)
  have hclosed : L.closed.drop L.deleted = ((numbered L.closed).drop L.deleted).map Prod.snd := by
    rw [List.map_drop, map_snd_numbered]
  rw [hclosed, List.forall₂_map_left_iff, List.forall₂_map_right_iff]
  exact List.forall₂_same.mpr fun s _ => ⟨_, readSegment_encodeSeg_whole serde s.1 s.2⟩

theorem Describes.holds_iff {d : Dir} {L : Log} (hd : Describes d L) (h : L.Ok sha256) (serde : Serde)
    (r : StoredRecord) : d.Holds serde r ↔ r ∈ (L.closed.drop L.deleted ++ [L.cur]).flatten := by
  have hread := hd.readAs h serde
  constructor
  · rintro ⟨e, he, seg, hseg, hr⟩
    obtain ⟨rs, hrs, torn, htorn⟩ := exists_right_of_forall₂ hread he
    rw [hseg] at htorn
    cases htorn
    exact List.mem_flatten.mpr ⟨rs, hrs, hr⟩
  · intro hr
    obtain ⟨rs, hrs, hmem⟩ := List.mem_flatten.mp hr
    obtain ⟨e, he, torn, htorn⟩ := exists_left_of_forall₂ hread hrs
    exact ⟨e, he, _, htorn, hmem⟩

theorem hist_eq_deleted_append (L : Log) :
    L.hist = (L.closed.take L.deleted).flatten ++ (L.closed.drop L.deleted ++ [L.cur]).flatten := by
  rw [List.flatten_append, List.flatten_singleton, ← List.append_assoc, ← List.flatten_append, List.take_append_drop]
  rfl

/-- **Reads of a described directory are exact.** -/
theorem Describes.readsExact {d : Dir} {L : Log} (hd : Describes d L) (h : L.Ok sha256) (serde : Serde) :
    d.ReadsExact serde := by
  refine readsExact_of sha256 (L.closed.take L.deleted).flatten (L.closed.drop L.deleted ++ [L.cur]) ?_ ?_ fun r => hd.holds_iff h serde r
  · rw [← hist_eq_deleted_append]
    exact h.chain
  · rw [hd.view_segs h, ← hd.entries, List.forall₂_map_left_iff]
    exact hd.readAs h serde

/-- Nothing is read from a directory nothing was written to. -/
theorem readsExact_empty (serde : Serde) : Dir.empty.ReadsExact serde := by
  have hsegs : Dir.empty.view.segs = [] := by
    rw [Dir.view, listSegments_empty]
    rfl
  refine readsExact_of Sha256.hash [] [] trivial ?_ fun r => ?_
  · rw [hsegs]
    exact .nil
  · simp [Dir.Holds, Dir.empty, SegFiles.empty]

/-! ## Every directory a writer can leave -/

/-- The directory, with or without a process that has it open. -/
def World.dir : World → Dir
  | .running _ s => s.dir
  | .stopped _ d => d

/-- **Reads are exact on every directory a writer can leave**: while it is open, between the steps of a call where a
    process stopped, and after, in every run whose rotations start segments that read back. -/
theorem log_reads_exact (sha256 : List UInt8 → Digest) (serde : Serde) (cfg : LogConfig) (w : World)
    (h : World.Reachable sha256 serde cfg (World.Listed sha256 serde cfg) w) : w.dir.ReadsExact serde := by
  have hkept := World.kept serde h
  cases w with
  | running past s =>
      obtain ⟨parts, closings, L, hparts, hclosings, hL⟩ := hkept
      exact hL.describes.readsExact hL.ok serde
  | stopped past d =>
      obtain ⟨parts, hparts, ⟨rfl, hnil⟩ | ⟨L, hd, hok, hhist⟩⟩ := hkept
      · exact readsExact_empty serde
      · exact hd.readsExact hok serde

/-- The first approval of a log, read back after the process stopped. -/
theorem log_reads_exact_approval :
    ∃ r, Records.get Serde.canonical (freshSession.call Sha256.hash Serde.canonical ⟨1, some 1⟩ approval).dir 0 =
      .ok (some r) := by
  have hexact := log_reads_exact Sha256.hash Serde.canonical ⟨1, some 1⟩ _ reachable_approval
  obtain ⟨found, hget, hfound⟩ := hexact.get 0
  obtain ⟨hd, h, -⟩ := approved Sha256.hash Serde.canonical ⟨1, some 1⟩
  -- the record is in the only segment
  have hholds := (hd.holds_iff h Serde.canonical (approval.stored Sha256.hash freshInner)).mpr
    (by simp [approvedLog, Log.push, Log.init])
  exact ⟨_, hget.trans (congrArg Except.ok ((hfound _).mpr ⟨hholds, rfl⟩))⟩

/-! ### A record no read finds -/

/-- A session is a world of one process. -/
theorem reachable_running {serde : Serde} {cfg : LogConfig} {s : Session}
    (h : Session.Reachable sha256 serde cfg (fun _ _ => True) s) :
    World.Reachable sha256 serde cfg (fun _ _ => True) (.running [] s) := by
  refine Reach.invariant (P := fun s => World.Reachable sha256 serde cfg (fun _ _ => True) (.running [] s)) ?_ ?_ h
  · rintro ⟨g, d, acked⟩ ⟨clock, report, hok, rfl, rfl⟩
    exact .next (l := .opens clock) (.start rfl) ⟨trivial, .opens [] .empty clock g report hok⟩
  · rintro s c t hs ⟨-, rfl⟩
    exact .next (l := .calls c) hs ⟨trivial, .calls [] s c⟩

/-- **A call that rotates to `segNameBound`** is acknowledged, its record is a line of a segment file, and no read
    finds it. -/
theorem get_unlisted (serde : Serde) {cfg : LogConfig} {g : Inner} {d : Dir} {L : Log} (hd : Describes d L)
    (h : L.Ok sha256) (hf : g.Follows L) (hbound : L.index + 1 = segNameBound) {c : Call} (hacc : Accepted g c)
    (hfault : c.fault = .none) (hcfg : cfg.maxSegments = none) (hrot : mustRotate cfg g (c.stored sha256 g)) :
    (d.applyAll (record sha256 serde cfg g d c).steps).Holds serde (c.stored sha256 g) ∧
      Records.get serde (d.applyAll (record sha256 serde cfg g d c).steps) (c.stored sha256 g).record.seq = .ok none := by
  obtain ⟨hfresh, -, hsteps⟩ := record_unlisted serde hd h hf hbound hacc hfault hcfg hrot
  have hseq : (c.stored sha256 g).record.seq = L.hist.length := hf.nextSeq.trans h.nextSeq_cursor
  rw [hsteps]
  generalize c.stored sha256 g = stored at hseq ⊢
  obtain ⟨hentries, -, hview⟩ := unlisted_written hd h le_rfl hfresh (stored.toVec ++ [10])
  rw [applyAll_append, applyAll_append, applyAll_cons, applyAll_nil, applyAll_cons, applyAll_nil]
  generalize (d.apply (.createSeg segNameBound)).applyAll (writeLine segNameBound (stored.toVec ++ [10])) = written
    at hentries hview ⊢
  constructor
  · refine ⟨(segNameBound, stored.toVec ++ [10]), ?_, ?_⟩
    · show _ ∈ written.segs.entries
      rw [hentries]
      exact List.mem_append_right _ List.mem_cons_self
    · rw [← encodeSeg_singleton]
      exact ⟨_, readSegment_encodeSeg_whole serde segNameBound [stored], List.mem_cons_self⟩
  · -- the segments that are read are those from before the call
    have hsame : Records.get serde (written.apply (.replaceHead { seq := stored.record.seq, hash := stored.hash }))
        stored.record.seq = Records.get serde d stored.record.seq := by
      unfold Records.get
      rw [← hview]
      rfl
    obtain ⟨found, hget, hfound⟩ := (hd.readsExact h serde).get stored.record.seq
    rw [hsame, hget]
    cases found with
    | none => rfl
    | some r =>
        obtain ⟨hr, hrseq⟩ := (hfound r).mp rfl
        rw [hd.holds_iff h] at hr
        have hmem : r ∈ L.hist := by
          rw [hist_eq_deleted_append]
          exact List.mem_append_right _ hr
        have hlt := (seq_of_mem h.chain hmem).2
        simp only [Cursor.genesis, Nat.zero_add] at hlt
        omega

/-- Without the condition on rotations, reads miss a record: approvals that take a segment each reach the segment that is
    not listed. -/
theorem reads_miss_unlisted :
    ∃ w r, World.Reachable Sha256.hash Serde.canonical oneRecordSegments (fun _ _ => True) w ∧
      w.dir.Holds Serde.canonical r ∧ Records.get Serde.canonical w.dir r.record.seq = .ok none ∧
      ¬ w.dir.ReadsExact Serde.canonical := by
  have hn : segNameBound - 2 + 1 < segNameBound := by decide
  obtain ⟨s, L, hs, hL, hf, hcur, hindex⟩ :=
    exists_session_at Sha256.hash Serde.canonical (segNameBound - 2) hn
  have hbound : L.index + 1 = segNameBound := by
    rw [hindex]
    decide
  have hrot := mustRotate_oneRecord (segLen_pos hf hcur) (approval.stored Sha256.hash s.inner)
  obtain ⟨hholds, hget⟩ := get_unlisted Serde.canonical hL.describes hL.ok hf hbound
    (accepted_approval hf.failed) rfl rfl hrot
  refine ⟨.running [] (s.call Sha256.hash Serde.canonical oneRecordSegments approval), _,
    .next (l := .calls approval) (reachable_running (reachable_any Serde.canonical hs)) ⟨trivial, .calls [] s approval⟩, hholds, hget, ?_⟩
  intro hexact
  obtain ⟨found, hfound, hiff⟩ := hexact.get (approval.stored Sha256.hash s.inner).record.seq
  have hsome := (hiff _).mpr ⟨hholds, rfl⟩
  rw [hsome] at hfound
  exact absurd (hfound.symm.trans hget) (by simp)

end AgentRuntime.Records
