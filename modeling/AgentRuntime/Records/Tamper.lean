import AgentRuntime.Lib.HashChain
import AgentRuntime.Records.Agreement

/-!
# `Records.Tamper` — what an accepted directory says about its records

The retained records are a hash chain: each one links to the hash of the one before it, and the hash
determines the record (`canonicalJson_injective` and a hash without collisions on the records at hand).
So the tip determines the retained records (`kept_eq_of_tip`), and `HEAD` with CHECKPOINT determine them
up to the record `HEAD` names (`kept_eq_of_head`).

Two edits stay possible under the same `HEAD` and CHECKPOINT (`edits_that_pass`): of the one record that
may follow `HEAD`, and of records in segments CHECKPOINT stands for, which the walk skips unread.
-/

namespace AgentRuntime.Records

open Transition HashChain

variable {sha256 : List UInt8 → Digest} {serde : Serde}

/-! ## Records are a hash chain -/

/-- What the hash of each record is taken over. -/
def hashInputs (rs : List StoredRecord) : List (List UInt8) := rs.map fun r => r.record.hashInput

theorem linked_of_accepts {c : Cursor} {rs : List StoredRecord}
    (h : (recordChain sha256).Accepts c rs) :
    Linked (fun r : StoredRecord => r.record.prev) StoredRecord.hash c.prev rs := by
  induction rs generalizing c with
  | nil => trivial
  | cons r rs ih =>
      obtain ⟨hadm, hrest⟩ := accepts_cons_iff.mp h
      exact ⟨hadm.prev, ih hrest⟩

theorem hashMatches_of_mem {c : Cursor} {rs : List StoredRecord}
    (h : (recordChain sha256).Accepts c rs) {r : StoredRecord} (hr : r ∈ rs) :
    r.hashMatches sha256 = true := by
  obtain ⟨pre, post, rfl⟩ := List.append_of_mem hr
  exact (accepts_cons_iff.mp h.right).1.hash

/-- **A hash determines its record.** -/
theorem eq_of_hash_eq {r s : StoredRecord} (hr : r.hashMatches sha256 = true)
    (hs : s.hashMatches sha256 = true) {inputs : List (List UInt8)}
    (hcf : CollisionFreeOn sha256 inputs) (hrmem : r.record.hashInput ∈ inputs)
    (hsmem : s.record.hashInput ∈ inputs) (heq : r.hash = s.hash) : r = s := by
  rw [hashMatches_iff] at hr hs
  have hdigest : r.record.hashBytes sha256 = s.record.hashBytes sha256 := by
    apply hexEncode_injective
    show r.record.hashHex sha256 = s.record.hashHex sha256
    rw [hr, hs] at heq
    exact heq
  have hbody : r.record = s.record := hashInput_injective (hcf _ hrmem _ hsmem hdigest)
  rw [hr, hs, hbody]

/-- The hash a chain ends in determines the chain, for a given length. -/
theorem eq_of_end {c c' : Cursor} {rs ss : List StoredRecord}
    (hr : (recordChain sha256).Accepts c rs) (hs : (recordChain sha256).Accepts c' ss)
    {inputs : List (List UInt8)} (hcf : CollisionFreeOn sha256 inputs)
    (hrs : ∀ x ∈ hashInputs rs, x ∈ inputs) (hss : ∀ x ∈ hashInputs ss, x ∈ inputs)
    (hlen : rs.length = ss.length)
    (hend : endOf StoredRecord.hash c.prev rs = endOf StoredRecord.hash c'.prev ss) : rs = ss := by
  refine (Linked.eq_of_end (linked_of_accepts hr) (linked_of_accepts hs) hlen hend ?_).1
  intro r hr' s hs' heq
  exact eq_of_hash_eq (hashMatches_of_mem hr hr') (hashMatches_of_mem hs hs') hcf
    (hrs _ (List.mem_map.mpr ⟨r, hr', rfl⟩)) (hss _ (List.mem_map.mpr ⟨s, hs', rfl⟩)) heq

/-! ## What `verify_dir` accepts -/

theorem eq_ofOption {α : Type} {f : JsonFile α} {o : Option α} (h : readJsonFile f = .ok o) :
    f = .ofOption o := by
  cases f with
  | absent => cases Except.ok.inj h; rfl
  | malformed => cases h
  | ok value => cases Except.ok.inj h; rfl

/-- The retained records of an accepted directory: a chain from CHECKPOINT that `HEAD` checks. -/
structure Dir.Verified (sha256 : List UInt8 → Digest) (serde : Serde) (d : Dir) (head : Option Head)
    (checkpoint : Option Checkpoint) (report : VerifyReport) : Prop where
  head_eq : d.head = .ofOption head
  checkpoint_eq : d.checkpoint = .ofOption checkpoint
  chain : (recordChain sha256).Accepts (cursorOf checkpoint) (d.kept serde)
  checked : ∃ lag, checkHead .strict head checkpoint ((d.kept serde).getLast?.map StoredRecord.tip)
    (hashAt head (d.kept serde)) = .ok lag
  tip : report.tip = (d.kept serde).getLast?.map fun r => (r.record.seq, r.hash)
  firstSeq : report.firstSeq = (d.kept serde).head?.map fun r => r.record.seq

theorem verified_of_verifyDir {d : Dir} {report : VerifyReport}
    (h : verifyDir sha256 serde d = .ok report) :
    ∃ head checkpoint, d.Verified sha256 serde head checkpoint report := by
  obtain ⟨⟨w, visited⟩, hwalk, hreport⟩ := Except.bind_eq_ok.mp h
  obtain ⟨head, checkpoint, lag, torn, stale, hhead, hcp, hkept, hacc, hcheck, rfl⟩ :=
    walk_sound hwalk
  have hcheckpoint : d.checkpoint = .ofOption checkpoint := eq_ofOption hcp
  have hfloor : d.floor = floorOf checkpoint := by
    rw [Dir.floor, hcheckpoint]
    cases checkpoint <;> rfl
  have hvisited : d.kept serde = visited := by
    rw [hkept, Dir.kept, hfloor]
  obtain rfl := Except.ok.inj hreport
  rw [← hvisited] at hacc hcheck
  refine ⟨head, checkpoint, eq_ofOption hhead, hcheckpoint, hacc, ⟨lag, hcheck⟩, ?_, ?_⟩
  · simp only [Walked.report, walkedOf, hvisited, Option.map_map]
    rfl
  · simp only [Walked.report, walkedOf, hvisited]

/-- What the strict check of `HEAD` says when there is a tip. -/
theorem checkHead_strict {head : Option Head} {checkpoint : Option Checkpoint} {seq : ℕ}
    {hash : String} {ts : ℕ} {at? : Option String} {lag : Bool}
    (h : checkHead .strict head checkpoint (some (seq, hash, ts)) at? = .ok lag) :
    ∃ hd, head = some hd ∧ floorOf checkpoint ≤ hd.seq ∧ hd.seq ≤ seq ∧ seq ≤ hd.seq + 1 ∧
      at? = some hd.hash := by
  cases head with
  | none => cases h
  | some hd =>
      unfold checkHead at h
      simp only at h
      split at h
      · cases h
      case isFalse hpast =>
        split at h
        · cases h
        case isFalse hfloor =>
          split at h
          · cases h
          case isFalse hmatch =>
            split at h
            · cases h
            · split at h
              · cases h
              case isFalse hlag =>
                have hlow : ¬ hd.seq < floorOf checkpoint := by
                  intro hlt
                  exact hfloor ⟨hlt, by decide⟩
                have hat : at? = some hd.hash := by
                  by_contra hne
                  exact hmatch ⟨hlow, hne⟩
                have hnear : ¬ seq - hd.seq > 1 := by
                  intro hgt
                  exact hlag ⟨hgt, by decide⟩
                exact ⟨hd, rfl, by omega, by omega, by omega, hat⟩

theorem checkHead_strict_none {head : Option Head} {checkpoint : Option Checkpoint}
    {at? : Option String} {lag : Bool} (h : checkHead .strict head checkpoint none at? = .ok lag) :
    ∀ hd, head = some hd → hd.seq < floorOf checkpoint := by
  rintro hd rfl
  unfold checkHead at h
  simp only at h
  split at h
  case isTrue hnames =>
    cases checkpoint with
    | none => simp at hnames
    | some cp =>
        simp only [Option.any_some, Bool.and_eq_true, beq_iff_eq] at hnames
        show hd.seq < cp.nextSeq
        omega
  case isFalse => cases h

/-! ## The retained records are determined -/

theorem ends_of_accepts {c : Cursor} {rs : List StoredRecord}
    (h : (recordChain sha256).Accepts c rs) (hne : rs ≠ []) :
    ∃ first last, rs.head? = some first ∧ first.record.seq = c.nextSeq ∧ rs.getLast? = some last ∧
      last.record.seq + 1 = c.nextSeq + rs.length ∧
      endOf StoredRecord.hash c.prev rs = last.hash := by
  obtain ⟨first, rest, rfl⟩ := List.exists_cons_of_ne_nil hne
  have hlast := List.getLast?_eq_some_getLast hne
  refine ⟨first, _, rfl, (accepts_cons_iff.mp h).1.seq, hlast, ?_, ?_⟩
  · rw [List.getLast_eq_getElem hne, seq_getElem h]
    simp only [List.length_cons]
    omega
  · rw [endOf_eq_getLast, hlast]
    rfl

/-- **The tip determines the retained records**, from the first retained `seq` on. -/
theorem kept_eq_of_tip {d d' : Dir} {head head' : Option Head} {checkpoint checkpoint' : Option Checkpoint}
    {report report' : VerifyReport} (h : d.Verified sha256 serde head checkpoint report)
    (h' : d'.Verified sha256 serde head' checkpoint' report')
    (hcf : CollisionFreeOn sha256 (hashInputs (d.kept serde) ++ hashInputs (d'.kept serde)))
    (htip : report.tip = report'.tip) (hfirst : report.firstSeq = report'.firstSeq) :
    d.kept serde = d'.kept serde := by
  rw [h.tip, h'.tip] at htip
  rw [h.firstSeq, h'.firstSeq] at hfirst
  by_cases hne : d.kept serde = []
  · rw [hne] at htip ⊢
    exact (List.getLast?_eq_none_iff.mp (Option.map_eq_none_iff.mp htip.symm)).symm
  · have hne' : d'.kept serde ≠ [] := by
      intro hnil
      rw [hnil] at htip
      exact hne (List.getLast?_eq_none_iff.mp (Option.map_eq_none_iff.mp htip))
    obtain ⟨first, last, hf, hfseq, hl, hlseq, hend⟩ := ends_of_accepts h.chain hne
    obtain ⟨first', last', hf', hfseq', hl', hlseq', hend'⟩ := ends_of_accepts h'.chain hne'
    rw [hl, hl', Option.map_some, Option.map_some, Option.some_inj, Prod.mk.injEq] at htip
    rw [hf, hf', Option.map_some, Option.map_some, Option.some_inj] at hfirst
    refine eq_of_end h.chain h'.chain hcf ?_ ?_ ?_ ?_
    · intro x hx
      exact List.mem_append_left _ hx
    · intro x hx
      exact List.mem_append_right _ hx
    · omega
    · rw [hend, hend', htip.2]

/-- The retained records, cut behind the record `HEAD` names. -/
theorem cut_at_head {d : Dir} {hd : Head} {checkpoint : Option Checkpoint} {report : VerifyReport}
    (h : d.Verified sha256 serde (some hd) checkpoint report) (hne : d.kept serde ≠ []) :
    floorOf checkpoint ≤ hd.seq ∧ ∃ common extra, d.kept serde = common ++ extra ∧
      common.length = hd.seq + 1 - floorOf checkpoint ∧ extra.length ≤ 1 ∧
      (∀ r ∈ extra, hd.seq < r.record.seq) ∧
      endOf StoredRecord.hash (cursorOf checkpoint).prev common = hd.hash := by
  obtain ⟨lag, hcheck⟩ := h.checked
  obtain ⟨first, last, -, -, hlast, hseq, -⟩ := ends_of_accepts h.chain hne
  rw [hlast] at hcheck
  obtain ⟨named, hnamed, hfloor, hle, hlag, hat⟩ := checkHead_strict hcheck
  obtain rfl := Option.some.inj hnamed
  rw [nextSeq_cursorOf] at hseq
  refine ⟨hfloor, (d.kept serde).take (hd.seq + 1 - floorOf checkpoint),
    (d.kept serde).drop (hd.seq + 1 - floorOf checkpoint), (List.take_append_drop _ _).symm, ?_, ?_,
    ?_, ?_⟩
  · rw [List.length_take]
    omega
  · rw [List.length_drop]
    omega
  · intro r hr
    obtain ⟨i, hi, rfl⟩ := List.getElem_of_mem hr
    rw [List.getElem_drop, seq_getElem h.chain, nextSeq_cursorOf]
    omega
  · have hchain := h.chain
    rw [← List.take_append_drop (hd.seq + 1 - floorOf checkpoint) (d.kept serde)] at hchain
    have hlen : ((d.kept serde).take (hd.seq + 1 - floorOf checkpoint)).length
        = hd.seq + 1 - floorOf checkpoint := by
      rw [List.length_take]
      omega
    obtain ⟨-, named, -, -, hnamed, hnamedSeq, hend⟩ :=
      ends_of_accepts hchain.left (List.ne_nil_of_length_pos (by omega))
    rw [hlen, nextSeq_cursorOf] at hnamedSeq
    -- the walk compared `HEAD` with this record
    have hmem : named ∈ d.kept serde := List.mem_of_mem_take (List.mem_of_getLast? hnamed)
    rw [hashAt_of_mem h.chain hmem (by omega), Option.some_inj] at hat
    rw [hend, hat]

/-- Without a retained record `HEAD` names one before CHECKPOINT, or nothing. -/
theorem head_of_kept_nil {d : Dir} {head : Option Head} {checkpoint : Option Checkpoint}
    {report : VerifyReport} (h : d.Verified sha256 serde head checkpoint report)
    (hnil : d.kept serde = []) : ∀ hd, head = some hd → hd.seq < floorOf checkpoint := by
  obtain ⟨lag, hcheck⟩ := h.checked
  rw [hnil] at hcheck
  exact checkHead_strict_none hcheck

theorem kept_nil_of_head_none {d : Dir} {checkpoint : Option Checkpoint} {report : VerifyReport}
    (h : d.Verified sha256 serde none checkpoint report) : d.kept serde = [] := by
  by_contra hne
  obtain ⟨lag, hcheck⟩ := h.checked
  obtain ⟨first, last, -, -, hlast, -, -⟩ := ends_of_accepts h.chain hne
  rw [hlast] at hcheck
  obtain ⟨named, hnamed, -⟩ := checkHead_strict hcheck
  cases hnamed

/-- **`HEAD` and CHECKPOINT determine the retained records up to `HEAD`**; one more may follow. -/
theorem kept_eq_of_head {d d' : Dir} {head : Option Head} {checkpoint : Option Checkpoint}
    {report report' : VerifyReport} (h : d.Verified sha256 serde head checkpoint report)
    (h' : d'.Verified sha256 serde head checkpoint report')
    (hcf : CollisionFreeOn sha256 (hashInputs (d.kept serde) ++ hashInputs (d'.kept serde))) :
    ∃ common extra extra', d.kept serde = common ++ extra ∧ d'.kept serde = common ++ extra' ∧
      extra.length ≤ 1 ∧ extra'.length ≤ 1 ∧
      ∀ hd, head = some hd → ∀ r ∈ extra ++ extra', hd.seq < r.record.seq := by
  cases head with
  | none =>
      refine ⟨[], [], [], kept_nil_of_head_none h, kept_nil_of_head_none h', Nat.zero_le _,
        Nat.zero_le _, ?_⟩
      rintro hd hnone
      cases hnone
  | some hd =>
      by_cases hne : d.kept serde = []
      · have hlow := head_of_kept_nil h hne hd rfl
        have hne' : d'.kept serde = [] := by
          by_contra hne'
          have hhigh := (cut_at_head h' hne').1
          omega
        exact ⟨[], [], [], hne, hne', Nat.zero_le _, Nat.zero_le _, fun _ _ r hr => by cases hr⟩
      · obtain ⟨hhigh, common, extra, hkept, hlen, hextra, hseq, hend⟩ := cut_at_head h hne
        have hne' : d'.kept serde ≠ [] := by
          intro hnil
          have hlow := head_of_kept_nil h' hnil hd rfl
          omega
        obtain ⟨-, common', extra', hkept', hlen', hextra', hseq', hend'⟩ := cut_at_head h' hne'
        have hchain := h.chain
        have hchain' := h'.chain
        rw [hkept] at hchain
        rw [hkept'] at hchain'
        have hsame : common = common' := by
          refine eq_of_end hchain.left hchain'.left hcf ?_ ?_ (hlen.trans hlen'.symm)
            (hend.trans hend'.symm)
          · intro x hx
            rw [hkept, hashInputs, List.map_append]
            exact List.mem_append_left _ (List.mem_append_left _ hx)
          · intro x hx
            rw [hkept', hashInputs, hashInputs, List.map_append]
            exact List.mem_append_right _ (List.mem_append_left _ hx)
        refine ⟨common, extra, extra', hkept, hsame ▸ hkept', hextra, hextra', ?_⟩
        intro hd' hhd' r hr
        obtain rfl := Option.some.inj hhd'
        rcases List.mem_append.mp hr with hr | hr
        · exact hseq r hr
        · exact hseq' r hr

/-! ## Tamper evidence -/

theorem kept_of_walk {d : Dir} {mode : Mode} {w : Walked} {visited : List StoredRecord}
    (h : walk sha256 serde d.view mode = .ok (w, visited)) : d.kept serde = visited := by
  obtain ⟨head, checkpoint, lag, torn, stale, -, hcp, hkept, -⟩ := walk_sound h
  have hcheckpoint : d.checkpoint = .ofOption checkpoint := eq_ofOption hcp
  rw [hkept, Dir.kept, Dir.floor, hcheckpoint]
  cases checkpoint <;> rfl

theorem verifyDir_of_walk {d : Dir} {w : Walked} {visited : List StoredRecord}
    (h : walk sha256 serde d.view .strict = .ok (w, visited)) :
    verifyDir sha256 serde d = .ok w.report := by
  rw [verifyDir, h]
  rfl

/-- A quiet log with a retained record, and the same log with one more record that `HEAD` has not
    seen: both are accepted. -/
theorem verify_push {d : Dir} {L : Log} (hd : Describes d L) (h : L.Ok sha256) (hq : L.Quiet)
    (hne : L.retained ≠ []) {r : StoredRecord} (hadm : L.cursor.Admits sha256 r) :
    ∃ report report', verifyDir sha256 serde d = .ok report ∧
      verifyDir sha256 serde (d.applyAll (writeLine L.index (r.toVec ++ [10]))) = .ok report' ∧
      d.kept serde = L.retained ∧
      (d.applyAll (writeLine L.index (r.toVec ++ [10]))).kept serde = L.retained ++ [r] := by
  obtain ⟨n, stale, hwalk⟩ := walk_quiet serde hd h hq .strict
  obtain ⟨hd', h'⟩ := describes_steps (writeStored_steps hq hadm).steps hd h
  have hretained : (L.push r).retained = L.retained ++ [r] := (List.append_assoc _ _ _).symm
  have hwalk' : ∃ w, walk sha256 serde (d.applyAll (writeLine L.index (r.toVec ++ [10]))).view .strict
      = .ok (w, L.retained ++ [r]) := by
    have hlen := L.length_hist
    have hpos := List.length_pos_of_ne_nil hne
    have hhead : (L.push r).headAt = L.hist.length := hq.head
    have hpruned : (L.push r).pruned = L.pruned := rfl
    have hhist := hist_push L r
    have hlow : (L.push r).pruned.length < L.hist.length := by
      rw [hpruned]
      omega
    have hlag : (L.push r).hist.length ≤ L.hist.length + 1 := by
      rw [hhist, List.length_append, List.length_singleton]
    have hle : L.hist.length ≤ (L.push r).hist.length := by
      rw [hhist, List.length_append]
      exact Nat.le_add_right _ _
    rw [hd'.walk_eq h' (Or.inl rfl), hhead, h'.checkHead_retained hlow hle (Or.inl hlag), hretained]
    exact ⟨_, rfl⟩
  obtain ⟨w, hwalk'⟩ := hwalk'
  exact ⟨_, _, verifyDir_of_walk hwalk, verifyDir_of_walk hwalk', kept_of_walk hwalk,
    kept_of_walk hwalk'⟩

/-- **The chain is tamper evident from its tip.** Of two directories that `verify_dir` accepts, the
    same tip and first `seq` mean the same retained records; and the same `HEAD` and CHECKPOINT mean
    the same retained records up to the one `HEAD` names, with at most one more behind it in each. So
    every edit of the retained records that keeps `HEAD` and CHECKPOINT, but for adding, dropping or
    replacing that last one, makes `verify_dir` fail. -/
theorem tamper_evident (sha256 : List UInt8 → Digest) (serde : Serde) (d d' : Dir)
    (report report' : VerifyReport) (h : verifyDir sha256 serde d = .ok report)
    (h' : verifyDir sha256 serde d' = .ok report')
    (hcf : CollisionFreeOn sha256 (hashInputs (d.kept serde) ++ hashInputs (d'.kept serde))) :
    (report.tip = report'.tip → report.firstSeq = report'.firstSeq →
      d.kept serde = d'.kept serde) ∧
    (d.head = d'.head → d.checkpoint = d'.checkpoint →
      ∃ common extra extra', d.kept serde = common ++ extra ∧ d'.kept serde = common ++ extra' ∧
        extra.length ≤ 1 ∧ extra'.length ≤ 1 ∧
        ∀ head, d.head = .ok head → ∀ r ∈ extra ++ extra', head.seq < r.record.seq) := by
  obtain ⟨head, checkpoint, hv⟩ := verified_of_verifyDir h
  obtain ⟨head', checkpoint', hv'⟩ := verified_of_verifyDir h'
  refine ⟨kept_eq_of_tip hv hv' hcf, ?_⟩
  intro hhead hcheckpoint
  have hsameHead : head' = head := by
    have hfile := hv.head_eq.symm.trans (hhead.trans hv'.head_eq)
    cases head <;> cases head' <;> cases hfile <;> rfl
  have hsameCheckpoint : checkpoint' = checkpoint := by
    have hfile := hv.checkpoint_eq.symm.trans (hcheckpoint.trans hv'.checkpoint_eq)
    cases checkpoint <;> cases checkpoint' <;> cases hfile <;> rfl
  subst hsameHead hsameCheckpoint
  obtain ⟨common, extra, extra', hkept, hkept', hextra, hextra', hseq⟩ := kept_eq_of_head hv hv' hcf
  refine ⟨common, extra, extra', hkept, hkept', hextra, hextra', ?_⟩
  intro hd hhd
  apply hseq
  rw [hv.head_eq] at hhd
  cases head' <;> cases hhd
  rfl

/-- The writer's memory after its first approval. -/
noncomputable def approvedInner : Inner :=
  (freshSession.call Sha256.hash Serde.canonical ⟨1, some 1⟩ approval).inner

theorem secondApproval_hash_ne :
    Sha256.hash (approval.stored Sha256.hash freshInner).record.hashInput ≠
      Sha256.hash (approval.stored Sha256.hash approvedInner).record.hashInput := by
  decide +kernel

/-- The log after one approval, and with a second one behind `HEAD`: both are accepted, and share what
    `HEAD` names. -/
theorem tamper_evident_approvals :
    ∃ (d d' : Dir) (common extra extra' : List StoredRecord), d.kept Serde.canonical = common ++ extra ∧
      d'.kept Serde.canonical = common ++ extra' ∧ extra.length ≤ 1 ∧ extra'.length ≤ 1 ∧
      (d.kept Serde.canonical).length = 1 ∧ (d'.kept Serde.canonical).length = 2 := by
  obtain ⟨hd, h, hf⟩ := approved Sha256.hash Serde.canonical ⟨1, some 1⟩
  have hadm : (approvedLog (approval.stored Sha256.hash freshInner)).cursor.Admits Sha256.hash
      (approval.stored Sha256.hash approvedInner) := admits_stored hf (accepted_approval hf.failed)
  have hne := secondApproval_hash_ne
  generalize approval.stored Sha256.hash approvedInner = second at hadm hne
  obtain ⟨report, report', hverify, hverify', hkept, hkept'⟩ :=
    verify_push hd h hf.quiet (List.cons_ne_nil _ _) hadm
  have hsame := head_applyAll_writeLine
    (freshSession.call Sha256.hash Serde.canonical ⟨1, some 1⟩ approval).dir 1
  have hone : (approvedLog (approval.stored Sha256.hash freshInner)).retained
      = [approval.stored Sha256.hash freshInner] := rfl
  rw [hone] at hkept hkept'
  have hcf : CollisionFreeOn Sha256.hash (hashInputs [approval.stored Sha256.hash freshInner] ++
      hashInputs ([approval.stored Sha256.hash freshInner] ++ [second])) := by
    intro x hx y hy heq
    simp only [hashInputs, List.map_cons, List.map_nil, List.cons_append, List.nil_append,
      List.mem_cons, List.not_mem_nil, or_false] at hx hy
    rcases hx with rfl | rfl | rfl <;> rcases hy with rfl | rfl | rfl
    all_goals first
      | rfl
      | exact absurd heq hne
      | exact absurd heq.symm hne
  rw [← hkept'] at hcf
  nth_rewrite 1 [← hkept] at hcf
  obtain ⟨common, extra, extra', hc, hc', hextra, hextra', -⟩ :=
    (tamper_evident Sha256.hash Serde.canonical _ _ report report' hverify hverify' hcf).2
      (hsame _).1.symm (hsame _).2.symm
  refine ⟨_, _, common, extra, extra', hc, hc', hextra, hextra', ?_, ?_⟩
  · rw [hkept]
    rfl
  · rw [hkept']
    rfl

/-! ## Edits that pass -/

/-- A crash between writing CHECKPOINT for the first record, which was `sealed`, and deleting its
    segment, which holds `r`. -/
def staleDir (sealed r : StoredRecord) : Dir where
  head := .ok { seq := 0, hash := sealed.hash }
  checkpoint := .ok
    { nextSeq := 1, prev := sealed.hash, tsMs := sealed.record.tsMs, openSeqs := [0] }
  segs := { entries := [(1, encodeSeg [r]), (2, [])], nodup := by simp }
  torn := []

theorem segs_staleDir (sealed r : StoredRecord) :
    (staleDir sealed r).view.segs = [(1, some (encodeSeg [r])), (2, some (encodeSeg []))] := by
  have hbound : ∀ e ∈ (staleDir sealed r).segs.entries, e.1 < segNameBound := by
    intro e he
    have htwo : 2 < segNameBound := by decide
    have hone : 1 < segNameBound := by decide
    rcases List.mem_cons.mp he with rfl | he
    · exact hone
    · obtain rfl := List.mem_singleton.mp he
      exact htwo
  have hsorted : ((staleDir sealed r).segs.entries.map Prod.fst).Pairwise (· ≤ ·) := by
    show [1, 2].Pairwise (· ≤ ·)
    decide
  rw [view_segs_of_sorted (List.append_nil _).symm hsorted hbound (by simp)]
  rfl

/-- All the walk asks of the stale record is the hash it carries. -/
theorem verify_staleDir (sha256 : List UInt8 → Digest) (serde : Serde) {sealed r : StoredRecord}
    (hseq : r.record.seq = 0) (hhash : r.hash = sealed.hash) :
    ∃ report, verifyDir sha256 serde (staleDir sealed r) = .ok report := by
  have hlaid : (staleDir sealed r).view.LaidOut sha256 (some { seq := 0, hash := sealed.hash })
      (some { nextSeq := 1, prev := sealed.hash, tsMs := sealed.record.tsMs, openSeqs := [0] })
      [(1, [r])] [] (2, []) [] := by
    refine ⟨rfl, rfl, segs_staleDir sealed r, List.not_mem_nil, ?_, ?_, trivial⟩
    · intro s hs q hq
      obtain rfl := List.mem_singleton.mp hs
      obtain rfl := List.mem_singleton.mp hq
      rw [hseq]
      exact Nat.zero_lt_one
    · intro s hs q hq _ cp hcp
      obtain rfl := List.mem_singleton.mp hs
      obtain rfl := List.mem_singleton.mp hq
      rw [← Option.some.inj hcp, hhash]
  have hcheck : checkHead .strict (some { seq := 0, hash := sealed.hash })
      (some { nextSeq := 1, prev := sealed.hash, tsMs := sealed.record.tsMs, openSeqs := [0] }) none
      (hashAt (some { seq := 0, hash := sealed.hash }) []) = .ok false := by
    simp [checkHead]
  have hwalk : ∃ w, walk sha256 serde (staleDir sealed r).view .strict = .ok (w, []) := by
    rw [walk_laidOut hlaid (Or.inl rfl)]
    simp only [List.flatMap_nil, List.append_nil, List.getLast?_nil, Option.map_none, hcheck]
    exact ⟨_, rfl⟩
  obtain ⟨w, hwalk⟩ := hwalk
  exact ⟨_, verifyDir_of_walk hwalk⟩

/-- Every record in a listed segment, stale or not. -/
def Dir.stored (serde : Serde) (d : Dir) : List StoredRecord :=
  d.view.segs.flatMap fun s =>
    match readSegment serde s.1 s.2 with
    | .ok seg => seg.records
    | .error _ => []

/-- Two edits keep `HEAD` and CHECKPOINT and pass: deleting the one record behind `HEAD`, and changing
    a record of a segment CHECKPOINT stands for. -/
theorem edits_that_pass :
    (∃ d d' report report' r, verifyDir Sha256.hash Serde.canonical d = .ok report ∧
      verifyDir Sha256.hash Serde.canonical d' = .ok report' ∧ d'.head = d.head ∧
      d'.checkpoint = d.checkpoint ∧
      d.kept Serde.canonical = d'.kept Serde.canonical ++ [r]) ∧
    ∃ d d' report report' r r', verifyDir Sha256.hash Serde.canonical d = .ok report ∧
      verifyDir Sha256.hash Serde.canonical d' = .ok report' ∧ d'.head = d.head ∧
      d'.checkpoint = d.checkpoint ∧ d.stored Serde.canonical = [r] ∧
      d'.stored Serde.canonical = [r'] ∧ r ≠ r' := by
  constructor
  · obtain ⟨hd, h, hf⟩ := approved Sha256.hash Serde.canonical ⟨1, some 1⟩
    have hadm : (approvedLog (approval.stored Sha256.hash freshInner)).cursor.Admits Sha256.hash _ :=
      admits_stored hf (accepted_approval hf.failed)
    obtain ⟨report, report', hverify, hverify', hkept, hkept'⟩ :=
      verify_push hd h hf.quiet (List.cons_ne_nil _ _) hadm
    have hsame := head_applyAll_writeLine
      (freshSession.call Sha256.hash Serde.canonical ⟨1, some 1⟩ approval).dir 1
    exact ⟨_, _, report', report, _, hverify', hverify, (hsame _).1.symm, (hsame _).2.symm,
      hkept'.trans (congrArg (· ++ _) hkept.symm)⟩
  · have hstored : ∀ sealed r, (staleDir sealed r).stored Serde.canonical = [r] := by
      intro sealed r
      rw [Dir.stored, segs_staleDir]
      simp only [List.flatMap_cons, List.flatMap_nil, readSegment_encodeSeg_whole]
      rfl
    -- the timestamp is changed under the same hash
    let sealed := approval.stored Sha256.hash freshInner
    let edited : StoredRecord := { sealed with record := { sealed.record with tsMs := 999 } }
    obtain ⟨report, hverify⟩ :
        ∃ report, verifyDir Sha256.hash Serde.canonical (staleDir sealed sealed) = .ok report :=
      verify_staleDir _ _ rfl rfl
    obtain ⟨report', hverify'⟩ :
        ∃ report, verifyDir Sha256.hash Serde.canonical (staleDir sealed edited) = .ok report :=
      verify_staleDir _ _ rfl rfl
    refine ⟨_, _, report, report', sealed, edited, hverify, hverify', rfl, rfl, hstored _ _,
      hstored _ _, ?_⟩
    intro heq
    exact absurd (congrArg (fun r => r.record.tsMs) heq) (by decide)

end AgentRuntime.Records
