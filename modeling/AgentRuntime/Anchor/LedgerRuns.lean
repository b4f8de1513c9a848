import AgentRuntime.Anchor.Ledger
import AgentRuntime.Lib.Machine

/-!
# `Anchor.LedgerRuns` — what every run of calls leaves in the ledger file

The entries are in the file and nowhere else: each call loads it, and stores a new one by writing a second file and
renaming it. A `Fault` is what the disk does during a call. Up to the rename a failure leaves the old file; when the
folder cannot be synced after the rename the call fails and the new file is there.

A file that a run leaves always loads (`perform_valid`), and an entry that is confirmed is never touched again
(`perform_confirmed`).
-/

namespace AgentRuntime.Anchor

open Words Records

/-- A call that can change the ledger. -/
inductive LedgerCall where
  | recordBatched (header : BatchHeader) (nowMs : ℕ)
  | recordIncomplete (day firstSeq lastSeq nowMs : ℕ)
  | markConfirmed (day : ℕ) (txHash : String) (blockNumber nowMs : ℕ)

/-- The integers a check compares are values of their Rust types. -/
def LedgerCall.InRange : LedgerCall → Prop
  | .recordBatched header _ => header.InRange
  | .recordIncomplete _ _ lastSeq _ => lastSeq < u64Bound
  | .markConfirmed .. => True

/-- What fails on the disk during a call, with the path that is reported. -/
inductive Fault where
  | none
  /-- The file is there and cannot be read. -/
  | read (path : String)
  /-- The second file cannot be written, synced or renamed. -/
  | write (path : String)
  /-- The folder cannot be opened or synced after the rename. -/
  | dirSync (dir : String)
deriving DecidableEq, Repr

section

variable (sha256 : List UInt8 → Digest)

/-- What is refused before the file is read. -/
def LedgerCall.checkArguments : LedgerCall → Except Error Unit
  | .recordBatched header _ =>
      if header.wellFormed = false then
        .error (.corrupt ("malformed batch header for day " ++ toString header.day))
      else .ok ()
  | .recordIncomplete day firstSeq lastSeq _ =>
      if lastSeq < firstSeq then .error (.corrupt ("empty range for day " ++ toString day)) else .ok ()
  | .markConfirmed .. => .ok ()

/-- The call on a disk without faults. -/
def LedgerCall.apply (file : JsonFile LedgerFile) : LedgerCall → Except Error (RecordOutcome × JsonFile LedgerFile)
  | .recordBatched header nowMs => Anchor.recordBatched sha256 file header nowMs
  | .recordIncomplete day firstSeq lastSeq nowMs => Anchor.recordIncomplete sha256 file day firstSeq lastSeq nowMs
  | .markConfirmed day txHash blockNumber nowMs => Anchor.markConfirmed sha256 file day txHash blockNumber nowMs

/-- The file is replaced, or not, and the call says so. -/
def store (fault : Fault) (file new : JsonFile LedgerFile) : Except Error RecordOutcome × JsonFile LedgerFile :=
  match fault with
  | .write path => (.error (.io path), file)
  | .dirSync dir => (.error (.io dir), new)
  | _ => (.ok .new, new)

/-- The call, once its arguments passed and the file could be read. -/
def performLoaded (file : JsonFile LedgerFile) (fault : Fault) (call : LedgerCall) :
    Except Error RecordOutcome × JsonFile LedgerFile :=
  match call.apply sha256 file with
  | .error e => (.error e, file)
  | .ok (.unchanged, _) => (.ok .unchanged, file)
  | .ok (.new, new) => store fault file new

/-- A call, and the file it leaves. -/
def perform (file : JsonFile LedgerFile) (fault : Fault) (call : LedgerCall) :
    Except Error RecordOutcome × JsonFile LedgerFile :=
  match call.checkArguments with
  | .error e => (.error e, file)
  | .ok () =>
      match fault with
      | .read path => (.error (.io path), file)
      | _ => performLoaded sha256 file fault call

def exec (file : JsonFile LedgerFile) (l : Fault × LedgerCall) : JsonFile LedgerFile := (perform sha256 file l.1 l.2).2

end

/-! ## What a call can leave -/

section

variable {sha256 : List UInt8 → Digest} {file : JsonFile LedgerFile} {es : List LedgerEntry}

/-- What one call does to the entries of a ledger that loads. -/
inductive Changes (sha256 : List UInt8 → Digest) (es : List LedgerEntry) : List LedgerEntry → Prop where
  /-- An entry of a new day, over records no other day has. -/
  | insert {entry : LedgerEntry} (hday : ∀ e ∈ es, e.day ≠ entry.day)
      (hover : ∀ e ∈ es, e.overlaps entry.firstSeq entry.lastSeq = false)
      (hchecked : checkEntry sha256 entry = .ok ()) (hconfirmed : entry.confirmed = none) :
      Changes sha256 es (sortByDay (es ++ [entry]))
  /-- The first confirmation of a batched day. -/
  | confirm {day : ℕ} {e : LedgerEntry} (c : Confirmation) (hfind : es.find? (isBatchedOn day) = some e)
      (hunconfirmed : e.confirmed = none) : Changes sha256 es (setConfirmed day c es)

theorem insert_eq_ok (hfile : Holds file es) (hvalid : ValidEntries sha256 es) {entry : LedgerEntry}
    {same : LedgerEntry → Bool} {outcome : RecordOutcome} {new : JsonFile LedgerFile}
    (h : insert sha256 file entry same = .ok (outcome, new)) :
    (outcome = .unchanged ∧ new = file) ∨
      outcome = .new ∧ new = .ok { v := ledgerVersion, entries := sortByDay (es ++ [entry]) } ∧
        (∀ e ∈ es, e.day ≠ entry.day) ∧ ∀ e ∈ es, e.overlaps entry.firstSeq entry.lastSeq = false := by
  simp only [insert, load_of_holds hfile hvalid, bind, Except.bind] at h
  split at h
  · split at h
    · cases h
      exact .inl ⟨rfl, rfl⟩
    · cases h
  · rename_i hday
    split at h
    · cases h
    · rename_i hover
      cases h
      refine .inr ⟨rfl, rfl, ?_, ?_⟩
      · intro e he heq
        exact absurd (List.find?_eq_none.mp hday e he) (by simp [heq])
      · intro e he
        exact eq_false_of_ne_true (List.find?_eq_none.mp hover e he)

/-- A call without faults changes nothing, or makes one of the changes. -/
theorem apply_eq_ok (hfile : Holds file es) (hvalid : ValidEntries sha256 es) {call : LedgerCall}
    (hrange : call.InRange) {outcome : RecordOutcome} {new : JsonFile LedgerFile}
    (h : call.apply sha256 file = .ok (outcome, new)) :
    (outcome = .unchanged ∧ new = file) ∨
      outcome = .new ∧ ∃ es', new = .ok { v := ledgerVersion, entries := es' } ∧ Changes sha256 es es' := by
  cases call with
  | recordBatched header nowMs =>
      have h : recordBatched sha256 file header nowMs = .ok (outcome, new) := h
      unfold recordBatched at h
      split at h
      · cases h
      · rename_i hformed
        have hwf : header.wellFormed = true := eq_true_of_ne_false hformed
        have hv : header.v = batchVersion := by
          simp only [BatchHeader.wellFormed, Bool.and_eq_true, beq_iff_eq] at hwf
          exact hwf.1.1.1
        rcases insert_eq_ok hfile hvalid h with hsame | ⟨hnew, hfile', hday, hover⟩
        · exact .inl hsame
        · exact .inr ⟨hnew, _, hfile', .insert hday hover (checkEntry_batchedEntry hv hwf hrange.count nowMs) rfl⟩
  | recordIncomplete day firstSeq lastSeq nowMs =>
      have h : recordIncomplete sha256 file day firstSeq lastSeq nowMs = .ok (outcome, new) := h
      unfold recordIncomplete at h
      split at h
      · cases h
      · rename_i hle
        rcases insert_eq_ok hfile hvalid h with hsame | ⟨hnew, hfile', hday, hover⟩
        · exact .inl hsame
        · exact .inr ⟨hnew, _, hfile',
            .insert hday hover (checkEntry_incompleteEntry (Nat.le_of_not_lt hle) hrange nowMs) rfl⟩
  | markConfirmed day txHash blockNumber nowMs =>
      have h : markConfirmed sha256 file day txHash blockNumber nowMs = .ok (outcome, new) := h
      simp only [markConfirmed, load_of_holds hfile hvalid, bind, Except.bind] at h
      split at h
      · cases h
      · rename_i e hfind
        split at h
        · split at h
          · cases h
            exact .inl ⟨rfl, rfl⟩
          · cases h
        · rename_i hunconfirmed
          cases h
          exact .inr ⟨rfl, _, rfl, .confirm _ hfind hunconfirmed⟩

/-- A call that goes through has arguments that pass. -/
theorem checkArguments_of_apply {call : LedgerCall} {result : RecordOutcome × JsonFile LedgerFile}
    (h : call.apply sha256 file = .ok result) : call.checkArguments = .ok () := by
  cases call with
  | recordBatched header nowMs =>
      have h : recordBatched sha256 file header nowMs = .ok result := h
      show (if header.wellFormed = false then _ else _) = _
      unfold recordBatched at h
      split at h
      · cases h
      · rename_i hformed
        rw [if_neg hformed]
  | recordIncomplete day firstSeq lastSeq nowMs =>
      have h : recordIncomplete sha256 file day firstSeq lastSeq nowMs = .ok result := h
      show (if lastSeq < firstSeq then _ else _) = _
      unfold recordIncomplete at h
      split at h
      · cases h
      · rename_i hle
        rw [if_neg hle]
  | markConfirmed day txHash blockNumber nowMs => rfl

/-- A change of valid entries leaves valid entries. -/
theorem Changes.valid {es' : List LedgerEntry} (h : Changes sha256 es es') (hvalid : ValidEntries sha256 es) :
    ValidEntries sha256 es' := by
  cases h with
  | insert hday hover hchecked _ => exact insert_valid hvalid hday hover hchecked
  | confirm c hfind _ => exact valid_of_sameBatch hvalid (setConfirmed_sameBatch _ c hvalid.checked)

/-- An entry that is not the first batched one of the day stays. -/
theorem mem_setConfirmed {day : ℕ} {c : Confirmation} {e x : LedgerEntry} (he : e ∈ es)
    (hfind : es.find? (isBatchedOn day) = some x) (hne : e ≠ x) : e ∈ setConfirmed day c es := by
  induction es with
  | nil => cases he
  | cons first rest ih =>
      unfold setConfirmed
      by_cases hfirst : isBatchedOn day first = true
      · rw [List.find?_cons_of_pos hfirst] at hfind
        cases hfind
        rw [if_pos hfirst]
        rcases List.mem_cons.mp he with rfl | he
        · exact absurd rfl hne
        · exact List.mem_cons_of_mem _ he
      · rw [List.find?_cons_of_neg hfirst] at hfind
        rw [if_neg hfirst]
        rcases List.mem_cons.mp he with rfl | he
        · exact List.mem_cons_self ..
        · exact List.mem_cons_of_mem _ (ih he hfind)

/-- A change keeps every confirmed entry as it is. -/
theorem Changes.confirmed {es' : List LedgerEntry} (h : Changes sha256 es es') {e : LedgerEntry} (he : e ∈ es)
    (hconfirmed : e.confirmed ≠ none) : e ∈ es' := by
  cases h with
  | insert _ _ _ _ => exact mem_sortByDay.mpr (List.mem_append_left _ he)
  | confirm c hfind hunconfirmed =>
      refine mem_setConfirmed he hfind ?_
      rintro rfl
      exact hconfirmed hunconfirmed

/-- **What a call leaves**: the file it found, or, when it goes through or fails to sync the folder, a file with one
    change. -/
theorem perform_cases (hfile : Holds file es) (hvalid : ValidEntries sha256 es) (fault : Fault) {call : LedgerCall}
    (hrange : call.InRange) :
    (perform sha256 file fault call).2 = file ∨
      ((perform sha256 file fault call).1 = .ok .new ∨ ∃ dir, fault = .dirSync dir) ∧
        ∃ es', (perform sha256 file fault call).2 = .ok { v := ledgerVersion, entries := es' } ∧
          call.apply sha256 file = .ok (.new, .ok { v := ledgerVersion, entries := es' }) ∧ Changes sha256 es es' := by
  have hloaded : (∀ path, fault ≠ .read path) → (performLoaded sha256 file fault call).2 = file ∨
      ((performLoaded sha256 file fault call).1 = .ok .new ∨ ∃ dir, fault = .dirSync dir) ∧
        ∃ es', (performLoaded sha256 file fault call).2 = .ok { v := ledgerVersion, entries := es' } ∧
          call.apply sha256 file = .ok (.new, .ok { v := ledgerVersion, entries := es' }) ∧
          Changes sha256 es es' := by
    intro hread
    unfold performLoaded
    cases happly : call.apply sha256 file with
    | error e => exact .inl rfl
    | ok result =>
        obtain ⟨outcome, new⟩ := result
        rcases apply_eq_ok hfile hvalid hrange happly with ⟨rfl, -⟩ | ⟨rfl, es', rfl, hchanges⟩
        · exact .inl rfl
        · cases fault with
          | none => exact .inr ⟨.inl rfl, es', rfl, rfl, hchanges⟩
          | read path => exact absurd rfl (hread path)
          | write path => exact .inl rfl
          | dirSync dir => exact .inr ⟨.inr ⟨dir, rfl⟩, es', rfl, rfl, hchanges⟩
  unfold perform
  cases call.checkArguments with
  | error e => exact .inl rfl
  | ok u =>
      cases fault with
      | none => exact hloaded fun _ heq => (nomatch heq)
      | read path => exact .inl rfl
      | write path => exact hloaded fun _ heq => (nomatch heq)
      | dirSync dir => exact hloaded fun _ heq => (nomatch heq)

/-- The file a call leaves holds valid entries, and among them every confirmed entry there was. -/
theorem perform_valid (hfile : Holds file es) (hvalid : ValidEntries sha256 es) (fault : Fault) {call : LedgerCall}
    (hrange : call.InRange) :
    ∃ es', Holds (perform sha256 file fault call).2 es' ∧ ValidEntries sha256 es' ∧
      ∀ e ∈ es, e.confirmed ≠ none → e ∈ es' := by
  rcases perform_cases hfile hvalid fault hrange with hsame | ⟨-, es', hnew, -, hchanges⟩
  · rw [hsame]
    exact ⟨es, hfile, hvalid, fun e he _ => he⟩
  · rw [hnew]
    exact ⟨es', .inr rfl, hchanges.valid hvalid, fun e he hc => hchanges.confirmed he hc⟩

/-! ## Runs -/

/-- What every run from a ledger that loads leaves. -/
theorem run_valid (hfile : Holds file es) (hvalid : ValidEntries sha256 es) {calls : List (Fault × LedgerCall)}
    (hrange : ∀ l ∈ calls, l.2.InRange) :
    ∃ es', Holds (Machine.run (exec sha256) file calls) es' ∧ ValidEntries sha256 es' ∧
      ∀ e ∈ es, e.confirmed ≠ none → e ∈ es' := by
  induction calls generalizing file es with
  | nil => exact ⟨es, hfile, hvalid, fun e he _ => he⟩
  | cons l rest ih =>
      obtain ⟨hl, hrest⟩ := List.forall_mem_cons.mp hrange
      obtain ⟨es₁, hfile₁, hvalid₁, hkept₁⟩ := perform_valid hfile hvalid l.1 hl
      obtain ⟨es₂, hfile₂, hvalid₂, hkept₂⟩ := ih hfile₁ hvalid₁ hrest
      exact ⟨es₂, hfile₂, hvalid₂, fun e he hc => hkept₂ e (hkept₁ e he hc) hc⟩

end

/-- **The ledger always loads again and never half-changes.** After every run of calls, whatever the disk did, the file
    loads. The next call leaves it as it is when it is refused or fails before the rename; when the folder cannot be
    synced after it, the file is the old one or the one the call would have written. What is confirmed stays. -/
theorem ledger_reloads (sha256 : List UInt8 → Digest) (file : JsonFile LedgerFile)
    (hload : (load sha256 file).isOk = true) (calls : List (Fault × LedgerCall)) (hrange : ∀ l ∈ calls, l.2.InRange) :
    ∃ es, load sha256 (Machine.run (exec sha256) file calls) = .ok { v := ledgerVersion, entries := es } ∧
      entries sha256 (Machine.run (exec sha256) file calls) = .ok es ∧
      (∀ fault call e, call.InRange → (perform sha256 (Machine.run (exec sha256) file calls) fault call).1 = .error e →
        (perform sha256 (Machine.run (exec sha256) file calls) fault call).2 =
            Machine.run (exec sha256) file calls ∨
          ∃ dir new, fault = .dirSync dir ∧
            perform sha256 (Machine.run (exec sha256) file calls) .none call = (.ok .new, new) ∧
            (perform sha256 (Machine.run (exec sha256) file calls) fault call).2 = new) ∧
      ∀ later : List (Fault × LedgerCall), (∀ l ∈ later, l.2.InRange) →
        ∃ es', entries sha256 (Machine.run (exec sha256) file (calls ++ later)) = .ok es' ∧
          ∀ e ∈ es, e.confirmed ≠ none → e ∈ es' := by
  obtain ⟨loaded, hloaded⟩ : ∃ loaded, load sha256 file = .ok loaded := by
    cases h : load sha256 file with
    | error e =>
        rw [h] at hload
        cases hload
    | ok loaded => exact ⟨loaded, rfl⟩
  obtain ⟨-, hfile, hvalid⟩ := load_eq_ok_iff.mp hloaded
  obtain ⟨es, hfile', hvalid', -⟩ := run_valid hfile hvalid hrange
  have hentries : ∀ {file : JsonFile LedgerFile} {es : List LedgerEntry}, Holds file es → ValidEntries sha256 es →
      entries sha256 file = .ok es := by
    intro file es hfile hvalid
    unfold entries
    rw [load_of_holds hfile hvalid]
    rfl
  refine ⟨es, load_of_holds hfile' hvalid', hentries hfile' hvalid', ?_, ?_⟩
  · intro fault call e hcall herror
    rcases perform_cases hfile' hvalid' fault hcall with hsame | ⟨hok | ⟨dir, rfl⟩, es', hnew, happly, -⟩
    · exact .inl hsame
    · rw [hok] at herror
      cases herror
    · refine .inr ⟨dir, _, rfl, ?_, hnew⟩
      -- Without the fault the same file is written, and the call says so.
      unfold perform
      rw [checkArguments_of_apply happly]
      show performLoaded sha256 _ .none call = _
      unfold performLoaded
      rw [happly]
      rfl
  · intro later hlater
    obtain ⟨es', hfile'', hvalid'', hkept⟩ := run_valid hfile' hvalid' hlater
    rw [Machine.run_append]
    exact ⟨es', hentries hfile'' hvalid'', hkept⟩

namespace Small

def zeros (_ : List UInt8) : Digest := Vector.replicate 32 0

/-- Two days reported; at the second the folder could not be synced. -/
def calls : List (Fault × LedgerCall) :=
  [(.none, .recordIncomplete 1 0 0 5), (.dirSync "ledger", .recordIncomplete 2 1 1 6)]

theorem ledger_reloads_two_days :
    ∃ es, entries zeros (Machine.run (exec zeros) .absent calls) = .ok es := by
  have hrange : ∀ l ∈ calls, l.2.InRange := by
    intro l hl
    rcases List.mem_pair.mp hl with rfl | rfl
    · show 0 < u64Bound
      decide
    · show 1 < u64Bound
      decide
  obtain ⟨es, -, hentries, -⟩ := ledger_reloads zeros .absent (by decide) calls hrange
  exact ⟨es, hentries⟩

/-- **A call that failed has recorded its entry**: the folder could not be synced after the rename. -/
theorem failed_call_records :
    entries zeros .absent = .ok [] ∧
      (perform zeros .absent (.dirSync "ledger") (.recordIncomplete 1 0 0 5)).1 = .error (.io "ledger") ∧
      entries zeros (perform zeros .absent (.dirSync "ledger") (.recordIncomplete 1 0 0 5)).2 =
        .ok [incompleteEntry 1 0 0 5] := by
  have hnew : (perform zeros .absent (.dirSync "ledger") (.recordIncomplete 1 0 0 5)).2 =
      .ok { v := ledgerVersion, entries := sortByDay ([] ++ [incompleteEntry 1 0 0 5]) } := rfl
  have hsorted : sortByDay ([] ++ [incompleteEntry 1 0 0 5]) = [incompleteEntry 1 0 0 5] :=
    List.mergeSort_singleton _
  refine ⟨rfl, rfl, ?_⟩
  rw [hnew, hsorted]
  rfl

end Small

end AgentRuntime.Anchor
