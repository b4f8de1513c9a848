import AgentRuntime.Anchor.Batch
import AgentRuntime.Records.Session

/-!
# `Anchor.Ledger` — the local anchor ledger (`agent-anchor/src/ledger.rs`)

One JSON file of entries, one entry a day: which days were batched, under which commitment, and whether
the anchor was confirmed. Every operation loads the file (which checks it whole), and stores a new one
only when it changes something; a failed operation leaves it as it is.

`load_eq_ok_iff` says what a ledger that loads is: entries in strictly increasing day order, each one
that this ledger could have written, over disjoint `seq` ranges. The two writers keep that, and the
batch of an entry never changes (`insert_valid`, `confirm_valid`).
-/

namespace AgentRuntime.Anchor

open Words Records

/-! ## Entries -/

inductive EntryStatus where
  /-- The day's batch is fixed and its anchor calldata was built. -/
  | batched
  /-- Some of the day's records were pruned before it was batched; reported, never anchored. -/
  | incomplete
deriving DecidableEq, Repr

/-- Recorded once the anchor transaction is mined. -/
structure Confirmation where
  txHash : String
  blockNumber : ℕ
  confirmedAtMs : ℕ
deriving DecidableEq, Repr

structure LedgerEntry where
  day : ℕ
  status : EntryStatus
  firstSeq : ℕ
  lastSeq : ℕ
  count : ℕ
  treeRoot : Option Digest
  /-- The anchored value, for a batched day. -/
  commitment : Option Digest
  recordedAtMs : ℕ
  confirmed : Option Confirmation
deriving DecidableEq

/-- The batch header of a batched day. -/
def LedgerEntry.header (e : LedgerEntry) : Option BatchHeader :=
  match e.status, e.treeRoot with
  | .batched, some treeRoot => some
      { v := batchVersion
        day := e.day
        firstSeq := e.firstSeq
        lastSeq := e.lastSeq
        count := e.count
        treeRoot := treeRoot }
  | _, _ => none

def LedgerEntry.overlaps (e : LedgerEntry) (first last : ℕ) : Bool :=
  decide (e.firstSeq ≤ last) && decide (first ≤ e.lastSeq)

/-- The file. -/
structure LedgerFile where
  v : ℕ
  entries : List LedgerEntry

def ledgerVersion : ℕ := 1

/-- What a `record_*` call changed. -/
inductive RecordOutcome where
  | new
  | unchanged
deriving DecidableEq, Repr

def Error.dayCorrupt (day : ℕ) (what : String) : Error :=
  .corrupt ("day " ++ toString day ++ ": " ++ what)

section Ledger

variable (sha256 : List UInt8 → Digest)

/-- An entry read from disk must be one this ledger could have written. -/
def checkEntry (e : LedgerEntry) : Except Error Unit :=
  if e.lastSeq < e.firstSeq ∨ e.lastSeq - e.firstSeq ≠ wrappingSub u64Bound e.count 1 then
    .error (.dayCorrupt e.day "count does not match the seq range")
  else
    match e.status with
    | .batched =>
        match e.header with
        | some h =>
            if h.wellFormed ∧ e.commitment = some (h.commitment sha256) then .ok ()
            else .error (.dayCorrupt e.day
              "the stored commitment is not the commitment of the stored batch")
        | none => .error (.dayCorrupt e.day
            "the stored commitment is not the commitment of the stored batch")
    | .incomplete =>
        if e.treeRoot.isNone ∧ e.commitment.isNone then
          if e.confirmed.isSome then
            .error (.dayCorrupt e.day "an incomplete day cannot be confirmed")
          else .ok ()
        else .error (.dayCorrupt e.day "an incomplete day carries a root")

/-- `entries.windows(2)`: the days strictly increase. -/
def checkOrder : List LedgerEntry → Except Error Unit
  | a :: b :: rest =>
      if a.day ≥ b.day then .error (.corrupt "entries are not in strictly increasing day order")
      else checkOrder (b :: rest)
  | _ => .ok ()

/-- Each entry is checked, and no later one claims its records. -/
def checkEntries : List LedgerEntry → Except Error Unit
  | [] => .ok ()
  | e :: rest => do
      checkEntry sha256 e
      match rest.find? fun o => o.overlaps e.firstSeq e.lastSeq with
      | some o => .error (.corrupt ("days " ++ toString e.day ++ " and " ++ toString o.day ++
          " claim the same records"))
      | none => checkEntries rest

/-- Load the file, checking it whole. -/
def load (file : JsonFile LedgerFile) : Except Error LedgerFile := do
  let file ←
    match file with
    | .absent => .ok { v := ledgerVersion, entries := [] }
    | .malformed => .error .json
    | .ok file => .ok file
  if file.v ≠ ledgerVersion then
    .error (.corrupt ("unsupported version " ++ toString file.v))
  else do
    checkOrder file.entries
    checkEntries sha256 file.entries
    pure file

/-- Every entry, by day. -/
def entries (file : JsonFile LedgerFile) : Except Error (List LedgerEntry) := do
  let file ← load sha256 file
  pure file.entries

def getEntry (file : JsonFile LedgerFile) (day : ℕ) : Except Error (Option LedgerEntry) := do
  let file ← load sha256 file
  pure (file.entries.find? fun e => e.day == day)

/-- Batched days with no confirmation recorded yet. -/
def unconfirmed (file : JsonFile LedgerFile) : Except Error (List ℕ) := do
  let file ← load sha256 file
  pure ((file.entries.filter fun e => e.status == .batched && e.confirmed.isNone).map
    LedgerEntry.day)

/-- `sort_by_key(|e| e.day)`. -/
def sortByDay (entries : List LedgerEntry) : List LedgerEntry :=
  entries.mergeSort fun a b => decide (a.day ≤ b.day)

def insert (file : JsonFile LedgerFile) (entry : LedgerEntry) (same : LedgerEntry → Bool) :
    Except Error (RecordOutcome × JsonFile LedgerFile) := do
  let loaded ← load sha256 file
  match loaded.entries.find? fun e => e.day == entry.day with
  | some e => if same e then .ok (RecordOutcome.unchanged, file) else .error (.conflict entry.day)
  | none =>
      match loaded.entries.find? fun e => e.overlaps entry.firstSeq entry.lastSeq with
      | some o => .error (.overlap entry.day o.day)
      | none =>
          .ok (RecordOutcome.new,
            JsonFile.ok { loaded with entries := sortByDay (loaded.entries ++ [entry]) })

/-- The entry of a batch. -/
def batchedEntry (header : BatchHeader) (nowMs : ℕ) : LedgerEntry where
  day := header.day
  status := .batched
  firstSeq := header.firstSeq
  lastSeq := header.lastSeq
  count := header.count
  treeRoot := some header.treeRoot
  commitment := some (header.commitment sha256)
  recordedAtMs := nowMs
  confirmed := none

/-- The entry of a day some of whose records were pruned first. -/
def incompleteEntry (day firstSeq lastSeq nowMs : ℕ) : LedgerEntry where
  day := day
  status := .incomplete
  firstSeq := firstSeq
  lastSeq := lastSeq
  -- `+ 1` wraps around on the one range that holds every number.
  count := (lastSeq - firstSeq + 1) % u64Bound
  treeRoot := none
  commitment := none
  recordedAtMs := nowMs
  confirmed := none

/-- Record a day's batch. -/
def recordBatched (file : JsonFile LedgerFile) (header : BatchHeader) (nowMs : ℕ) :
    Except Error (RecordOutcome × JsonFile LedgerFile) :=
  if header.wellFormed = false then
    .error (.corrupt ("malformed batch header for day " ++ toString header.day))
  else
    insert sha256 file (batchedEntry sha256 header nowMs) fun e =>
      e.status == .batched && e.commitment == some (header.commitment sha256)

/-- Report a day that cannot be batched because some of its records were pruned first. -/
def recordIncomplete (file : JsonFile LedgerFile) (day firstSeq lastSeq nowMs : ℕ) :
    Except Error (RecordOutcome × JsonFile LedgerFile) :=
  if lastSeq < firstSeq then .error (.corrupt ("empty range for day " ++ toString day))
  else insert sha256 file (incompleteEntry day firstSeq lastSeq nowMs) fun e => e.status == .incomplete

/-- The batched entry of `day`. -/
def isBatchedOn (day : ℕ) (e : LedgerEntry) : Bool := e.day == day && e.status == .batched

/-- Confirm the first batched entry of `day`. -/
def setConfirmed (day : ℕ) (c : Confirmation) : List LedgerEntry → List LedgerEntry
  | [] => []
  | e :: rest =>
      if isBatchedOn day e then { e with confirmed := some c } :: rest
      else e :: setConfirmed day c rest

/-- Record that the ceremony landed the anchor for `day`. -/
def markConfirmed (file : JsonFile LedgerFile) (day : ℕ) (txHash : String)
    (blockNumber nowMs : ℕ) : Except Error (RecordOutcome × JsonFile LedgerFile) := do
  let loaded ← load sha256 file
  match loaded.entries.find? (isBatchedOn day) with
  | none => .error (.notBatched day)
  | some e =>
      match e.confirmed with
      | some c =>
          if c.txHash = txHash ∧ c.blockNumber = blockNumber then
            .ok (RecordOutcome.unchanged, file)
          else .error (.conflict day)
      | none =>
          let c : Confirmation :=
            { txHash := txHash, blockNumber := blockNumber, confirmedAtMs := nowMs }
          .ok (RecordOutcome.new,
            JsonFile.ok { loaded with entries := setConfirmed day c loaded.entries })

end Ledger

/-! ## What a ledger that loads is -/

variable {sha256 : List UInt8 → Digest}

/-- **A valid ledger**: one entry a day, in order, each well formed, over disjoint ranges. -/
structure ValidEntries (sha256 : List UInt8 → Digest) (es : List LedgerEntry) : Prop where
  sorted : es.Pairwise fun a b => a.day < b.day
  checked : ∀ e ∈ es, checkEntry sha256 e = .ok ()
  disjoint : es.Pairwise fun a b => b.overlaps a.firstSeq a.lastSeq = false

theorem checkOrder_eq_ok_iff {es : List LedgerEntry} :
    checkOrder es = .ok () ↔ es.Pairwise fun a b => a.day < b.day := by
  rw [← List.isChain_iff_pairwise]
  induction es with
  | nil => simp [checkOrder]
  | cons a rest ih =>
      cases rest with
      | nil => simp [checkOrder]
      | cons b rest =>
          rw [checkOrder, List.isChain_cons_cons]
          by_cases hle : a.day ≥ b.day
          · rw [if_pos hle]
            constructor
            · intro h
              cases h
            · rintro ⟨hlt, -⟩
              omega
          · rw [if_neg hle, ih]
            constructor
            · intro h
              exact ⟨Nat.lt_of_not_le hle, h⟩
            · exact fun h => h.2

theorem checkEntries_eq_ok_iff {es : List LedgerEntry} :
    checkEntries sha256 es = .ok () ↔
      (∀ e ∈ es, checkEntry sha256 e = .ok ()) ∧
        es.Pairwise fun a b => b.overlaps a.firstSeq a.lastSeq = false := by
  induction es with
  | nil => simp [checkEntries]
  | cons e rest ih =>
      rw [checkEntries, List.pairwise_cons]
      cases hentry : checkEntry sha256 e with
      | error err =>
          constructor
          · intro h
            cases h
          · rintro ⟨hall, -⟩
            have := hall e List.mem_cons_self
            rw [hentry] at this
            cases this
      | ok u =>
          show (match rest.find? fun o => o.overlaps e.firstSeq e.lastSeq with
            | some o => _
            | none => checkEntries sha256 rest) = .ok () ↔ _
          cases hfind : rest.find? fun o => o.overlaps e.firstSeq e.lastSeq with
          | some o =>
              have hmem := List.mem_of_find?_eq_some hfind
              have hover := List.find?_some hfind
              constructor
              · intro h
                cases h
              · rintro ⟨-, hnone, -⟩
                rw [hnone o hmem] at hover
                cases hover
          | none =>
              have hnone : ∀ o ∈ rest, o.overlaps e.firstSeq e.lastSeq = false := by
                intro o ho
                exact eq_false_of_ne_true (List.find?_eq_none.mp hfind o ho)
              rw [ih]
              constructor
              · rintro ⟨hall, hdisjoint⟩
                refine ⟨?_, hnone, hdisjoint⟩
                intro o ho
                rcases List.mem_cons.mp ho with rfl | ho
                · exact hentry
                · exact hall o ho
              · rintro ⟨hall, -, hdisjoint⟩
                exact ⟨fun o ho => hall o (List.mem_cons_of_mem _ ho), hdisjoint⟩

/-- The entries a ledger file holds. -/
def Holds (file : JsonFile LedgerFile) (es : List LedgerEntry) : Prop :=
  (file = .absent ∧ es = []) ∨ file = .ok { v := ledgerVersion, entries := es }

/-- **A ledger that holds valid entries loads**, and only such a ledger does. -/
theorem load_eq_ok_iff {file : JsonFile LedgerFile} {loaded : LedgerFile} :
    load sha256 file = .ok loaded ↔
      loaded.v = ledgerVersion ∧ Holds file loaded.entries ∧ ValidEntries sha256 loaded.entries := by
  have hchecked : ∀ f : LedgerFile,
      (if f.v ≠ ledgerVersion then
          (.error (.corrupt ("unsupported version " ++ toString f.v)) : Except Error LedgerFile)
        else do
          checkOrder f.entries
          checkEntries sha256 f.entries
          pure f) = .ok loaded ↔
        f = loaded ∧ f.v = ledgerVersion ∧ ValidEntries sha256 f.entries := by
    intro f
    by_cases hv : f.v = ledgerVersion
    · rw [if_neg (not_not.mpr hv)]
      constructor
      · intro h
        obtain ⟨u, horder, h⟩ := Except.bind_eq_ok.mp h
        obtain ⟨u', hentries, h⟩ := Except.bind_eq_ok.mp h
        obtain ⟨hchecked, hdisjoint⟩ := checkEntries_eq_ok_iff.mp hentries
        exact ⟨Except.ok.inj h, hv, checkOrder_eq_ok_iff.mp horder, hchecked, hdisjoint⟩
      · rintro ⟨rfl, -, hvalid⟩
        rw [checkOrder_eq_ok_iff.mpr hvalid.sorted,
          checkEntries_eq_ok_iff.mpr ⟨hvalid.checked, hvalid.disjoint⟩]
        rfl
    · rw [if_pos hv]
      constructor
      · intro h
        cases h
      · rintro ⟨-, hv', -⟩
        exact absurd hv' hv
  cases file with
  | absent =>
      refine (hchecked { v := ledgerVersion, entries := [] }).trans ?_
      constructor
      · rintro ⟨rfl, hv, hvalid⟩
        exact ⟨rfl, Or.inl ⟨rfl, rfl⟩, hvalid⟩
      · rintro ⟨hv, ⟨-, hnil⟩ | hfile, hvalid⟩
        · cases loaded
          simp only at hv hnil hvalid
          subst hv hnil
          exact ⟨rfl, rfl, hvalid⟩
        · cases hfile
  | malformed =>
      constructor
      · intro h
        cases h
      · rintro ⟨-, ⟨hfile, -⟩ | hfile, -⟩
        · cases hfile
        · cases hfile
  | ok f =>
      refine (hchecked f).trans ?_
      constructor
      · rintro ⟨rfl, hv, hvalid⟩
        refine ⟨hv, Or.inr ?_, hvalid⟩
        rw [← hv]
      · rintro ⟨hv, ⟨hfile, -⟩ | hfile, hvalid⟩
        · cases hfile
        · cases hfile
          refine ⟨?_, rfl, hvalid⟩
          rw [← hv]

theorem load_of_holds {file : JsonFile LedgerFile} {es : List LedgerEntry} (hfile : Holds file es)
    (hvalid : ValidEntries sha256 es) :
    load sha256 file = .ok { v := ledgerVersion, entries := es } :=
  load_eq_ok_iff.mpr ⟨rfl, hfile, hvalid⟩

theorem overlaps_comm (a b : LedgerEntry) :
    a.overlaps b.firstSeq b.lastSeq = b.overlaps a.firstSeq a.lastSeq := by
  unfold LedgerEntry.overlaps
  exact Bool.and_comm _ _

/-- Two entries with a common `seq` overlap. -/
theorem overlaps_eq_false_iff {e : LedgerEntry} {first last : ℕ} :
    e.overlaps first last = false ↔ last < e.firstSeq ∨ e.lastSeq < first := by
  unfold LedgerEntry.overlaps
  rw [Bool.and_eq_false_iff, decide_eq_false_iff_not, decide_eq_false_iff_not, Nat.not_le, Nat.not_le]

/-- Days determine entries. -/
theorem ValidEntries.eq_of_day {es : List LedgerEntry} (h : ValidEntries sha256 es)
    {a b : LedgerEntry} (ha : a ∈ es) (hb : b ∈ es) (hday : a.day = b.day) : a = b := by
  have hnodup : (es.map LedgerEntry.day).Nodup :=
    List.pairwise_map.mpr (h.sorted.imp fun hlt => hlt.ne)
  exact List.inj_on_of_nodup_map hnodup ha hb hday

/-- The entry of a day, looked up. -/
theorem find_day {es : List LedgerEntry} (h : ValidEntries sha256 es) {e : LedgerEntry}
    (he : e ∈ es) : es.find? (fun x => x.day == e.day) = some e := by
  cases hfind : es.find? (fun x => x.day == e.day) with
  | none =>
      have := List.find?_eq_none.mp hfind e he
      simp at this
  | some x =>
      have hday : x.day = e.day := by simpa using List.find?_some hfind
      rw [h.eq_of_day (List.mem_of_find?_eq_some hfind) he hday]

theorem find_day_none {es : List LedgerEntry} {day : ℕ} (h : ∀ e ∈ es, e.day ≠ day) :
    es.find? (fun x => x.day == day) = none := by
  apply List.find?_eq_none.mpr
  intro e he
  simpa using h e he

/-! ## The two writers -/

theorem mem_sortByDay {es : List LedgerEntry} {e : LedgerEntry} : e ∈ sortByDay es ↔ e ∈ es :=
  (List.mergeSort_perm es _).mem_iff

/-- **A new entry is inserted** when its day is new and its range is disjoint from every other. -/
theorem insert_new {file : JsonFile LedgerFile} {es : List LedgerEntry} (hfile : Holds file es)
    (hvalid : ValidEntries sha256 es) {entry : LedgerEntry} (hday : ∀ e ∈ es, e.day ≠ entry.day)
    (hover : ∀ e ∈ es, e.overlaps entry.firstSeq entry.lastSeq = false)
    (same : LedgerEntry → Bool) :
    insert sha256 file entry same = .ok (.new,
      .ok { v := ledgerVersion, entries := sortByDay (es ++ [entry]) }) := by
  have hnone : es.find? (fun e => e.overlaps entry.firstSeq entry.lastSeq) = none := by
    apply List.find?_eq_none.mpr
    intro e he
    rw [hover e he]
    exact Bool.false_ne_true
  simp only [insert, load_of_holds hfile hvalid, bind, Except.bind, find_day_none hday, hnone]

theorem insert_valid {es : List LedgerEntry} (hvalid : ValidEntries sha256 es) {entry : LedgerEntry}
    (hday : ∀ e ∈ es, e.day ≠ entry.day)
    (hover : ∀ e ∈ es, e.overlaps entry.firstSeq entry.lastSeq = false)
    (hchecked : checkEntry sha256 entry = .ok ()) :
    ValidEntries sha256 (sortByDay (es ++ [entry])) := by
  have hperm := List.mergeSort_perm (es ++ [entry]) fun a b => decide (a.day ≤ b.day)
  constructor
  · -- sorted, and no day twice
    have hsorted : (sortByDay (es ++ [entry])).Pairwise fun a b => a.day ≤ b.day := by
      have hpairwise : (sortByDay (es ++ [entry])).Pairwise fun a b => decide (a.day ≤ b.day) = true := by
        apply List.pairwise_mergeSort
        · intro a b c hab hbc
          exact decide_eq_true ((of_decide_eq_true hab).trans (of_decide_eq_true hbc))
        · intro a b
          rw [Bool.or_eq_true, decide_eq_true_iff, decide_eq_true_iff]
          exact Nat.le_total a.day b.day
      exact hpairwise.imp fun h => of_decide_eq_true h
    have hdistinct : (es ++ [entry]).Pairwise fun a b => a.day ≠ b.day := by
      refine List.pairwise_append.mpr ⟨hvalid.sorted.imp fun h => h.ne, List.pairwise_singleton _ _, ?_⟩
      intro a ha b hb
      rw [List.mem_singleton.mp hb]
      exact hday a ha
    have hdistinct' := (hperm.pairwise_iff fun h => Ne.symm h).mpr hdistinct
    exact (hsorted.and hdistinct').imp fun h => lt_of_le_of_ne h.1 h.2
  · intro e he
    rcases List.mem_append.mp (mem_sortByDay.mp he) with he | he
    · exact hvalid.checked e he
    · rw [List.mem_singleton.mp he]
      exact hchecked
  · have hdisjoint : (es ++ [entry]).Pairwise fun a b => b.overlaps a.firstSeq a.lastSeq = false := by
      refine List.pairwise_append.mpr ⟨hvalid.disjoint, List.pairwise_singleton _ _, ?_⟩
      intro a ha b hb
      rw [List.mem_singleton.mp hb, ← overlaps_comm]
      exact hover a ha
    refine (hperm.pairwise_iff ?_).mpr hdisjoint
    intro a b h
    rw [overlaps_comm]
    exact h

/-- The entries agree but for the confirmation. -/
def SameBatch (e e' : LedgerEntry) : Prop := { e with confirmed := none } = { e' with confirmed := none }

theorem SameBatch.refl (e : LedgerEntry) : SameBatch e e := rfl

section SameBatch

variable {e e' : LedgerEntry} (h : SameBatch e e')

include h

theorem SameBatch.day : e'.day = e.day := (congrArg LedgerEntry.day h).symm

theorem SameBatch.status : e'.status = e.status := (congrArg LedgerEntry.status h).symm

theorem SameBatch.firstSeq : e'.firstSeq = e.firstSeq := (congrArg LedgerEntry.firstSeq h).symm

theorem SameBatch.lastSeq : e'.lastSeq = e.lastSeq := (congrArg LedgerEntry.lastSeq h).symm

theorem SameBatch.commitment : e'.commitment = e.commitment :=
  (congrArg LedgerEntry.commitment h).symm

theorem SameBatch.header : e'.header = e.header := (congrArg LedgerEntry.header h).symm

end SameBatch

theorem SameBatch.trans {a b c : LedgerEntry} (hab : SameBatch a b) (hbc : SameBatch b c) :
    SameBatch a c := Eq.trans hab hbc

/-- A confirmation changes neither the batch of an entry nor that it is well formed. -/
theorem setConfirmed_sameBatch (day : ℕ) (c : Confirmation) {es : List LedgerEntry}
    (hchecked : ∀ e ∈ es, checkEntry sha256 e = .ok ()) :
    List.Forall₂ (fun e e' => SameBatch e e' ∧ checkEntry sha256 e' = .ok ()) es
      (setConfirmed day c es) := by
  have hsame : ∀ rest : List LedgerEntry, (∀ e ∈ rest, checkEntry sha256 e = .ok ()) →
      List.Forall₂ (fun e e' => SameBatch e e' ∧ checkEntry sha256 e' = .ok ()) rest rest := by
    intro rest hrest
    exact List.forall₂_same.mpr fun e he => ⟨.refl e, hrest e he⟩
  induction es with
  | nil => exact .nil
  | cons e rest ih =>
      have hrest : ∀ e ∈ rest, checkEntry sha256 e = .ok () := fun e' he' =>
        hchecked e' (List.mem_cons_of_mem _ he')
      have hentry := hchecked e List.mem_cons_self
      unfold setConfirmed
      by_cases hbatched : isBatchedOn day e = true
      · rw [if_pos hbatched]
        refine .cons ⟨rfl, ?_⟩ (hsame rest hrest)
        have hstatus : e.status = .batched := by
          simp only [isBatchedOn, Bool.and_eq_true, beq_iff_eq] at hbatched
          exact hbatched.2
        unfold checkEntry at hentry ⊢
        simp only [LedgerEntry.header, hstatus] at hentry ⊢
        exact hentry
      · rw [if_neg hbatched]
        exact .cons ⟨.refl e, hentry⟩ (ih hrest)

theorem valid_of_sameBatch {es es' : List LedgerEntry} (hvalid : ValidEntries sha256 es)
    (h : List.Forall₂ (fun e e' => SameBatch e e' ∧ checkEntry sha256 e' = .ok ()) es es') :
    ValidEntries sha256 es' := by
  have hpairwise : ∀ R : LedgerEntry → LedgerEntry → Prop,
      (∀ a b a' b', SameBatch a a' → SameBatch b b' → R a b → R a' b') →
      es.Pairwise R → es'.Pairwise R := by
    intro R hR hes
    induction h with
    | nil => exact .nil
    | @cons e e' es es' he hrest ih =>
        have hvalid' : ValidEntries sha256 es := ⟨hvalid.sorted.of_cons,
          fun x hx => hvalid.checked x (List.mem_cons_of_mem _ hx), hvalid.disjoint.of_cons⟩
        obtain ⟨hhead, htail⟩ := List.pairwise_cons.mp hes
        refine List.pairwise_cons.mpr ⟨?_, ih hvalid' htail⟩
        intro b' hb'
        obtain ⟨b, hb, hsame⟩ := exists_left_of_forall₂ hrest hb'
        exact hR e b e' b' he.1 hsame.1 (hhead b hb)
  constructor
  · refine hpairwise _ ?_ hvalid.sorted
    intro a b a' b' ha hb hlt
    rw [ha.day, hb.day]
    exact hlt
  · intro e' he'
    obtain ⟨e, -, -, hchecked⟩ := exists_left_of_forall₂ h he'
    exact hchecked
  · refine hpairwise _ ?_ hvalid.disjoint
    intro a b a' b' ha hb hnone
    rw [ha.firstSeq, ha.lastSeq]
    unfold LedgerEntry.overlaps at hnone ⊢
    rw [hb.firstSeq, hb.lastSeq]
    exact hnone

/-- **Confirming keeps every batch.** -/
theorem confirm_valid {file file' : JsonFile LedgerFile} {es : List LedgerEntry}
    (hfile : Holds file es) (hvalid : ValidEntries sha256 es) {day : ℕ} {txHash : String}
    {blockNumber nowMs : ℕ} {outcome : RecordOutcome}
    (h : markConfirmed sha256 file day txHash blockNumber nowMs = .ok (outcome, file')) :
    ∃ es', Holds file' es' ∧ ValidEntries sha256 es' ∧ List.Forall₂ SameBatch es es' := by
  have hunchanged : List.Forall₂ SameBatch es es := List.forall₂_same.mpr fun e _ => .refl e
  simp only [markConfirmed, load_of_holds hfile hvalid, bind, Except.bind] at h
  cases hfind : es.find? (isBatchedOn day) with
  | none =>
      rw [hfind] at h
      cases h
  | some e =>
      rw [hfind] at h
      simp only at h
      cases hconfirmed : e.confirmed with
      | some c =>
          rw [hconfirmed] at h
          simp only at h
          split at h
          · obtain ⟨-, rfl⟩ := Prod.mk.inj (Except.ok.inj h)
            exact ⟨es, hfile, hvalid, hunchanged⟩
          · cases h
      | none =>
          rw [hconfirmed] at h
          obtain ⟨-, rfl⟩ := Prod.mk.inj (Except.ok.inj h)
          have hsame := setConfirmed_sameBatch day
            { txHash := txHash, blockNumber := blockNumber, confirmedAtMs := nowMs } hvalid.checked
          exact ⟨_, Or.inr rfl, valid_of_sameBatch hvalid hsame, hsame.imp fun _ _ h => h.1⟩

/-! ## Entries of batches pass their own check -/

theorem header_batchedEntry {h : BatchHeader} (hv : h.v = batchVersion) (nowMs : ℕ) :
    (batchedEntry sha256 h nowMs).header = some h := by
  cases h
  simp only at hv
  subst hv
  rfl

theorem checkEntry_batchedEntry {h : BatchHeader} (hv : h.v = batchVersion)
    (hwf : h.wellFormed = true) (hcount : h.count < u64Bound) (nowMs : ℕ) :
    checkEntry sha256 (batchedEntry sha256 h nowMs) = .ok () := by
  have hfields : h.count > 0 ∧ h.lastSeq ≥ h.firstSeq ∧ h.lastSeq - h.firstSeq = h.count - 1 := by
    simp only [BatchHeader.wellFormed, Bool.and_eq_true, decide_eq_true_eq, beq_iff_eq] at hwf
    exact ⟨hwf.1.1.2, hwf.1.2, hwf.2⟩
  have hrange : ¬ (h.lastSeq < h.firstSeq ∨
      h.lastSeq - h.firstSeq ≠ wrappingSub u64Bound h.count 1) := by
    rw [wrappingSub_of_le hfields.1 hcount]
    rintro (hlt | hne)
    · omega
    · exact hne hfields.2.2
  unfold checkEntry
  rw [header_batchedEntry hv]
  simp only [batchedEntry, if_neg hrange, hwf, and_self, if_true]

theorem checkEntry_incompleteEntry {day first last : ℕ} (hle : first ≤ last) (hlast : last < u64Bound)
    (nowMs : ℕ) : checkEntry sha256 (incompleteEntry day first last nowMs) = .ok () := by
  have hcount : wrappingSub u64Bound ((last - first + 1) % u64Bound) 1 = last - first := by
    rcases Nat.lt_or_ge (last - first + 1) u64Bound with hlt | hge
    · rw [Nat.mod_eq_of_lt hlt, wrappingSub_of_le (Nat.le_add_left 1 _) hlt, Nat.add_sub_cancel]
    · have hwhole : last - first + 1 = u64Bound := by omega
      rw [hwhole, Nat.mod_self, wrappingSub, Nat.zero_add, Nat.mod_eq_of_lt (Nat.sub_lt (by norm_num) one_pos)]
      omega
  have hrange : ¬ (last < first ∨ last - first ≠ wrappingSub u64Bound ((last - first + 1) % u64Bound) 1) := by
    rw [hcount]
    omega
  unfold checkEntry
  exact if_neg hrange

end AgentRuntime.Anchor
