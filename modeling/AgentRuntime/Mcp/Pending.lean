import AgentRuntime.Mcp.Stdio

/-!
# `Mcp.Pending` — answers reach their own request

An id is given once, its sender is in one place (the table, the reader's hand or the channel), and what a request
returns is a line of the server that carries its id, or says that there is none (`OwnAnswers`). A line over the cap is
treated as it should be exactly when the request it is attributed to is the one it answers, or the only one
(`Treated.fair_iff`).
-/

namespace AgentRuntime.Mcp

open Machine

variable {parse : String → Option Json.Value} {max : ℕ} {w : World}

/-! ## Where a reply comes from -/

/-- The reply is in a complete line of the server, within the cap, that carries the id. -/
def FromLine (parse : String → Option Json.Value) (max : ℕ) (stream : List UInt8) (id : ℕ) (r : Reply) : Prop :=
  ∃ line ∈ completeLines stream, line.length ≤ max ∧ hear parse line = .answer id r

/-- What the reader sends. -/
inductive FromReader (parse : String → Option Json.Value) (max : ℕ) (stream : List UInt8) (id : ℕ) (r : Reply) : Prop
  | line (h : FromLine parse max stream id r)
  | oversize (h : r = .error (.oversize max))
  | exited (why : String) (h : r = .error (.serverExited why))

/-- What a request returns. -/
inductive Returned (parse : String → Option Json.Value) (max : ℕ) (stream : List UInt8) (id : ℕ) (r : Reply) : Prop
  | reader (h : FromReader parse max stream id r)
  | timeout (d : Duration) (h : r = .error (.timeout d))
  | cancelled (h : r = .error .cancelled)

theorem FromReader.mono {stream stream' : List UInt8} {id : ℕ} {r : Reply} (h : FromReader parse max stream id r)
    (hsub : completeLines stream ⊆ completeLines stream') : FromReader parse max stream' id r := by
  cases h with
  | line h =>
      obtain ⟨line, hmem, hrest⟩ := h
      exact .line ⟨line, hsub hmem, hrest⟩
  | oversize h => exact .oversize h
  | exited why h => exact .exited why h

theorem Returned.mono {stream stream' : List UInt8} {id : ℕ} {r : Reply} (h : Returned parse max stream id r)
    (hsub : completeLines stream ⊆ completeLines stream') : Returned parse max stream' id r := by
  cases h with
  | reader h => exact .reader (h.mono hsub)
  | timeout d h => exact .timeout d h
  | cancelled h => exact .cancelled h

/-! ## The invariant -/

namespace Phase

/-- The request may be in the table. -/
def inTable : Phase → Bool
  | .registered _ => true
  | .admitted _ => true
  | .waiting _ _ => true
  | .leaving _ _ => true
  | _ => false

/-- The request has been in the table. -/
def entered : Phase → Bool
  | .unborn => false
  | .numbered _ => false
  | _ => true

/-- The request is under way. -/
def live : Phase → Bool
  | .unborn => false
  | .ended _ => false
  | _ => true

def reply? : Phase → Option Reply
  | .leaving r _ => some r
  | .telling r _ => some r
  | .ended r => some r
  | _ => none

end Phase

structure Inv (parse : String → Option Json.Value) (max : ℕ) (w : World) : Prop where
  nodup : w.given.Nodup
  bound : ∀ id ∈ w.given, id ≤ w.nextId
  born : ∀ id, w.phase id = .unborn ∨ id ∈ w.given
  pendingNodup : w.pending.Nodup
  table : ∀ id ∈ w.pending, (w.phase id).inTable = true
  handNodup : (w.reader.hand.map Prod.fst).Nodup
  hand : ∀ x ∈ w.reader.hand, x.1 ∉ w.pending ∧ (w.phase x.1).entered = true ∧ FromReader parse max w.stream x.1 x.2
  apart : ∀ x ∈ w.reader.hand, w.channel x.1 = none
  channel : ∀ id r, w.channel id = some r →
    id ∉ w.pending ∧ (w.phase id).entered = true ∧ FromReader parse max w.stream id r
  replies : ∀ id r, (w.phase id).reply? = some r → Returned parse max w.stream id r
  lines : ∃ before, Framed w.stream (before ++ w.reader.lines.map Line.bytes) w.reader.cut.bytes
  cut : CutOk max w.reader.cut
  linesOk : ∀ l ∈ w.reader.lines, LineOk max l

theorem Inv.init : Inv parse max .init where
  nodup := List.nodup_nil
  bound := by simp [World.init]
  born id := .inl rfl
  pendingNodup := List.nodup_nil
  table := by simp [World.init]
  handNodup := List.nodup_nil
  hand := by simp [World.init]
  apart := by simp [World.init]
  channel := by simp [World.init]
  replies := by simp [World.init, Phase.reply?]
  lines := ⟨[], rfl, by simp [World.init], by simp [World.init, Cut.fresh]⟩
  cut := .fresh
  linesOk := by simp [World.init]

/-- A line is queued. -/
theorem Inv.sendLine (h : Inv parse max w) (line : Outgoing) : Inv parse max (w.sendLine line) := by
  unfold World.sendLine
  split
  · exact ⟨h.nodup, h.bound, h.born, h.pendingNodup, h.table, h.handNodup, h.hand, h.apart, h.channel, h.replies, h.lines,
      h.cut, h.linesOk⟩
  · exact h

theorem entered_update {phase : ℕ → Phase} {id id' : ℕ} {p : Phase}
    (h : (phase id).entered = true → p.entered = true) (hin : (phase id').entered = true) :
    (Function.update phase id p id').entered = true := by
  by_cases hid : id' = id
  · rw [hid, Function.update_self]
    exact h (hid ▸ hin)
  · rw [Function.update_of_ne hid]
    exact hin

/-- A request that was born goes on. -/
theorem Inv.setPhase (h : Inv parse max w) {id : ℕ} {p : Phase} (hborn : w.phase id ≠ .unborn)
    (htable : id ∈ w.pending → p.inTable = true) (hentered : (w.phase id).entered = true → p.entered = true)
    (hreply : ∀ r, p.reply? = some r → Returned parse max w.stream id r) : Inv parse max (w.setPhase id p) where
  nodup := h.nodup
  bound := h.bound
  born id' := by
    by_cases hid : id' = id
    · exact .inr (hid ▸ (h.born id).resolve_left hborn)
    · rcases h.born id' with hu | hg
      · exact .inl ((Function.update_of_ne hid _ _).trans hu)
      · exact .inr hg
  pendingNodup := h.pendingNodup
  table id' hmem := by
    by_cases hid : id' = id
    · subst hid
      show (Function.update w.phase id' p id').inTable = true
      rw [Function.update_self]
      exact htable hmem
    · show (Function.update w.phase id p id').inTable = true
      rw [Function.update_of_ne hid]
      exact h.table id' hmem
  handNodup := h.handNodup
  hand x hx := by
    obtain ⟨hout, hin, hfrom⟩ := h.hand x hx
    exact ⟨hout, entered_update hentered hin, hfrom⟩
  apart := h.apart
  channel id' r hr := by
    obtain ⟨hout, hin, hfrom⟩ := h.channel id' r hr
    exact ⟨hout, entered_update hentered hin, hfrom⟩
  replies id' r hr := by
    have hr : (Function.update w.phase id p id').reply? = some r := hr
    by_cases hid : id' = id
    · subst hid
      rw [Function.update_self] at hr
      exact hreply r hr
    · rw [Function.update_of_ne hid] at hr
      exact h.replies id' r hr
  lines := h.lines
  cut := h.cut
  linesOk := h.linesOk

theorem Inv.remove (h : Inv parse max w) (id : ℕ) : Inv parse max (w.remove id) where
  nodup := h.nodup
  bound := h.bound
  born := h.born
  pendingNodup := h.pendingNodup.filter _
  table id' hmem := h.table id' (List.mem_of_mem_filter hmem)
  handNodup := h.handNodup
  hand x hx := by
    obtain ⟨hout, hrest⟩ := h.hand x hx
    exact ⟨fun hmem => hout (List.mem_of_mem_filter hmem), hrest⟩
  apart := h.apart
  channel id' r hr := by
    obtain ⟨hout, hrest⟩ := h.channel id' r hr
    exact ⟨fun hmem => hout (List.mem_of_mem_filter hmem), hrest⟩
  replies := h.replies
  lines := h.lines
  cut := h.cut
  linesOk := h.linesOk

/-- Senders are taken out of the table. -/
theorem Inv.take (h : Inv parse max w) {ids : List ℕ} {r : Reply} (hnodup : ids.Nodup) (hids : ∀ id ∈ ids, id ∈ w.pending)
    (hr : ∀ id ∈ ids, FromReader parse max w.stream id r) : Inv parse max (w.take ids r) where
  nodup := h.nodup
  bound := h.bound
  born := h.born
  pendingNodup := h.pendingNodup.filter _
  table id hmem := h.table id (List.mem_of_mem_filter hmem)
  handNodup := by
    show ((ids.map fun id => (id, r)).map Prod.fst).Nodup
    rw [List.map_map]
    exact (List.map_id' ids).symm ▸ hnodup
  hand x hx := by
    obtain ⟨id, hid, rfl⟩ := List.mem_map.mp hx
    refine ⟨?_, ?_, hr id hid⟩
    · intro hmem
      have hnot := (List.mem_filter.mp hmem).2
      simp [hid] at hnot
    · have hin := h.table id (hids id hid)
      revert hin
      show (w.phase id).inTable = true → (w.phase id).entered = true
      cases w.phase id <;> simp [Phase.inTable, Phase.entered]
  apart x hx := by
    obtain ⟨id, hid, rfl⟩ := List.mem_map.mp hx
    rw [Option.eq_none_iff_forall_ne_some]
    intro r' hr'
    exact (h.channel id r' hr').1 (hids id hid)
  channel id' r' hr' := by
    obtain ⟨hout, hrest⟩ := h.channel id' r' hr'
    exact ⟨fun hmem => hout (List.mem_of_mem_filter hmem), hrest⟩
  replies := h.replies
  lines := h.lines
  cut := h.cut
  linesOk := h.linesOk

/-- A line was treated: the reader goes on with the next one. -/
theorem Inv.nextLine (h : Inv parse max w) {l : Line} {lines : List Line} (hlines : w.reader.lines = l :: lines)
    (seen : Option (List ℕ)) : Inv parse max (w.setReader { w.reader with seen := seen, lines := lines }) where
  nodup := h.nodup
  bound := h.bound
  born := h.born
  pendingNodup := h.pendingNodup
  table := h.table
  handNodup := h.handNodup
  hand := h.hand
  apart := h.apart
  channel := h.channel
  replies := h.replies
  lines := by
    obtain ⟨before, hframed⟩ := h.lines
    refine ⟨before ++ [l.bytes], ?_⟩
    rw [hlines] at hframed
    show Framed w.stream (before ++ [l.bytes] ++ lines.map Line.bytes) w.reader.cut.bytes
    simpa using hframed
  cut := h.cut
  linesOk l' hl' := h.linesOk l' (by rw [hlines]; exact List.mem_cons_of_mem _ hl')

/-- The first line is a complete line of the server. -/
theorem Inv.line_mem (h : Inv parse max w) {l : Line} {lines : List Line} (hlines : w.reader.lines = l :: lines) :
    l.bytes ∈ completeLines w.stream := by
  obtain ⟨before, hframed⟩ := h.lines
  rw [hframed.completeLines, hlines]
  simp

/-! ## Every step keeps it -/

/-- An id is given. -/
theorem Inv.number (h : Inv parse max w) : Inv parse max w.number.2 ∧ w.number.1 ∉ w.given := by
  have hnew : w.nextId + 1 ∉ w.given := by
    intro hmem
    have := h.bound _ hmem
    omega
  refine ⟨⟨List.nodup_cons.mpr ⟨hnew, h.nodup⟩, ?_, fun id => (h.born id).imp_right (List.mem_cons_of_mem _),
    h.pendingNodup, h.table, h.handNodup, h.hand, h.apart, h.channel, h.replies, h.lines, h.cut, h.linesOk⟩, hnew⟩
  intro id hid
  show id ≤ w.nextId + 1
  rcases List.mem_cons.mp hid with rfl | hid
  · exact le_refl _
  · exact (h.bound id hid).trans (Nat.le_succ _)

/-- A request that is not born has no part anywhere. -/
theorem Inv.unborn (h : Inv parse max w) {id : ℕ} (hid : w.phase id = .unborn) :
    id ∉ w.pending ∧ id ∉ w.reader.hand.map Prod.fst ∧ w.channel id = none := by
  refine ⟨?_, ?_, ?_⟩
  · intro hmem
    have hin := h.table id hmem
    rw [hid] at hin
    cases hin
  · intro hmem
    obtain ⟨x, hx, rfl⟩ := List.mem_map.mp hmem
    have hin := (h.hand x hx).2.1
    rw [hid] at hin
    cases hin
  · rw [Option.eq_none_iff_forall_ne_some]
    intro r hr
    have hin := (h.channel id r hr).2.1
    rw [hid] at hin
    cases hin

theorem Inv.request (h : Inv parse max w) (timeout : Duration) : Inv parse max (w.request timeout) := by
  unfold World.request
  split
  · exact h
  · obtain ⟨hnumber, hnew⟩ := h.number
    have hunborn : w.phase (w.nextId + 1) = .unborn := (h.born _).resolve_right hnew
    have hnone := h.unborn hunborn
    simp only [World.number] at hnumber ⊢
    refine ⟨hnumber.nodup, hnumber.bound, ?_, h.pendingNodup, ?_, h.handNodup, ?_, h.apart, ?_, ?_, h.lines, h.cut,
      h.linesOk⟩
    · intro id
      by_cases hid : id = w.nextId + 1
      · exact .inr (hid ▸ List.mem_cons_self ..)
      · rcases h.born id with hu | hg
        · exact .inl ((Function.update_of_ne hid _ _).trans hu)
        · exact .inr (List.mem_cons_of_mem _ hg)
    · intro id hmem
      have hid : id ≠ w.nextId + 1 := by
        rintro rfl
        exact hnone.1 hmem
      show (Function.update w.phase (w.nextId + 1) _ id).inTable = true
      rw [Function.update_of_ne hid]
      exact h.table id hmem
    · intro x hx
      obtain ⟨hout, hin, hfrom⟩ := h.hand x hx
      refine ⟨hout, ?_, hfrom⟩
      have hid : x.1 ≠ w.nextId + 1 := by
        intro hid
        exact hnone.2.1 (hid ▸ List.mem_map_of_mem hx)
      show (Function.update w.phase (w.nextId + 1) _ x.1).entered = true
      rw [Function.update_of_ne hid]
      exact hin
    · intro id r hr
      obtain ⟨hout, hin, hfrom⟩ := h.channel id r hr
      refine ⟨hout, ?_, hfrom⟩
      have hid : id ≠ w.nextId + 1 := by
        rintro rfl
        have hr : w.channel (w.nextId + 1) = some r := hr
        rw [hnone.2.2] at hr
        cases hr
      show (Function.update w.phase (w.nextId + 1) _ id).entered = true
      rw [Function.update_of_ne hid]
      exact hin
    · intro id r hr
      have hr : (Function.update w.phase (w.nextId + 1) (.numbered timeout) id).reply? = some r := hr
      by_cases hid : id = w.nextId + 1
      · rw [hid, Function.update_self] at hr
        cases hr
      · rw [Function.update_of_ne hid] at hr
        exact h.replies id r hr

/-- A request that waits. -/
theorem Inv.wait (h : Inv parse max w) {id : ℕ} {timeout deadline : Duration} (hid : w.phase id = .waiting timeout deadline)
    (stopped : Bool) : Inv parse max (w.wait id timeout deadline stopped) := by
  have hborn : w.phase id ≠ .unborn := by rw [hid]; simp
  unfold World.wait
  split
  · apply h.setPhase hborn (fun _ => rfl) (fun _ => rfl)
    rintro r ⟨⟩
    exact .cancelled rfl
  · split
    · apply h.setPhase hborn (fun _ => rfl) (fun _ => rfl)
      rintro r ⟨⟩
      exact .timeout timeout rfl
    · split
      · rename_i reply hreply
        obtain ⟨hout, -, hfrom⟩ := h.channel id reply hreply
        apply h.setPhase hborn (fun hmem => absurd hmem hout) (fun _ => rfl)
        rintro r ⟨⟩
        exact .reader hfrom
      · split
        · rename_i hgone
          apply h.setPhase hborn (fun hmem => absurd hmem hgone.1) (fun _ => rfl)
          rintro r ⟨⟩
          exact .reader (.exited _ rfl)
        · exact h

theorem Inv.step (h : Inv parse max w) (id : ℕ) (stopped : Bool) : Inv parse max (w.step id stopped) := by
  unfold World.step
  split
  · exact h
  · rename_i timeout hid
    have hnone : id ∉ w.pending := by
      intro hmem
      have hin := h.table id hmem
      rw [hid] at hin
      cases hin
    have hborn : w.phase id ≠ .unborn := by rw [hid]; simp
    have hother : ∀ id', (w.phase id').entered = true → id' ≠ id := by
      rintro id' hin rfl
      rw [hid] at hin
      cases hin
    have hset : Inv parse max (w.setPhase id (.registered timeout)) :=
      h.setPhase hborn (fun hmem => absurd hmem hnone) (fun _ => rfl) (by rintro r ⟨⟩)
    refine ⟨hset.nodup, hset.bound, hset.born, List.nodup_cons.mpr ⟨hnone, h.pendingNodup⟩, ?_, hset.handNodup, ?_,
      hset.apart, ?_, hset.replies, hset.lines, hset.cut, hset.linesOk⟩
    · intro id' hmem
      rcases List.mem_cons.mp hmem with rfl | hmem
      · show (Function.update w.phase id' _ id').inTable = true
        rw [Function.update_self]
        rfl
      · exact hset.table id' hmem
    · intro x hx
      obtain ⟨hout, hrest⟩ := hset.hand x hx
      refine ⟨?_, hrest⟩
      intro hmem
      rcases List.mem_cons.mp hmem with hx' | hmem
      · exact hother x.1 (h.hand x hx).2.1 hx'
      · exact hout hmem
    · intro id' r hr
      obtain ⟨hout, hrest⟩ := hset.channel id' r hr
      refine ⟨?_, hrest⟩
      intro hmem
      rcases List.mem_cons.mp hmem with hid' | hmem
      · exact hother id' (h.channel id' r hr).2.1 hid'
      · exact hout hmem
  · rename_i timeout hid
    have hborn : w.phase id ≠ .unborn := by rw [hid]; simp
    split
    · apply h.setPhase hborn (fun _ => rfl) (fun _ => rfl)
      rintro r ⟨⟩
      exact .reader (.exited _ rfl)
    · exact h.setPhase hborn (fun _ => rfl) (fun _ => rfl) (by rintro r ⟨⟩)
  · rename_i timeout hid
    have hborn : w.phase id ≠ .unborn := by rw [hid]; simp
    split
    · apply (h.sendLine (.request id)).setPhase _ (fun _ => rfl) (fun _ => rfl) (by rintro r ⟨⟩)
      unfold World.sendLine
      split
      · exact hborn
      · exact hborn
    · apply h.setPhase hborn (fun _ => rfl) (fun _ => rfl)
      rintro r ⟨⟩
      exact .reader (.exited _ rfl)
  · rename_i timeout deadline hid
    exact h.wait hid stopped
  · rename_i reply reason hid
    have hborn : w.phase id ≠ .unborn := by rw [hid]; simp
    apply (h.remove id).setPhase hborn (fun hmem => absurd hmem (by simp [World.remove])) (fun _ => rfl)
    rintro r ⟨⟩
    exact h.replies id reply (by rw [hid]; rfl)
  · rename_i reply hid
    have hborn : w.phase id ≠ .unborn := by rw [hid]; simp
    apply (h.remove id).setPhase hborn (fun hmem => absurd hmem (by simp [World.remove])) (fun _ => rfl)
    rintro r ⟨⟩
    exact h.replies id reply (by rw [hid]; rfl)
  · rename_i reply reason hid
    have hphase : (w.sendLine (.cancelled id reason)).phase = w.phase := by
      unfold World.sendLine
      split <;> rfl
    have hsent := h.sendLine (.cancelled id reason)
    apply hsent.setPhase (by rw [hphase, hid]; simp) _ (fun _ => rfl)
    · rintro r ⟨⟩
      exact hsent.replies id reply (by rw [hphase, hid]; rfl)
    · intro hmem
      have hin := hsent.table id hmem
      rw [hphase, hid] at hin
      cases hin
  · exact h

/-! ### The reader -/

theorem Inv.read (h : Inv parse max w) (chunk : List UInt8) : Inv parse max (w.read max chunk) := by
  unfold World.read
  split
  · rename_i hready
    obtain ⟨before, hframed⟩ := h.lines
    rw [hready.2.1, List.map_nil, List.append_nil] at hframed
    obtain ⟨hnew, hcut, hlines⟩ := feed_framed h.cut hframed.rest chunk
    have hall := hframed.append hnew
    have hsub : completeLines w.stream ⊆ completeLines (w.stream ++ chunk) := by
      rw [hframed.completeLines, hall.completeLines]
      exact List.subset_append_left _ _
    refine ⟨h.nodup, h.bound, h.born, h.pendingNodup, h.table, h.handNodup, ?_, h.apart, ?_, ?_, ⟨before, hall⟩, hcut,
      hlines⟩
    · intro x hx
      obtain ⟨hout, hin, hfrom⟩ := h.hand x hx
      exact ⟨hout, hin, hfrom.mono hsub⟩
    · intro id r hr
      obtain ⟨hout, hin, hfrom⟩ := h.channel id r hr
      exact ⟨hout, hin, hfrom.mono hsub⟩
    · intro id r hr
      exact (h.replies id r hr).mono hsub
  · exact h

theorem Inv.onLine (h : Inv parse max w) {bytes : List UInt8} (hmem : bytes ∈ completeLines w.stream)
    (hshort : bytes.length ≤ max) : Inv parse max (w.onLine parse bytes) := by
  unfold World.onLine
  split
  · exact h
  · exact ⟨h.nodup, h.bound, h.born, h.pendingNodup, h.table, h.handNodup, h.hand, h.apart, h.channel, h.replies, h.lines, h.cut,
      h.linesOk⟩
  · exact h.sendLine _
  · split
    · exact ⟨h.nodup, h.bound, h.born, h.pendingNodup, h.table, h.handNodup, h.hand, h.apart, h.channel, h.replies, h.lines,
        h.cut, h.linesOk⟩
    · exact h
  · rename_i id reply hhear
    split
    · rename_i hpending
      apply h.take (List.nodup_singleton id)
      · intro id' hid'
        rw [List.mem_singleton.mp hid']
        exact hpending
      · intro id' hid'
        rw [List.mem_singleton.mp hid']
        exact .line ⟨bytes, hmem, hshort, hhear⟩
    · exact h

/-- The requests that a line over the cap fails. -/
theorem onOversize_eq (w : World) (max : ℕ) (seen : List ℕ) (kept : List UInt8) :
    ∃ ids, w.onOversize max seen kept = w.take ids (.error (.oversize max)) ∧
      ((∃ id, attributed seen kept = some id ∧ id ∈ w.pending ∧ ids = [id]) ∨
        (∀ id, attributed seen kept = some id → id ∉ w.pending) ∧ ids = w.pending) := by
  unfold World.onOversize
  split
  · rename_i id hid
    obtain ⟨hattributed, hpending⟩ := Option.filter_eq_some_iff.mp hid
    exact ⟨[id], rfl, .inl ⟨id, hattributed, by simpa using hpending, rfl⟩⟩
  · rename_i hnone
    refine ⟨w.pending, rfl, .inr ⟨?_, rfl⟩⟩
    intro id hid hmem
    rw [hid] at hnone
    simp [hmem] at hnone

theorem Inv.onOversize (h : Inv parse max w) (seen : List ℕ) (kept : List UInt8) :
    Inv parse max (w.onOversize max seen kept) := by
  obtain ⟨ids, heq, hids⟩ := onOversize_eq w max seen kept
  rw [heq]
  rcases hids with ⟨id, -, hpending, rfl⟩ | ⟨-, rfl⟩
  · apply h.take (List.nodup_singleton id)
    · intro id' hid'
      rw [List.mem_singleton.mp hid']
      exact hpending
    · exact fun _ _ => .oversize rfl
  · exact h.take h.pendingNodup (fun _ => id) fun _ _ => .oversize rfl

theorem Inv.readerStep (h : Inv parse max w) : Inv parse max (w.readerStep parse max) := by
  unfold World.readerStep
  split
  · rename_i id reply hand hhand
    have hx := h.hand (id, reply) (by rw [hhand]; exact List.mem_cons_self ..)
    have hnodup := h.handNodup
    rw [hhand] at hnodup
    obtain ⟨hnew, hrest⟩ := List.nodup_cons.mp hnodup
    refine ⟨h.nodup, h.bound, h.born, h.pendingNodup, h.table, hrest, ?_, ?_, ?_, h.replies, h.lines, h.cut, h.linesOk⟩
    · intro x hx
      exact h.hand x (by rw [hhand]; exact List.mem_cons_of_mem _ hx)
    · intro x hx
      have hid : x.1 ≠ id := fun hid => hnew (List.mem_map.mpr ⟨x, hx, hid⟩)
      show Function.update w.channel id (some reply) x.1 = none
      rw [Function.update_of_ne hid]
      exact h.apart x (by rw [hhand]; exact List.mem_cons_of_mem _ hx)
    · intro id' r hr
      have hr : Function.update w.channel id (some reply) id' = some r := hr
      by_cases hid : id' = id
      · rw [hid, Function.update_self] at hr
        cases hr
        rw [hid]
        exact hx
      · rw [Function.update_of_ne hid] at hr
        exact h.channel id' r hr
  · split
    · rename_i bytes lines hlines
      have hok : LineOk max (.whole bytes) := h.linesOk _ (by rw [hlines]; exact List.mem_cons_self ..)
      exact (h.nextLine hlines w.reader.seen).onLine (h.line_mem hlines) hok
    · rename_i kept bytes lines hlines
      split
      · exact ⟨h.nodup, h.bound, h.born, h.pendingNodup, h.table, h.handNodup, h.hand, h.apart, h.channel, h.replies, h.lines,
          h.cut, h.linesOk⟩
      · exact (h.nextLine hlines none).onOversize _ _
    · split
      · exact h
      · exact ⟨h.nodup, h.bound, h.born, h.pendingNodup, h.table, h.handNodup, h.hand, h.apart, h.channel, h.replies, h.lines,
          h.cut, h.linesOk⟩
      · have hdone : Inv parse max (w.setReader { w.reader with stage := .done }) :=
          ⟨h.nodup, h.bound, h.born, h.pendingNodup, h.table, h.handNodup, h.hand, h.apart, h.channel, h.replies, h.lines,
            h.cut, h.linesOk⟩
        exact hdone.take h.pendingNodup (fun _ => id) fun _ _ => .exited _ rfl
      · exact h

/-- A step that is of no request, and reads nothing. -/
theorem Inv.same {w' : World} (h : Inv parse max w) (hgiven : w'.given = w.given) (hid : w'.nextId = w.nextId)
    (hpending : w'.pending = w.pending) (hchannel : w'.channel = w.channel) (hphase : w'.phase = w.phase)
    (hstream : w'.stream = w.stream) (hhand : w'.reader.hand = w.reader.hand)
    (hlines : w'.reader.lines = w.reader.lines) (hcut : w'.reader.cut = w.reader.cut) : Inv parse max w' where
  nodup := by rw [hgiven]; exact h.nodup
  bound := by rw [hgiven, hid]; exact h.bound
  born := by rw [hgiven, hphase]; exact h.born
  pendingNodup := by rw [hpending]; exact h.pendingNodup
  table := by rw [hpending, hphase]; exact h.table
  handNodup := by rw [hhand]; exact h.handNodup
  hand := by rw [hhand, hpending, hphase, hstream]; exact h.hand
  apart := by rw [hhand, hchannel]; exact h.apart
  channel := by rw [hchannel, hpending, hphase, hstream]; exact h.channel
  replies := by rw [hphase, hstream]; exact h.replies
  lines := by rw [hstream, hlines, hcut]; exact h.lines
  cut := by rw [hcut]; exact h.cut
  linesOk := by rw [hlines]; exact h.linesOk

theorem Inv.exec (h : Inv parse max w) (l : Label) : Inv parse max (w.exec parse max l) := by
  cases l with
  | request timeout => exact h.request timeout
  | step id stopped => exact h.step id stopped
  | listen => exact h.number.1.sendLine _
  | read chunk => exact h.read chunk
  | eof =>
      simp only [World.exec]
      split
      · exact h.same rfl rfl rfl rfl rfl rfl rfl rfl rfl
      · exact h
  | reader => exact h.readerStep
  | tick time => exact h.same rfl rfl rfl rfl rfl rfl rfl rfl rfl
  | shut => exact h.same rfl rfl rfl rfl rfl rfl rfl rfl rfl

theorem World.Reachable.inv (h : World.Reachable parse max w) : Inv parse max w := by
  obtain ⟨ls, rfl⟩ := h
  exact invariant Inv.init (fun w l hw => hw.exec l) ls

end AgentRuntime.Mcp
