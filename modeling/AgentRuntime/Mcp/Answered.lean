import AgentRuntime.Mcp.Pending

/-!
# `Mcp.Answered` — every request gets its own answer

From any point of any run a request returns, in six steps of its thread besides the rounds of its wait, and what was
sent to it arrives (`World.Reachable.ownAnswers`). What a line over the cap does is as it should be exactly when the
request that it is attributed to is the one it answers, or the only one (`Treated.fair_iff`).
-/

namespace AgentRuntime.Mcp

open Machine

variable {parse : String → Option Json.Value} {max : ℕ} {w : World}

/-! ## What the steps leave as it is -/

namespace World

@[simp] theorem sendLine_phase (w : World) (line : Outgoing) : (w.sendLine line).phase = w.phase := by
  unfold sendLine
  split <;> rfl

@[simp] theorem sendLine_reader (w : World) (line : Outgoing) : (w.sendLine line).reader = w.reader := by
  unfold sendLine
  split <;> rfl

@[simp] theorem sendLine_channel (w : World) (line : Outgoing) : (w.sendLine line).channel = w.channel := by
  unfold sendLine
  split <;> rfl

theorem setPhase_self (w : World) (id : ℕ) (p : Phase) : (w.setPhase id p).phase id = p := Function.update_self ..

theorem setPhase_of_ne (w : World) {id id' : ℕ} (p : Phase) (h : id' ≠ id) :
    (w.setPhase id p).phase id' = w.phase id' := Function.update_of_ne h ..

/-- The reader sets no phase, and no channel while it treats a line. -/
theorem onLine_keeps (parse : String → Option Json.Value) (w : World) (line : List UInt8) :
    (w.onLine parse line).phase = w.phase ∧ (w.onLine parse line).channel = w.channel := by
  unfold onLine
  split
  · exact ⟨rfl, rfl⟩
  · exact ⟨rfl, rfl⟩
  · exact ⟨sendLine_phase .., sendLine_channel ..⟩
  · split <;> exact ⟨rfl, rfl⟩
  · split <;> exact ⟨rfl, rfl⟩

theorem onOversize_keeps (max : ℕ) (w : World) (seen : List ℕ) (kept : List UInt8) :
    (w.onOversize max seen kept).phase = w.phase ∧ (w.onOversize max seen kept).channel = w.channel := by
  obtain ⟨ids, heq, -⟩ := onOversize_eq w max seen kept
  rw [heq]
  exact ⟨rfl, rfl⟩

theorem readerStep_phase (parse : String → Option Json.Value) (max : ℕ) (w : World) :
    (w.readerStep parse max).phase = w.phase := by
  unfold readerStep
  split
  · rfl
  · split
    · exact (onLine_keeps ..).1
    · split
      · rfl
      · exact (onOversize_keeps ..).1
    · split <;> rfl

/-- A step of a request sets its own phase only. -/
theorem step_phase_of_ne (w : World) {id id' : ℕ} (h : id' ≠ id) (stopped : Bool) :
    (w.step id stopped).phase id' = w.phase id' := by
  unfold step
  split
  · rfl
  · exact setPhase_of_ne w _ h
  · split <;> exact setPhase_of_ne w _ h
  · split
    · exact (setPhase_of_ne _ _ h).trans (by rw [sendLine_phase])
    · exact setPhase_of_ne w _ h
  · unfold wait
    split
    · exact setPhase_of_ne w _ h
    · split
      · exact setPhase_of_ne w _ h
      · split
        · exact setPhase_of_ne w _ h
        · split
          · exact setPhase_of_ne w _ h
          · rfl
  · exact setPhase_of_ne _ _ h
  · exact setPhase_of_ne _ _ h
  · exact (setPhase_of_ne _ _ h).trans (by rw [sendLine_phase])
  · rfl

end World

/-- Only its own thread changes where a request stands. -/
theorem Inv.phase_of_other (h : Inv parse max w) {id : ℕ} (hborn : w.phase id ≠ .unborn) {l : Label}
    (hl : ∀ stopped, l ≠ .step id stopped) : (w.exec parse max l).phase id = w.phase id := by
  cases l with
  | request timeout =>
      simp only [World.exec, World.request]
      split
      · rfl
      · have hid : id ≠ w.nextId + 1 := by
          rintro rfl
          exact h.number.2 ((h.born _).resolve_left hborn)
        exact World.setPhase_of_ne _ _ hid
  | step id' stopped =>
      have hid : id ≠ id' := fun hid => hl stopped (hid ▸ rfl)
      exact w.step_phase_of_ne hid stopped
  | listen => rw [World.exec, World.sendLine_phase]; rfl
  | read chunk =>
      simp only [World.exec, World.read]
      split <;> rfl
  | eof =>
      simp only [World.exec]
      split <;> rfl
  | reader => exact congrFun (w.readerStep_phase parse max) id
  | tick time => rfl
  | shut => rfl

/-! ## Every request returns -/

/-- How many steps the thread of a request has left, besides the rounds of its wait. -/
def Phase.left : Phase → ℕ
  | .unborn => 7
  | .numbered _ => 6
  | .registered _ => 5
  | .admitted _ => 4
  | .waiting _ _ => 3
  | .leaving _ _ => 2
  | .telling _ _ => 1
  | .ended _ => 0

/-- The next step of the request is not a round of its wait before the deadline. -/
def Phase.due (clock : Duration) : Phase → Bool
  | .waiting _ deadline => decide (deadline ≤ clock)
  | _ => true

/-- A step of the thread of this request that is due. -/
def dueStep (id : ℕ) (w : World) : Label → List ℕ
  | .step id' _ => if id' = id ∧ (w.phase id).due w.clock = true then [id] else []
  | _ => []

theorem Phase.left_eq_zero {p : Phase} (h : p.left = 0) : ∃ r, p = .ended r := by
  cases p with
  | ended r => exact ⟨r, rfl⟩
  | _ => cases h

theorem Phase.left_le {p : Phase} (h : p ≠ .unborn) : p.left ≤ 6 := by
  cases p with
  | unborn => exact absurd rfl h
  | numbered timeout => exact le_refl 6
  | _ => simp only [Phase.left, Nat.reduceLeDiff]

/-- A round of a wait ends it, or was made before the deadline. -/
theorem World.wait_left (w : World) (id : ℕ) (timeout deadline : Duration) (stopped : Bool) :
    ((w.wait id timeout deadline stopped).phase id).left ≤ 2 ∨
      w.wait id timeout deadline stopped = w ∧ ¬ deadline ≤ w.clock := by
  unfold wait
  split
  · exact .inl (by rw [setPhase_self]; exact le_refl 2)
  · split
    · exact .inl (by rw [setPhase_self]; exact le_refl 2)
    · rename_i hlate
      split
      · exact .inl (by rw [setPhase_self]; exact Nat.zero_le 2)
      · split
        · exact .inl (by rw [setPhase_self]; exact Nat.zero_le 2)
        · exact .inr ⟨rfl, hlate⟩

/-- A step of a request that is due leaves it fewer. -/
theorem World.step_left (w : World) {id : ℕ} (hlive : (w.phase id).live = true) (stopped : Bool) :
    ((w.step id stopped).phase id).left + (dueStep id w (.step id stopped)).length ≤ (w.phase id).left := by
  have hone : (dueStep id w (.step id stopped)).length ≤ 1 := by
    show (if id = id ∧ (w.phase id).due w.clock = true then [id] else []).length ≤ 1
    split
    · exact le_refl 1
    · exact Nat.zero_le 1
  unfold step
  split
  · rename_i hid
    rw [hid] at hlive
    cases hlive
  · rename_i timeout hid
    have hnow : ((w.setPhase id (.registered timeout)).phase id).left = 5 := by rw [setPhase_self]; rfl
    show ((w.setPhase id (.registered timeout)).phase id).left + _ ≤ (w.phase id).left
    rw [hnow, hid]
    exact Nat.add_le_add_left hone 5
  · rename_i timeout hid
    rw [hid]
    split
    · rw [setPhase_self]
      exact (Nat.add_le_add_left hone 2).trans (by simp [Phase.left])
    · rw [setPhase_self]
      exact Nat.add_le_add_left hone 4
  · rename_i timeout hid
    rw [hid]
    split
    · rw [setPhase_self]
      exact Nat.add_le_add_left hone 3
    · rw [setPhase_self]
      exact (Nat.add_le_add_left hone 2).trans (by simp [Phase.left])
  · rename_i timeout deadline hid
    rw [hid]
    rcases w.wait_left id timeout deadline stopped with hleft | ⟨hsame, hearly⟩
    · exact Nat.add_le_add hleft hone
    · rw [hsame, hid]
      simp [dueStep, hid, Phase.due, hearly]
  · rename_i reply reason hid
    rw [setPhase_self, hid]
    exact Nat.add_le_add_left hone 1
  · rename_i reply hid
    rw [setPhase_self, hid]
    exact (Nat.add_le_add_left hone 0).trans (by simp [Phase.left])
  · rename_i reply reason hid
    rw [setPhase_self, hid]
    exact Nat.add_le_add_left hone 0
  · rename_i reply hid
    rw [hid] at hlive
    cases hlive

/-- A request that has returned does not return again. -/
theorem Inv.exec_ended (h : Inv parse max w) {id : ℕ} {r : Reply} (hended : w.phase id = .ended r) (l : Label) :
    (w.exec parse max l).phase id = .ended r := by
  by_cases hl : ∀ stopped, l ≠ .step id stopped
  · rw [h.phase_of_other (by rw [hended]; simp) hl, hended]
  · push Not at hl
    obtain ⟨stopped, rfl⟩ := hl
    simp only [World.exec, World.step, hended]

theorem Inv.run_ended (h : Inv parse max w) {id : ℕ} {r : Reply} (hended : w.phase id = .ended r) (ms : List Label) :
    (run (World.exec parse max) w ms).phase id = .ended r :=
  (invariant (P := fun w => Inv parse max w ∧ w.phase id = .ended r) ⟨h, hended⟩
    (fun _ l hw => ⟨hw.1.exec l, hw.1.exec_ended hw.2 l⟩) ms).2

/-- **A request returns** once its thread made six steps that were due, however the others went on. -/
theorem Inv.run_left (h : Inv parse max w) {id : ℕ} (hborn : w.phase id ≠ .unborn) (ms : List Label) :
    (∃ r, (run (World.exec parse max) w ms).phase id = .ended r) ∨
      ((run (World.exec parse max) w ms).phase id).left +
        (outputs (World.exec parse max) (dueStep id) w ms).length ≤ (w.phase id).left := by
  induction ms generalizing w with
  | nil => exact .inr (le_refl _)
  | cons l ms ih =>
      by_cases hlive : (w.phase id).live = true
      · have hstep : ((w.exec parse max l).phase id).left + (dueStep id w l).length ≤ (w.phase id).left ∧
            (w.exec parse max l).phase id ≠ .unborn := by
          by_cases hl : ∀ stopped, l ≠ .step id stopped
          · have hnone : dueStep id w l = [] := by
              cases l with
              | step id' stopped =>
                  have hid : id' ≠ id := fun hid => hl stopped (hid ▸ rfl)
                  simp [dueStep, hid]
              | _ => rfl
            rw [h.phase_of_other hborn hl, hnone]
            exact ⟨le_refl _, hborn⟩
          · push Not at hl
            obtain ⟨stopped, rfl⟩ := hl
            have hleft := w.step_left hlive stopped
            refine ⟨hleft, fun hunborn => ?_⟩
            have hunborn : (w.step id stopped).phase id = .unborn := hunborn
            rw [hunborn] at hleft
            have hseven : 7 ≤ (w.phase id).left := (Nat.le_add_right 7 _).trans hleft
            have hsix := Phase.left_le hborn
            omega
        rcases ih (h.exec l) hstep.2 with hended | hleft
        · exact .inl hended
        · refine .inr ?_
          simp only [run_cons, outputs, List.length_append]
          have := hstep.1
          omega
      · have hended : ∃ r, w.phase id = .ended r := by
          cases hid : w.phase id with
          | unborn => exact absurd hid hborn
          | ended r => exact ⟨r, rfl⟩
          | _ => simp [hid, Phase.live] at hlive
        obtain ⟨r, hended⟩ := hended
        exact .inl ⟨r, h.run_ended hended _⟩

/-! ## What was sent arrives -/

def Label.isReader : Label → Bool
  | .reader => true
  | _ => false

/-- What was sent to a request stays. -/
theorem Inv.exec_channel (h : Inv parse max w) {id : ℕ} {r : Reply} (hr : w.channel id = some r) (l : Label) :
    (w.exec parse max l).channel id = some r := by
  have hstep (id' : ℕ) (stopped : Bool) : (w.step id' stopped).channel = w.channel := by
    unfold World.step
    split
    · rfl
    · rfl
    · split <;> rfl
    · split
      · exact w.sendLine_channel _
      · rfl
    · unfold World.wait
      repeat' split
      all_goals rfl
    · rfl
    · rfl
    · exact w.sendLine_channel _
    · rfl
  cases l with
  | request timeout =>
      simp only [World.exec, World.request]
      split <;> exact hr
  | step id' stopped => exact (congrFun (hstep id' stopped) id).trans hr
  | listen =>
      simp only [World.exec, World.sendLine_channel]
      exact hr
  | read chunk =>
      simp only [World.exec, World.read]
      split <;> exact hr
  | eof =>
      simp only [World.exec]
      split <;> exact hr
  | reader =>
      simp only [World.exec, World.readerStep]
      split
      · rename_i id' reply hand hhand
        have hid : id ≠ id' := by
          rintro rfl
          have hnone := h.apart (id, reply) (by rw [hhand]; exact List.mem_cons_self ..)
          rw [hnone] at hr
          cases hr
        exact (Function.update_of_ne hid _ _).trans hr
      · split
        · exact (congrFun (World.onLine_keeps ..).2 id).trans hr
        · split
          · exact hr
          · exact (congrFun (World.onOversize_keeps ..).2 id).trans hr
        · split <;> exact hr
  | tick time => exact hr
  | shut => exact hr

/-- The reader uses the first sender that it holds. -/
theorem World.readerStep_hand {x : ℕ × Reply} {hand : List (ℕ × Reply)} (hhand : w.reader.hand = x :: hand) :
    (w.readerStep parse max).reader.hand = hand ∧ (w.readerStep parse max).channel x.1 = some x.2 := by
  unfold readerStep
  rw [hhand]
  exact ⟨rfl, Function.update_self ..⟩

/-- While the reader holds senders, the others leave them to it. -/
theorem World.exec_hand {x : ℕ × Reply} {hand : List (ℕ × Reply)} (hhand : w.reader.hand = x :: hand) {l : Label}
    (hl : l.isReader = false) : (w.exec parse max l).reader.hand = x :: hand := by
  rw [← hhand]
  cases l with
  | request timeout =>
      simp only [World.exec, World.request]
      split <;> rfl
  | step id stopped =>
      show (w.step id stopped).reader.hand = w.reader.hand
      unfold World.step
      split
      · rfl
      · rfl
      · split <;> rfl
      · split
        · exact congrArg Reader.hand (w.sendLine_reader _)
        · rfl
      · unfold World.wait
        repeat' split
        all_goals rfl
      · rfl
      · rfl
      · exact congrArg Reader.hand (w.sendLine_reader _)
      · rfl
  | listen => exact congrArg Reader.hand (World.sendLine_reader _ _)
  | read chunk =>
      simp only [World.exec, World.read]
      split <;> rfl
  | eof =>
      simp only [World.exec]
      split <;> rfl
  | reader => cases hl
  | tick time => rfl
  | shut => rfl

/-- **What the reader holds is sent**, each sender at one of its next steps, however the others go on. -/
theorem Inv.run_hand (h : Inv parse max w) {x : ℕ × Reply} (hx : x ∈ w.reader.hand) (ms : List Label)
    (hms : w.reader.hand.length ≤ ms.countP Label.isReader) :
    (run (World.exec parse max) w ms).channel x.1 = some x.2 := by
  induction ms generalizing w with
  | nil =>
      have hempty : w.reader.hand = [] := List.length_eq_zero_iff.mp (Nat.le_zero.mp hms)
      rw [hempty] at hx
      cases hx
  | cons l ms ih =>
      obtain ⟨y, hand, hhand⟩ := List.exists_cons_of_ne_nil (List.ne_nil_of_mem hx)
      rw [hhand] at hx hms
      rw [run_cons]
      cases hl : l.isReader with
      | true =>
        have hreader : l = .reader := by
          cases l with
          | reader => rfl
          | _ => cases hl
        subst hreader
        have hstep : (w.exec parse max .reader).reader.hand = hand ∧ (w.exec parse max .reader).channel y.1 = some y.2 :=
          World.readerStep_hand hhand
        rw [List.countP_cons_of_pos hl] at hms
        rcases List.mem_cons.mp hx with rfl | hx
        · exact (invariant (P := fun w => Inv parse max w ∧ w.channel x.1 = some x.2) ⟨h.exec _, hstep.2⟩
            (fun _ m hw => ⟨hw.1.exec m, hw.1.exec_channel hw.2 m⟩) ms).2
        · apply ih (h.exec _)
          · rw [hstep.1]
            exact hx
          · rw [hstep.1]
            exact Nat.le_of_succ_le_succ hms
      | false =>
        have hstep : (w.exec parse max l).reader.hand = y :: hand := World.exec_hand hhand hl
        rw [List.countP_cons_of_neg (by simp [hl])] at hms
        apply ih (h.exec l)
        · rw [hstep]
          exact hx
        · rw [hstep]
          exact hms

/-! ## Every request gets its own answer -/

/-- The server's answer: a result, or an RPC error. -/
def Reply.Served (r : Reply) : Prop := (∃ v, r = .ok v) ∨ ∃ code message, r = .error (.rpc code message)

/-- What holds of the requests in a world, however the parties go on from it. -/
structure OwnAnswers (parse : String → Option Json.Value) (max : ℕ) (w : World) : Prop where
  ids : w.given.Nodup
  own : ∀ id, w.phase id ≠ .unborn → id ∈ w.given
  returns : ∀ id, w.phase id ≠ .unborn → ∀ ms, 6 ≤ (outputs (World.exec parse max) (dueStep id) w ms).length →
    ∃ r, (run (World.exec parse max) w ms).phase id = .ended r
  once : ∀ id r, w.phase id = .ended r → ∀ ms, (run (World.exec parse max) w ms).phase id = .ended r
  answers : ∀ id r, w.phase id = .ended r → r.Served → FromLine parse max w.stream id r
  told : ∀ x ∈ w.reader.hand, ∀ ms, w.reader.hand.length ≤ ms.countP Label.isReader →
    (run (World.exec parse max) w ms).channel x.1 = some x.2

theorem Returned.fromLine {stream : List UInt8} {id : ℕ} {r : Reply} (h : Returned parse max stream id r)
    (hr : r.Served) : FromLine parse max stream id r := by
  cases h with
  | reader h =>
      cases h with
      | line h => exact h
      | oversize h => rcases hr with ⟨v, hv⟩ | ⟨code, message, hv⟩ <;> cases h.symm.trans hv
      | exited why h => rcases hr with ⟨v, hv⟩ | ⟨code, message, hv⟩ <;> cases h.symm.trans hv
  | timeout d h => rcases hr with ⟨v, hv⟩ | ⟨code, message, hv⟩ <;> cases h.symm.trans hv
  | cancelled h => rcases hr with ⟨v, hv⟩ | ⟨code, message, hv⟩ <;> cases h.symm.trans hv

theorem Inv.ownAnswers (h : Inv parse max w) : OwnAnswers parse max w where
  ids := h.nodup
  own id hborn := (h.born id).resolve_left hborn
  returns id hborn ms hms := by
    rcases h.run_left hborn ms with hended | hleft
    · exact hended
    · have hsix := Phase.left_le hborn
      exact Phase.left_eq_zero (by omega)
  once _ _ hended ms := h.run_ended hended ms
  answers id r hended hr := (h.replies id r (by rw [hended]; rfl)).fromLine hr
  told _ hx ms hms := h.run_hand hx ms hms

/-! ## Lines over the cap -/

/-- The request that a line answers. -/
def Heard.answered : Heard → Option ℕ
  | .answer id _ => some id
  | _ => none

namespace Treated

def Answers (parse : String → Option Json.Value) (t : Treated) (id : ℕ) : Prop := (hear parse t.bytes).answered = some id

/-- The line is attributed to the request: the only one that was pending, or the first whose id is in the text. -/
def AttributedTo (t : Treated) (id : ℕ) : Prop :=
  t.seen = [id] ∨ t.seen.length ≠ 1 ∧ (scanIds t.kept).find? (fun id => t.seen.contains id) = some id

/-- The request that the line answers is failed, and no other unless all are. -/
structure Fair (parse : String → Option Json.Value) (t : Treated) : Prop where
  answered : ∀ id ∈ t.pending, t.Answers parse id → id ∈ t.failed
  others : ∀ id ∈ t.failed, ¬ t.Answers parse id → ∀ id' ∈ t.pending, id' ∈ t.failed

/-- The request to which the line is attributed, if it still waits, is the one it answers, or the only one. -/
def Right (parse : String → Option Json.Value) (t : Treated) : Prop :=
  ∀ id ∈ t.pending, t.AttributedTo id → t.Answers parse id ∨ ∀ id' ∈ t.pending, id' = id

theorem attributedTo_iff {t : Treated} {id : ℕ} : t.AttributedTo id ↔ attributed t.seen t.kept = some id := by
  unfold AttributedTo attributed
  split
  · rename_i id' hseen
    rw [hseen]
    simp
  · rename_i hmany
    constructor
    · rintro (hone | ⟨-, hfind⟩)
      · exact absurd hone (hmany id)
      · exact hfind
    · intro hfind
      refine .inr ⟨fun hlength => ?_, hfind⟩
      obtain ⟨id', hone⟩ := List.length_eq_one_iff.mp hlength
      exact hmany id' hone

end Treated

/-- What is failed for a line over the cap: the request it is attributed to, or all. -/
theorem treated_cases {l : Label} {t : Treated} (ht : t ∈ treated parse max w l) :
    (∃ id ∈ t.pending, t.AttributedTo id ∧ t.failed = [id]) ∨
      (∀ id ∈ t.pending, ¬ t.AttributedTo id) ∧ t.failed = t.pending := by
  unfold treated at ht
  split at ht
  · rename_i kept bytes lines seen hhand hlines hseen
    rw [List.mem_singleton] at ht
    subst ht
    simp only [Treated.attributedTo_iff]
    have hexec : w.exec parse max .reader =
        (w.setReader { w.reader with seen := none, lines := lines }).onOversize max seen kept := by
      simp only [World.exec, World.readerStep, hhand, hlines, hseen]
    obtain ⟨ids, heq, hids⟩ := onOversize_eq (w.setReader { w.reader with seen := none, lines := lines }) max seen kept
    rw [hexec, heq]
    -- the failed requests are those whose senders the reader now holds
    have hfailed : ((World.take (w.setReader { w.reader with seen := none, lines := lines }) ids
        (.error (.oversize max))).reader.hand.map Prod.fst) = ids := by
      show (ids.map fun id => (id, _)).map Prod.fst = ids
      rw [List.map_map]
      exact List.map_id' ids
    rw [hfailed]
    rcases hids with ⟨id, hattributed, hpending, rfl⟩ | ⟨hnone, rfl⟩
    · exact .inl ⟨id, hpending, hattributed, rfl⟩
    · exact .inr ⟨fun id hpending hattributed => hnone id hattributed hpending, rfl⟩
  · cases ht

/-- **Lines over the cap.** Such a line fails whom it should exactly when it is rightly attributed. -/
theorem Treated.fair_iff {l : Label} {t : Treated} (ht : t ∈ treated parse max w l) : t.Fair parse ↔ t.Right parse := by
  rcases treated_cases ht with ⟨id, hpending, hattributed, hfailed⟩ | ⟨hnone, hfailed⟩
  · constructor
    · intro hfair id' hid' hto
      -- a line is attributed to one request at most
      have hsame : id' = id :=
        Option.some.inj ((attributedTo_iff.mp hto).symm.trans (attributedTo_iff.mp hattributed))
      rw [hsame]
      by_cases hanswers : t.Answers parse id
      · exact .inl hanswers
      · refine .inr fun id'' hid'' => ?_
        have hmem := hfair.others id (by rw [hfailed]; exact List.mem_singleton_self id) hanswers id'' hid''
        rw [hfailed] at hmem
        exact List.mem_singleton.mp hmem
    · intro hright
      rw [Right] at hright
      refine ⟨fun id' hid' hanswers => ?_, fun id' hid' hnot id'' hid'' => ?_⟩
      · rw [hfailed, List.mem_singleton]
        rcases hright id hpending hattributed with hown | honly
        · exact Option.some.inj (hanswers.symm.trans hown)
        · exact honly id' hid'
      · rw [hfailed, List.mem_singleton] at hid' ⊢
        subst hid'
        exact (hright id' hpending hattributed).resolve_left hnot id'' hid''
  · constructor
    · intro _ id hid hto
      exact absurd hto (hnone id hid)
    · intro _
      refine ⟨fun id hid _ => ?_, fun _ _ _ id hid => ?_⟩
      · rw [hfailed]
        exact hid
      · rw [hfailed]
        exact hid

theorem outputs_treated_cases {ls : List Label} {w₀ : World} {t : Treated}
    (ht : t ∈ outputs (World.exec parse max) (treated parse max) w₀ ls) : ∃ w l, t ∈ treated parse max w l := by
  induction ls generalizing w₀ with
  | nil => cases ht
  | cons l ls ih =>
      rcases List.mem_append.mp ht with hnow | hlater
      · exact ⟨w₀, l, hnow⟩
      · exact ih hlater

/-- **Answers over pipes.** In every run each request gets its own answer; and every line over the cap fails the
    request that it answers, and others only with all, exactly when every such line is rightly attributed. -/
theorem own_answers_iff (parse : String → Option Json.Value) (max : ℕ) (ls : List Label) :
    (OwnAnswers parse max (run (World.exec parse max) .init ls) ∧
        ∀ t ∈ outputs (World.exec parse max) (treated parse max) .init ls, t.Fair parse) ↔
      ∀ t ∈ outputs (World.exec parse max) (treated parse max) .init ls, t.Right parse := by
  have hown : OwnAnswers parse max (run (World.exec parse max) .init ls) :=
    (World.Reachable.inv ⟨ls, rfl⟩).ownAnswers
  have hfair : ∀ t ∈ outputs (World.exec parse max) (treated parse max) .init ls, (t.Fair parse ↔ t.Right parse) := by
    intro t ht
    obtain ⟨w, l, hmem⟩ := outputs_treated_cases ht
    exact Treated.fair_iff hmem
  exact ⟨fun h t ht => (hfair t ht).mp (h.2 t ht), fun h => ⟨hown, fun t ht => (hfair t ht).mpr (h t ht)⟩⟩

/-! ### An id inside the result -/

/-- A line of 76 bytes that answers request 2, with an id inside its result. -/
def nestedId : String :=
  "\x7b\"jsonrpc\":\"2.0\",\"result\":\x7b\"id\":1,\"text\":\"twenty-four letters here\"\x7d,\"id\":2\x7d"

def parseNested (text : String) : Option Json.Value :=
  if text = nestedId then
    some (.ofEntries [("jsonrpc", .string "2.0"),
      ("result", .ofEntries [("id", .number (.posInt 1)), ("text", .string "twenty-four letters here")]),
      ("id", .number (.posInt 2))])
  else none

/-- Two requests wait, and the line is read. -/
def nestedRun : List Label :=
  [.request 5, .step 1 false, .step 1 false, .step 1 false, .request 5, .step 2 false, .step 2 false, .step 2 false,
    .read (nestedId.toUTF8.toList ++ [10]), .reader, .reader]

/-- The line answers request 2; request 1 is failed, and request 2 left waiting. -/
theorem nested_id_misleads : ¬ ∀ (parse : String → Option Json.Value) (max : ℕ) (ls : List Label),
    OwnAnswers parse max (run (World.exec parse max) .init ls) ∧
      ∀ t ∈ outputs (World.exec parse max) (treated parse max) .init ls, t.Fair parse := by
  intro h
  obtain ⟨-, hfair⟩ := h parseNested 64 nestedRun
  have htreated : (outputs (World.exec parseNested 64) (treated parseNested 64) .init nestedRun).map
      (fun t => ((hear parseNested t.bytes).answered, t.pending, t.failed)) = [(some 2, [2, 1], [1])] := by
    decide +kernel
  obtain ⟨t, hmem, ht⟩ := List.mem_map.mp (htreated ▸ List.mem_singleton_self _)
  obtain ⟨hanswers, hpending, hfailed⟩ : (hear parseNested t.bytes).answered = some 2 ∧ t.pending = [2, 1] ∧
      t.failed = [1] := by simpa using ht
  have hnot := (hfair t hmem).answered 2 (by rw [hpending]; decide) hanswers
  rw [hfailed] at hnot
  exact absurd hnot (by decide)

end AgentRuntime.Mcp
