import AgentRuntime.Workers.Supervisor

/-!
# `Workers.Senders` — where the sender of a request is

Every request line goes to one child at most, and a reply comes from a child that has the line. The sender of a request
is taken out of the table once: by a reader, which passes an answer on, or by the monitor, which tells that the child is
gone; or the request's own thread takes it out, when its write failed or its wait is over.

The invariant says where the sender of each request can be, by the phase of the request and by where the monitor stands:
once the monitor has emptied the table after a child, no request of that child is in it.
-/

namespace AgentRuntime.Workers

open Machine

/-! ## What the positions mean -/

/-- The request may be in the table. -/
def Phase.inTable : Phase → Bool
  | .registered _ => true
  | .writing .. => true
  | .refused => true
  | .waiting => true
  | .expired => true
  | _ => false

/-- The request will wait for a reply, or waits for one. -/
def Phase.awaits : Phase → Bool
  | .registered _ => true
  | .writing .. => true
  | .waiting => true
  | _ => false

def Phase.isWriting : Phase → Bool
  | .writing .. => true
  | _ => false

/-- The handle was locked for the request. -/
def Phase.pastLock : Phase → Bool
  | .unborn => false
  | .numbered _ => false
  | .registered _ => false
  | _ => true

/-- The request was in the table. -/
def Phase.entered : Phase → Bool
  | .unborn => false
  | .numbered _ => false
  | _ => true

/-- The request is under way. -/
def Phase.live : Phase → Bool
  | .unborn => false
  | .ended _ => false
  | _ => true

/-- The request of a call. -/
def CallPc.id? : CallPc → Option ℕ
  | .requesting id => some id
  | .done id _ => id
  | _ => none

/-- The call is under way. -/
def CallPc.active : CallPc → Bool
  | .idle => false
  | .done .. => false
  | _ => true

@[simp] def MonitorPc.request? : MonitorPc → Option ℕ
  | .asked _ id _ => some id
  | _ => none

/-- The senders the monitor took from the table. -/
@[simp] def MonitorPc.toFail : MonitorPc → Finset ℕ
  | .failing _ _ ids => ids
  | _ => ∅

/-- No child has its input open. -/
@[simp] def MonitorPc.closed : MonitorPc → Bool
  | .head => true
  | .stopping => true
  | .starting => true
  | .spawning => true
  | .opening => true
  | .reaping _ => true
  | .draining .. => true
  | .failing .. => true
  | .deciding .. => true
  | .restarting _ => true
  | .backoff => true
  | .returned => true
  | _ => false

/-- The table was emptied after the last child. -/
@[simp] def MonitorPc.drained : MonitorPc → Bool
  | .head => true
  | .stopping => true
  | .starting => true
  | .spawning => true
  | .failing .. => true
  | .deciding .. => true
  | .restarting _ => true
  | .backoff => true
  | .returned => true
  | _ => false

/-- The monitor goes on, between two requests, without another hold on the children or the table. -/
def MonitorPc.Onward (m m' : MonitorPc) : Prop :=
  m ≠ .returned ∧ m.request? = none ∧ m'.toFail = m.toFail ∧ m'.request? = none ∧ m' ≠ .opening ∧
    (m'.closed = true → m.closed = true) ∧ (m'.drained = true → m.drained = true)

/-! ## The invariant -/

/-- The child `c` has the line of the request `id` and wrote the reply `r` to it. -/
def Answered (w : World) (c id : ℕ) (r : Reply) : Prop :=
  id ∈ (w.children c).received ∧ ∃ resp ∈ (w.children c).said, resp.id = id ∧ resp.reply = r

/-- What a sender can send. -/
def Sent (w : World) (id : ℕ) (r : Reply) : Prop := (∃ why, r = .error (.crashed why)) ∨ ∃ c, Answered w c id r

/-- What a request can end with. -/
def Outcome (w : World) (id : ℕ) (r : Reply) : Prop := r = .error .timeout ∨ Sent w id r

/-- The children of `w'` have received and said what those of `w` have, and maybe more. -/
def Grown (w w' : World) : Prop :=
  ∀ c, (∀ id ∈ (w.children c).received, id ∈ (w'.children c).received) ∧
    ∀ resp ∈ (w.children c).said, resp ∈ (w'.children c).said

namespace Grown

variable {w w' : World} {id : ℕ} {r : Reply}

theorem answered (h : Grown w w') {c : ℕ} (ha : Answered w c id r) : Answered w' c id r := by
  obtain ⟨hin, resp, hresp, heq⟩ := ha
  exact ⟨(h c).1 id hin, resp, (h c).2 resp hresp, heq⟩

theorem sent (h : Grown w w') (hs : Sent w id r) : Sent w' id r := by
  rcases hs with hc | ⟨c, ha⟩
  · exact .inl hc
  · exact .inr ⟨c, h.answered ha⟩

theorem outcome (h : Grown w w') (ho : Outcome w id r) : Outcome w' id r := ho.imp (fun ht => ht) h.sent

end Grown

/-- What a call can return without a request. -/
def Unsent (r : Reply) : Prop :=
  (∃ why, r = .error (.notRunning why)) ∨ (∃ e : String, r = .error (.remote s!"could not encode the request: {e}")) ∨
    ∃ bytes : ℕ, maxLineBytes < bytes ∧ r = .error (.remote
      s!"the request is too large for the worker wire ({bytes} bytes, limit {maxLineBytes})")

/-- The sender of the request has left the table. -/
def Taken (w : World) (id : ℕ) : Prop :=
  (∃ c r, (w.children c).hand = some (id, r)) ∨ id ∈ w.monitor.toFail ∨ (w.channel id).isSome = true

/-- The table was emptied after the child `c`. -/
def Drained (w : World) (c : ℕ) : Prop := c + 1 < w.spawned ∨ (c + 1 = w.spawned ∧ w.monitor.drained = true)

structure Inv (w : World) : Prop where
  fresh : ∀ id, w.ids < id → w.phase id = .unborn
  entry : ∀ id ∈ w.pending, (w.phase id).inTable = true
  holder : ∀ id, w.holder = some id ↔ (w.phase id).isWriting = true
  writing : ∀ id c rest, w.phase id = .writing c rest →
    c + 1 = w.spawned ∧ id ∈ (w.children c).begun ∧ id ∉ (w.children c).received
  begun : ∀ c, ∀ id ∈ (w.children c).begun, (w.phase id).pastLock = true ∧ c < w.spawned
  nodup : ∀ c, (w.children c).begun.Nodup
  single : ∀ c c' id, id ∈ (w.children c).begun → id ∈ (w.children c').begun → c = c'
  received : ∀ c, ∀ id ∈ (w.children c).received, id ∈ (w.children c).begun
  said : ∀ c, ∀ resp ∈ (w.children c).said, resp.id ∈ (w.children c).received
  hand : ∀ c id r, (w.children c).hand = some (id, r) → Answered w c id r
  channel : ∀ id r, w.channel id = some r → Sent w id r
  ended : ∀ id r, w.phase id = .ended r → Outcome w id r
  sender : ∀ id, (w.phase id).awaits = true → id ∈ w.pending ∨ Taken w id
  taken : ∀ id, Taken w id → id ∉ w.pending ∧ (w.phase id).entered = true
  callBorn : ∀ i id, (w.calls i).id? = some id → w.phase id ≠ .unborn
  callOnce : ∀ i j id, (w.calls i).id? = some id → (w.calls j).id? = some id → i = j
  done : ∀ i id r, w.calls i = .done (some id) r → w.phase id = .ended r
  unsent : ∀ i r, w.calls i = .done none r → Unsent r
  asked : ∀ id, w.monitor.request? = some id → w.phase id ≠ .unborn ∧ ∀ i, (w.calls i).id? ≠ some id
  owned : ∀ id, (w.phase id).live = true → (∃ i, w.calls i = .requesting id) ∨ w.monitor.request? = some id
  stdin : ∀ c, w.stdin = some c → c + 1 = w.spawned
  closed : w.monitor.closed = true → w.stdin = none ∧ w.holder = none
  drained : ∀ c, Drained w c → ∀ id ∈ (w.children c).begun, id ∉ w.pending
  gone : w.state = .failed ∨ w.state = .stopped → w.monitor = .returned
  opened : w.monitor = .opening → w.spawned ≠ 0

theorem inv_init : Inv .init := by
  constructor <;>
    simp [World.init, Child.new, Taken, Phase.isWriting, Phase.awaits, Phase.live, CallPc.id?, MonitorPc.request?]

theorem inv_unsupervised : Inv .unsupervised := by
  constructor <;>
    simp [World.unsupervised, World.init, Child.new, Taken, Phase.isWriting, Phase.awaits, Phase.live, CallPc.id?,
      MonitorPc.request?]

/-- A request begins with a line, or is refused before anything is sent. -/
theorem World.begin_cases (w : World) (method : String) (params : Except String ℕ) :
    (∃ e, w.begin method params = (.error e, { w with ids := w.ids + 1 }) ∧ Unsent (.error e)) ∨
      ∃ bytes, w.begin method params =
        (.ok (w.ids + 1), ({ w with ids := w.ids + 1 } : World).setPhase (w.ids + 1) (.numbered bytes)) := by
  unfold World.begin
  cases params with
  | error e => exact .inl ⟨_, rfl, .inr (.inl ⟨e, rfl⟩)⟩
  | ok n =>
      by_cases hlong : maxLineBytes < lineLength (w.ids + 1) method n
      · simp only [if_pos hlong]
        exact .inl ⟨_, rfl, .inr (.inr ⟨_, hlong, rfl⟩)⟩
      · simp only [if_neg hlong]
        exact .inr ⟨_, rfl⟩

namespace Inv

variable {w : World} {policy : Policy}

/-- A sender that is not in the table any more does not come back to it. -/
theorem pending_born (h : Inv w) {id : ℕ} (hid : id ∈ w.pending) : w.phase id ≠ .unborn := by
  intro hborn
  have := h.entry id hid
  rw [hborn] at this
  cases this

theorem born_le (h : Inv w) {id : ℕ} (hid : w.phase id ≠ .unborn) : id ≤ w.ids := by
  by_contra hlt
  exact hid (h.fresh id (not_le.mp hlt))

/-! ### Steps of the monitor that only it sees -/

/-- The monitor goes on. -/
theorem move (h : Inv w) {m : MonitorPc} {state : WorkerState} {lastError : Option String} {recent : ℕ}
    (hrequest : ∀ id, w.monitor.request? = some id → m.request? = some id ∨ (w.phase id).live = false)
    (hnew : ∀ id, m.request? = some id → w.monitor.request? = some id)
    (hfail : m.toFail = w.monitor.toFail) (hclosed : m.closed = true → w.monitor.closed = true)
    (hdrained : m.drained = true → w.monitor.drained = true)
    (hgone : state = .failed ∨ state = .stopped → m = .returned) (hopened : m ≠ .opening) :
    Inv { w with monitor := m, state, lastError, recent } :=
  { h with
    sender := by
      intro id haw
      rcases h.sender id haw with hp | hhand | hf | hc
      · exact .inl hp
      · exact .inr (.inl hhand)
      · exact .inr (.inr (.inl (hfail.symm.subst (motive := fun s => id ∈ s) hf)))
      · exact .inr (.inr (.inr hc))
    taken := by
      intro id ht
      apply h.taken id
      rcases ht with hhand | hf | hc
      · exact .inl hhand
      · exact .inr (.inl (hfail.subst (motive := fun s => id ∈ s) hf))
      · exact .inr (.inr hc)
    asked := fun id hid => h.asked id (hnew id hid)
    owned := by
      intro id hlive
      rcases h.owned id hlive with hcall | hreq
      · exact .inl hcall
      · rcases hrequest id hreq with hm | hdead
        · exact .inr hm
        · rw [show (w.phase id).live = true from hlive] at hdead
          cases hdead
    closed := fun hm => h.closed (hclosed hm)
    drained := by
      rintro c (hlt | ⟨heq, hm⟩)
      · exact h.drained c (.inl hlt)
      · exact h.drained c (.inr ⟨heq, hdrained hm⟩)
    gone := hgone
    opened := fun ho => absurd ho hopened }

/-! ### Calls -/

/-- A call goes on with the request it has, if it has one. -/
theorem settle (h : Inv w) {i : ℕ} {pc : CallPc} (hid : pc.id? = (w.calls i).id?)
    (hdone : ∀ id r, pc = .done (some id) r → w.phase id = .ended r)
    (hunsent : ∀ r, pc = .done none r → Unsent r)
    (howned : ∀ id, w.calls i = .requesting id → (w.phase id).live = false) : Inv (w.setCall i pc) := by
  have hids (j : ℕ) : ((w.setCall i pc).calls j).id? = (w.calls j).id? := by
    by_cases hj : j = i
    · subst hj
      simpa [World.setCall] using hid
    · simp [World.setCall, Function.update_of_ne hj]
  have hcall {j : ℕ} {pc' : CallPc} (hj : (w.setCall i pc).calls j = pc') : pc = pc' ∨ w.calls j = pc' := by
    by_cases hji : j = i
    · subst hji
      exact .inl ((Function.update_self ..).symm.trans hj)
    · exact .inr ((Function.update_of_ne hji ..).symm.trans hj)
  exact { h with
    callBorn := fun j id hj => h.callBorn j id ((hids j).symm.trans hj)
    callOnce := fun j k id hj hk => h.callOnce j k id ((hids j).symm.trans hj) ((hids k).symm.trans hk)
    done := by
      intro j id r hj
      rcases hcall hj with hpc | hold
      · exact hdone id r hpc
      · exact h.done j id r hold
    unsent := by
      intro j r hj
      rcases hcall hj with hpc | hold
      · exact hunsent r hpc
      · exact h.unsent j r hold
    asked := fun id hreq => ⟨(h.asked id hreq).1, fun j hj => (h.asked id hreq).2 j ((hids j).symm.trans hj)⟩
    owned := by
      intro id hlive
      rcases h.owned id hlive with ⟨j, hj⟩ | hreq
      · by_cases hji : j = i
        · subst hji
          have hdead := howned id hj
          rw [show (w.phase id).live = true from hlive] at hdead
          cases hdead
        · exact .inl ⟨j, (Function.update_of_ne hji ..).trans hj⟩
      · exact .inr hreq }

/-! ### Requests -/

/-- A request that has its id, and is not being written, goes on; it may enter or leave the table. -/
theorem advance (h : Inv w) {id : ℕ} {p : Phase} {pending : Finset ℕ} (hlive : (w.phase id).live = true)
    (hborn : p ≠ .unborn) (hold : (w.phase id).isWriting = false) (hnew : p.isWriting = false)
    (hpending : ∀ id', id' ≠ id → (id' ∈ pending ↔ id' ∈ w.pending))
    (hentry : id ∈ pending → p.inTable = true ∧ (id ∈ w.pending ∨ (w.phase id).entered = false))
    (hentered : p.entered = true) (hlock : (w.phase id).pastLock = true → p.pastLock = true)
    (hended : ∀ r, p = .ended r → Outcome w id r)
    (hsender : p.awaits = true → id ∈ pending ∨ Taken w id) :
    Inv { w.setPhase id p with pending } := by
  have hphase {id' : ℕ} (hne : id' ≠ id) : Function.update w.phase id p id' = w.phase id' := Function.update_of_ne hne ..
  have hself : Function.update w.phase id p id = p := Function.update_self ..
  exact { h with
    fresh := by
      intro id' hlt
      have hne : id' ≠ id := by
        rintro rfl
        rw [h.fresh id' hlt] at hlive
        cases hlive
      exact (hphase hne).trans (h.fresh id' hlt)
    entry := by
      intro id' hid'
      show (Function.update w.phase id p id').inTable = true
      by_cases hne : id' = id
      · subst hne
        rw [hself]
        exact (hentry hid').1
      · rw [hphase hne]
        exact h.entry id' ((hpending id' hne).mp hid')
    holder := by
      intro id'
      show w.holder = some id' ↔ (Function.update w.phase id p id').isWriting = true
      rw [h.holder id']
      by_cases hne : id' = id
      · subst hne
        rw [hself, hold, hnew]
      · rw [hphase hne]
    writing := by
      intro id' c rest hid'
      by_cases hne : id' = id
      · subst hne
        rw [show Function.update w.phase id' p id' = Phase.writing c rest from hid'] at hself
        rw [← hself] at hnew
        cases hnew
      · exact h.writing id' c rest ((hphase hne).symm.trans hid')
    begun := by
      intro c id' hid'
      refine ⟨?_, (h.begun c id' hid').2⟩
      show (Function.update w.phase id p id').pastLock = true
      by_cases hne : id' = id
      · subst hne
        rw [hself]
        exact hlock (h.begun c id' hid').1
      · rw [hphase hne]
        exact (h.begun c id' hid').1
    ended := by
      intro id' r hid'
      by_cases hne : id' = id
      · subst hne
        exact hended r (hself.symm.trans hid')
      · exact h.ended id' r ((hphase hne).symm.trans hid')
    sender := by
      intro id' haw
      by_cases hne : id' = id
      · subst hne
        rw [show (World.setPhase w id' p).phase id' = p from hself] at haw
        exact hsender haw
      · rw [show (World.setPhase w id p).phase id' = w.phase id' from hphase hne] at haw
        rcases h.sender id' haw with hp | ht
        · exact .inl ((hpending id' hne).mpr hp)
        · exact .inr ht
    taken := by
      intro id' ht
      obtain ⟨hnot, hin⟩ := h.taken id' ht
      show id' ∉ pending ∧ (Function.update w.phase id p id').entered = true
      by_cases hne : id' = id
      · subst hne
        rw [hself]
        refine ⟨fun hp => ?_, hentered⟩
        rcases (hentry hp).2 with hold' | hfresh
        · exact hnot hold'
        · rw [hin] at hfresh
          cases hfresh
      · rw [hphase hne]
        exact ⟨fun hp => hnot ((hpending id' hne).mp hp), hin⟩
    callBorn := by
      intro i id' hi
      show Function.update w.phase id p id' ≠ .unborn
      by_cases hne : id' = id
      · subst hne
        rw [hself]
        exact hborn
      · rw [hphase hne]
        exact h.callBorn i id' hi
    done := by
      intro i id' r hi
      have hend := h.done i id' r hi
      have hne : id' ≠ id := by
        rintro rfl
        rw [hend] at hlive
        cases hlive
      exact (hphase hne).trans hend
    asked := by
      intro id' hreq
      refine ⟨?_, (h.asked id' hreq).2⟩
      show Function.update w.phase id p id' ≠ .unborn
      by_cases hne : id' = id
      · subst hne
        rw [hself]
        exact hborn
      · rw [hphase hne]
        exact (h.asked id' hreq).1
    owned := by
      intro id' hl
      by_cases hne : id' = id
      · subst hne
        exact h.owned id' hlive
      · rw [show (World.setPhase w id p).phase id' = w.phase id' from hphase hne] at hl
        exact h.owned id' hl
    drained := by
      intro c hd id' hid' hp
      by_cases hne : id' = id
      · subst hne
        rcases (hentry hp).2 with hold' | hnot
        · exact h.drained c hd id' hid' hold'
        · have hpast := (h.begun c id' hid').1
          revert hnot hpast
          cases w.phase id' <;> simp [Phase.entered, Phase.pastLock]
      · exact h.drained c hd id' hid' ((hpending id' hne).mp hp) }

/-! ### Children and their readers -/

/-- A child writes a line, its reader takes one, or its state changes otherwise; the lines it was sent stay. -/
theorem child (h : Inv w) {c : ℕ} {child : Child} {pending : Finset ℕ} {channel : ℕ → Option Reply}
    (hbegun : child.begun = (w.children c).begun) (hreceived : child.received = (w.children c).received)
    (hsaid : ∀ resp ∈ (w.children c).said, resp ∈ child.said)
    (hnew : ∀ resp ∈ child.said, resp.id ∈ (w.children c).received)
    (hhand : ∀ id r, child.hand = some (id, r) → Answered w c id r) (hpending : pending ⊆ w.pending)
    (hchannel : ∀ id r, channel id = some r → Sent w id r)
    (hsender : ∀ id, id ∈ w.pending ∨ Taken w id → id ∈ pending ∨ Taken { w.setChild c child with pending, channel } id)
    (htaken : ∀ id, Taken { w.setChild c child with pending, channel } id → id ∉ pending ∧ (w.phase id).entered = true) :
    Inv { w.setChild c child with pending, channel } := by
  have hchild {c' : ℕ} (hne : c' ≠ c) : Function.update w.children c child c' = w.children c' :=
    Function.update_of_ne hne ..
  have hself : Function.update w.children c child c = child := Function.update_self ..
  have hbegun' (c' : ℕ) : (Function.update w.children c child c').begun = (w.children c').begun := by
    by_cases hc : c' = c
    · subst hc
      rw [hself, hbegun]
    · rw [hchild hc]
  have hreceived' (c' : ℕ) : (Function.update w.children c child c').received = (w.children c').received := by
    by_cases hc : c' = c
    · subst hc
      rw [hself, hreceived]
    · rw [hchild hc]
  have hsaid' (c' : ℕ) : ∀ resp ∈ (w.children c').said, resp ∈ (Function.update w.children c child c').said := by
    by_cases hc : c' = c
    · subst hc
      rw [hself]
      exact hsaid
    · rw [hchild hc]
      exact fun _ => id
  have hgrown : Grown w { w.setChild c child with pending, channel } := by
    refine fun c' => ⟨fun id hid => ?_, hsaid' c'⟩
    show id ∈ (Function.update w.children c child c').received
    rw [hreceived']
    exact hid
  exact { h with
    entry := fun id hid => h.entry id (hpending hid)
    writing := by
      intro id c' rest hid
      obtain ⟨hlast, hb, hr⟩ := h.writing id c' rest hid
      refine ⟨hlast, ?_, ?_⟩
      · show id ∈ (Function.update w.children c child c').begun
        rw [hbegun']
        exact hb
      · show id ∉ (Function.update w.children c child c').received
        rw [hreceived']
        exact hr
    begun := fun c' id hid => h.begun c' id ((hbegun' c').subst hid)
    nodup := fun c' => (hbegun' c').symm ▸ h.nodup c'
    single := fun c' c'' id hid hid' => h.single c' c'' id ((hbegun' c').subst hid) ((hbegun' c'').subst hid')
    received := by
      intro c' id hid
      show id ∈ (Function.update w.children c child c').begun
      rw [hbegun']
      exact h.received c' id ((hreceived' c').subst hid)
    said := by
      intro c' resp hresp
      show resp.id ∈ (Function.update w.children c child c').received
      rw [hreceived']
      by_cases hc : c' = c
      · subst hc
        exact hnew resp (hself.subst (motive := fun x => resp ∈ x.said) hresp)
      · exact h.said c' resp ((hchild hc).subst (motive := fun x => resp ∈ x.said) hresp)
    hand := by
      intro c' id r hid
      by_cases hc : c' = c
      · subst hc
        exact hgrown.answered (hhand id r (hself.subst (motive := fun x => x.hand = some (id, r)) hid))
      · exact hgrown.answered (h.hand c' id r ((hchild hc).subst (motive := fun x => x.hand = some (id, r)) hid))
    channel := fun id r hid => hgrown.sent (hchannel id r hid)
    ended := fun id r hid => hgrown.outcome (h.ended id r hid)
    sender := fun id haw => hsender id (h.sender id haw)
    taken := htaken
    drained := fun c' hd id hid hp => h.drained c' hd id ((hbegun' c').subst hid) (hpending hp) }

/-! ### A new request -/

/-- An id is given to nothing. -/
theorem skip (h : Inv w) : Inv { w with ids := w.ids + 1 } :=
  { h with fresh := fun id hlt => h.fresh id (Nat.lt_of_succ_lt hlt) }

/-- A call or the monitor begins a request. -/
theorem number (h : Inv w) {bytes : ℕ} {calls : ℕ → CallPc} {m : MonitorPc}
    (hcalls : ∀ i, calls i = w.calls i ∨ ((w.calls i).id? = none ∧ calls i = .requesting (w.ids + 1)))
    (hone : ∀ i j, (calls i).id? = some (w.ids + 1) → (calls j).id? = some (w.ids + 1) → i = j)
    (hm : m = w.monitor ∨ (w.monitor.request? = none ∧ w.monitor.closed = false ∧
      ∃ a exited, m = .asked a (w.ids + 1) exited))
    (hstate : m = w.monitor ∨ w.monitor.toFail = ∅)
    (hasked : m.request? = some (w.ids + 1) → ∀ i, (calls i).id? ≠ some (w.ids + 1))
    (howned : (∃ i, calls i = .requesting (w.ids + 1)) ∨ m.request? = some (w.ids + 1)) :
    Inv { (({ w with ids := w.ids + 1 } : World).setPhase (w.ids + 1) (.numbered bytes)) with calls, monitor := m } := by
  have hunborn : w.phase (w.ids + 1) = .unborn := h.fresh _ (Nat.lt_succ_self _)
  have hphase {id : ℕ} (hne : id ≠ w.ids + 1) :
      Function.update w.phase (w.ids + 1) (.numbered bytes) id = w.phase id := Function.update_of_ne hne ..
  have hself : Function.update w.phase (w.ids + 1) (.numbered bytes) (w.ids + 1) = .numbered bytes :=
    Function.update_self ..
  have hold {id : ℕ} (hid : w.phase id ≠ .unborn) : Function.update w.phase (w.ids + 1) (.numbered bytes) id = w.phase id := by
    apply hphase
    rintro rfl
    exact hid hunborn
  have hids {i id : ℕ} (hi : (calls i).id? = some id) : (w.calls i).id? = some id ∨ id = w.ids + 1 := by
    rcases hcalls i with heq | ⟨-, heq⟩
    · rw [heq] at hi
      exact .inl hi
    · rw [heq] at hi
      cases hi
      exact .inr rfl
  have hborn (i id : ℕ) (hi : (calls i).id? = some id) :
      Function.update w.phase (w.ids + 1) (.numbered bytes) id ≠ .unborn := by
    rcases hids hi with hi' | rfl
    · rw [hold (h.callBorn i id hi')]
      exact h.callBorn i id hi'
    · rw [hself]
      simp
  have hdone {i : ℕ} {x : Option ℕ} {r : Reply} (hi : calls i = .done x r) : w.calls i = .done x r := by
    rcases hcalls i with heq | ⟨-, heq⟩
    · exact heq.symm.trans hi
    · rw [heq] at hi
      cases hi
  have hrequest {id : ℕ} (hid : m.request? = some id) : w.monitor.request? = some id ∨ id = w.ids + 1 := by
    rcases hm with rfl | ⟨-, -, a, exited, rfl⟩
    · exact .inl hid
    · cases hid
      exact .inr rfl
  exact { h with
    fresh := by
      intro id hlt
      have hlt' : w.ids + 1 < id := hlt
      exact (hphase hlt'.ne').trans (h.fresh id (Nat.lt_of_succ_lt hlt'))
    entry := by
      intro id hid
      show (Function.update w.phase (w.ids + 1) (.numbered bytes) id).inTable = true
      rw [hold (h.pending_born hid)]
      exact h.entry id hid
    holder := by
      intro id
      show w.holder = some id ↔ (Function.update w.phase (w.ids + 1) (.numbered bytes) id).isWriting = true
      rw [h.holder id]
      by_cases hne : id = w.ids + 1
      · subst hne
        rw [hself, hunborn]
        rfl
      · rw [hphase hne]
    writing := by
      intro id c rest hid
      by_cases hne : id = w.ids + 1
      · subst hne
        cases hself.symm.trans hid
      · exact h.writing id c rest ((hphase hne).symm.trans hid)
    begun := by
      intro c id hid
      obtain ⟨hpast, hlt⟩ := h.begun c id hid
      refine ⟨?_, hlt⟩
      show (Function.update w.phase (w.ids + 1) (.numbered bytes) id).pastLock = true
      rw [hold]
      · exact hpast
      · intro hu
        rw [hu] at hpast
        cases hpast
    ended := by
      intro id r hid
      by_cases hne : id = w.ids + 1
      · subst hne
        cases hself.symm.trans hid
      · exact h.ended id r ((hphase hne).symm.trans hid)
    sender := by
      intro id haw
      have haw' : (Function.update w.phase (w.ids + 1) (.numbered bytes) id).awaits = true := haw
      have hne : id ≠ w.ids + 1 := by
        rintro rfl
        rw [hself] at haw'
        cases haw'
      rw [hphase hne] at haw'
      rcases h.sender id haw' with hp | hhand | hf | hc
      · exact .inl hp
      · exact .inr (.inl hhand)
      · rcases hstate with rfl | hempty
        · exact .inr (.inr (.inl hf))
        · rw [hempty] at hf
          cases hf
      · exact .inr (.inr (.inr hc))
    taken := by
      intro id ht
      have ht' : Taken w id := by
        rcases ht with hhand | hf | hc
        · exact .inl hhand
        · rcases hm with rfl | ⟨-, -, a, exited, rfl⟩
          · exact .inr (.inl hf)
          · cases hf
        · exact .inr (.inr hc)
      obtain ⟨hnot, hin⟩ := h.taken id ht'
      refine ⟨hnot, ?_⟩
      show (Function.update w.phase (w.ids + 1) (.numbered bytes) id).entered = true
      rw [hold]
      · exact hin
      · intro hu
        rw [hu] at hin
        cases hin
    callBorn := hborn
    callOnce := by
      intro i j id hi hj
      rcases hids hi with hi' | rfl
      · rcases hids hj with hj' | rfl
        · exact h.callOnce i j id hi' hj'
        · exact hone i j hi hj
      · exact hone i j hi hj
    done := by
      intro i id r hi
      have hend := h.done i id r (hdone hi)
      exact (hold (by rw [hend]; simp)).trans hend
    unsent := fun i r hi => h.unsent i r (hdone hi)
    asked := by
      intro id hid
      rcases hrequest hid with hold' | rfl
      · obtain ⟨hb, hno⟩ := h.asked id hold'
        refine ⟨?_, fun i hi => ?_⟩
        · show Function.update w.phase (w.ids + 1) (.numbered bytes) id ≠ .unborn
          rw [hold hb]
          exact hb
        · rcases hids hi with hi' | rfl
          · exact hno i hi'
          · exact hb hunborn
      · refine ⟨?_, hasked hid⟩
        show Function.update w.phase (w.ids + 1) (.numbered bytes) (w.ids + 1) ≠ .unborn
        rw [hself]
        simp
    owned := by
      intro id hlive
      by_cases hne : id = w.ids + 1
      · subst hne
        exact howned
      · have hlive' : (Function.update w.phase (w.ids + 1) (.numbered bytes) id).live = true := hlive
        rw [hphase hne] at hlive'
        rcases h.owned id hlive' with ⟨i, hi⟩ | hreq
        · left
          rcases hcalls i with heq | ⟨hnone, -⟩
          · exact ⟨i, heq.trans hi⟩
          · rw [hi] at hnone
            cases hnone
        · rcases hm with rfl | ⟨hnone, -, -⟩
          · exact .inr hreq
          · rw [hnone] at hreq
            cases hreq
    closed := by
      intro hc
      rcases hm with rfl | ⟨-, -, a, exited, rfl⟩
      · exact h.closed hc
      · cases hc
    drained := by
      rintro c (hlt | ⟨heq, hd⟩)
      · exact h.drained c (.inl hlt)
      · rcases hm with rfl | ⟨-, -, a, exited, rfl⟩
        · exact h.drained c (.inr ⟨heq, hd⟩)
        · cases hd
    gone := by
      intro hs
      rcases hm with rfl | ⟨-, hopen, -⟩
      · exact h.gone hs
      · rw [h.gone hs] at hopen
        cases hopen
    opened := by
      intro ho
      rcases hm with rfl | ⟨-, -, a, exited, rfl⟩
      · exact h.opened ho
      · cases ho }

/-! ### Writing -/

/-- The write of a request's line starts. -/
theorem lock (h : Inv w) {id bytes c : ℕ} (hphase : w.phase id = .registered bytes) (hholder : w.holder = none)
    (hstdin : w.stdin = some c) : Inv (w.lockStdin id bytes) := by
  have hother {id' : ℕ} (hne : id' ≠ id) :
      Function.update w.phase id (.writing c (bytes + 1)) id' = w.phase id' := Function.update_of_ne hne ..
  have hself : Function.update w.phase id (.writing c (bytes + 1)) id = .writing c (bytes + 1) := Function.update_self ..
  have hnotbegun (c' : ℕ) : id ∉ (w.children c').begun := by
    intro hid
    have := (h.begun c' id hid).1
    rw [hphase] at this
    cases this
  have hopen : w.monitor.closed ≠ true := by
    intro hc
    have := (h.closed hc).1
    rw [hstdin] at this
    cases this
  have hbegun (c' id' : ℕ) : id' ∈ (Function.update w.children c
      { w.children c with begun := (w.children c).begun ++ [id] } c').begun ↔
      id' ∈ (w.children c').begun ∨ (c' = c ∧ id' = id) := by
    by_cases hc : c' = c
    · subst hc
      simp
    · simp [hc]
  have hrest (c' : ℕ) : (Function.update w.children c
      { w.children c with begun := (w.children c).begun ++ [id] } c').received = (w.children c').received ∧
      (Function.update w.children c { w.children c with begun := (w.children c).begun ++ [id] } c').said =
        (w.children c').said ∧
      (Function.update w.children c { w.children c with begun := (w.children c).begun ++ [id] } c').hand =
        (w.children c').hand := by
    by_cases hc : c' = c
    · subst hc
      simp
    · simp [Function.update_of_ne hc]
  have hgrown : Grown w { (w.setPhase id (.writing c (bytes + 1))).setChild c
      { w.children c with begun := (w.children c).begun ++ [id] } with holder := some id } := fun c' =>
    ⟨fun id' hid' => (hrest c').1.symm ▸ hid', fun resp hresp => (hrest c').2.1.symm ▸ hresp⟩
  unfold World.lockStdin
  rw [hstdin]
  exact { h with
    fresh := by
      intro id' hlt
      have hne : id' ≠ id := by
        rintro rfl
        rw [h.fresh id' hlt] at hphase
        cases hphase
      exact (hother hne).trans (h.fresh id' hlt)
    entry := by
      intro id' hid'
      show (Function.update w.phase id (.writing c (bytes + 1)) id').inTable = true
      by_cases hne : id' = id
      · subst hne
        rw [hself]
        rfl
      · rw [hother hne]
        exact h.entry id' hid'
    holder := by
      intro id'
      show some id = some id' ↔ (Function.update w.phase id (.writing c (bytes + 1)) id').isWriting = true
      by_cases hne : id' = id
      · subst hne
        rw [hself]
        simp [Phase.isWriting]
      · rw [hother hne, ← h.holder id', hholder]
        simp [Ne.symm hne]
    writing := by
      intro id' c' rest hid'
      by_cases hne : id' = id
      · subst hne
        cases hself.symm.trans hid'
        refine ⟨h.stdin c hstdin, (hbegun c id').mpr (.inr ⟨rfl, rfl⟩), ?_⟩
        intro hr
        exact hnotbegun c (h.received c id' ((hrest c).1.subst hr))
      · obtain ⟨hlast, hb, hr⟩ := h.writing id' c' rest ((hother hne).symm.trans hid')
        exact ⟨hlast, (hbegun c' id').mpr (.inl hb), fun hr' => hr ((hrest c').1.subst hr')⟩
    begun := by
      intro c' id' hid'
      show (Function.update w.phase id (.writing c (bytes + 1)) id').pastLock = true ∧ c' < w.spawned
      rcases (hbegun c' id').mp hid' with hb | ⟨rfl, rfl⟩
      · have hne : id' ≠ id := by
          rintro rfl
          exact hnotbegun c' hb
        rw [hother hne]
        exact h.begun c' id' hb
      · rw [hself]
        exact ⟨rfl, Nat.lt_of_succ_le (h.stdin c' hstdin).le⟩
    nodup := by
      intro c'
      show (Function.update w.children c { w.children c with begun := (w.children c).begun ++ [id] } c').begun.Nodup
      by_cases hc : c' = c
      · subst hc
        rw [Function.update_self]
        exact List.nodup_append.mpr ⟨h.nodup c', List.nodup_singleton id, by
          rintro a ha b hb rfl
          rw [List.mem_singleton] at hb
          subst hb
          exact hnotbegun c' ha⟩
      · rw [Function.update_of_ne hc]
        exact h.nodup c'
    single := by
      intro c' c'' id' hid' hid''
      rcases (hbegun c' id').mp hid' with hb | ⟨rfl, rfl⟩
      · rcases (hbegun c'' id').mp hid'' with hb' | ⟨rfl, rfl⟩
        · exact h.single c' c'' id' hb hb'
        · exact absurd hb (hnotbegun c')
      · rcases (hbegun c'' id').mp hid'' with hb' | ⟨rfl, -⟩
        · exact absurd hb' (hnotbegun c'')
        · rfl
    received := fun c' id' hid' => (hbegun c' id').mpr (.inl (h.received c' id' ((hrest c').1.subst hid')))
    said := by
      intro c' resp hresp
      show resp.id ∈ (Function.update w.children c _ c').received
      rw [(hrest c').1]
      exact h.said c' resp ((hrest c').2.1.subst hresp)
    hand := fun c' id' r hid' => hgrown.answered (h.hand c' id' r ((hrest c').2.2.symm.trans hid'))
    channel := fun id' r hid' => hgrown.sent (h.channel id' r hid')
    ended := by
      intro id' r hid'
      by_cases hne : id' = id
      · subst hne
        cases hself.symm.trans hid'
      · exact hgrown.outcome (h.ended id' r ((hother hne).symm.trans hid'))
    sender := by
      intro id' haw
      have hold : (w.phase id').awaits = true := by
        by_cases hne : id' = id
        · rw [hne, hphase]
          rfl
        · rw [← hother hne]
          exact haw
      rcases h.sender id' hold with hp | ⟨c', r, hhand⟩ | hf | hc
      · exact .inl hp
      · exact .inr (.inl ⟨c', r, (hrest c').2.2.trans hhand⟩)
      · exact .inr (.inr (.inl hf))
      · exact .inr (.inr (.inr hc))
    taken := by
      intro id' ht
      have ht' : Taken w id' := by
        rcases ht with ⟨c', r, hhand⟩ | hf | hc
        · exact .inl ⟨c', r, (hrest c').2.2.symm.trans hhand⟩
        · exact .inr (.inl hf)
        · exact .inr (.inr hc)
      obtain ⟨hnot, hin⟩ := h.taken id' ht'
      refine ⟨hnot, ?_⟩
      show (Function.update w.phase id (.writing c (bytes + 1)) id').entered = true
      by_cases hne : id' = id
      · subst hne
        rw [hself]
        rfl
      · rw [hother hne]
        exact hin
    callBorn := by
      intro i id' hi
      show Function.update w.phase id (.writing c (bytes + 1)) id' ≠ .unborn
      by_cases hne : id' = id
      · subst hne
        rw [hself]
        simp
      · rw [hother hne]
        exact h.callBorn i id' hi
    done := by
      intro i id' r hi
      have hend := h.done i id' r hi
      have hne : id' ≠ id := by
        rintro rfl
        rw [hphase] at hend
        cases hend
      exact (hother hne).trans hend
    asked := by
      intro id' hreq
      refine ⟨?_, (h.asked id' hreq).2⟩
      show Function.update w.phase id (.writing c (bytes + 1)) id' ≠ .unborn
      by_cases hne : id' = id
      · subst hne
        rw [hself]
        simp
      · rw [hother hne]
        exact (h.asked id' hreq).1
    owned := by
      intro id' hl
      by_cases hne : id' = id
      · subst hne
        apply h.owned id'
        rw [hphase]
        rfl
      · apply h.owned id'
        rw [← hother hne]
        exact hl
    closed := fun hc => absurd hc hopen
    drained := by
      intro c' hd id' hid' hp
      rcases (hbegun c' id').mp hid' with hb | ⟨rfl, rfl⟩
      · exact h.drained c' hd id' hb hp
      · rcases hd with hlt | ⟨-, hdr⟩
        · exact absurd (h.stdin c' hstdin) hlt.ne
        · apply hopen
          show w.monitor.closed = true
          revert hdr
          show w.monitor.drained = true → _
          cases w.monitor <;> simp [MonitorPc.drained, MonitorPc.closed] }

/-- Some of the line is written, or all of it, or the write fails. -/
theorem write (h : Inv w) {id c rest : ℕ} {p : Phase} {child : Child} {holder : Option ℕ}
    (hphase : w.phase id = .writing c rest) (htable : p.inTable = true) (hpast : p.pastLock = true)
    (hholder : holder = if p.isWriting then some id else none) (hsame : ∀ c' rest', p = .writing c' rest' → c' = c)
    (hbegun : child.begun = (w.children c).begun) (hsaid : child.said = (w.children c).said)
    (hhand : child.hand = (w.children c).hand)
    (hreceived : child.received = (w.children c).received ∨
      (p.isWriting = false ∧ child.received = (w.children c).received ++ [id])) :
    Inv { (w.setPhase id p).setChild c child with holder } := by
  have hother {id' : ℕ} (hne : id' ≠ id) : Function.update w.phase id p id' = w.phase id' := Function.update_of_ne hne ..
  have hself : Function.update w.phase id p id = p := Function.update_self ..
  obtain ⟨hlast, hin, hnot⟩ := h.writing id c rest hphase
  have hrest (c' : ℕ) : (Function.update w.children c child c').begun = (w.children c').begun ∧
      (Function.update w.children c child c').said = (w.children c').said ∧
      (Function.update w.children c child c').hand = (w.children c').hand := by
    by_cases hc : c' = c
    · subst hc
      rw [Function.update_self]
      exact ⟨hbegun, hsaid, hhand⟩
    · rw [Function.update_of_ne hc]
      exact ⟨rfl, rfl, rfl⟩
  have hkept (c' : ℕ) : ∀ id' ∈ (w.children c').received, id' ∈ (Function.update w.children c child c').received := by
    intro id' hid'
    by_cases hc : c' = c
    · subst hc
      rw [Function.update_self]
      rcases hreceived with heq | ⟨-, heq⟩
      · rw [heq]
        exact hid'
      · rw [heq]
        exact List.mem_append_left _ hid'
    · rw [Function.update_of_ne hc]
      exact hid'
  have hgrown (c' : ℕ) : ∀ id' ∈ (Function.update w.children c child c').received,
      id' ∈ (w.children c').received ∨ (c' = c ∧ id' = id ∧ p.isWriting = false) := by
    intro id' hid'
    by_cases hc : c' = c
    · subst hc
      rw [Function.update_self] at hid'
      rcases hreceived with heq | ⟨hp, heq⟩
      · rw [heq] at hid'
        exact .inl hid'
      · rw [heq, List.mem_append, List.mem_singleton] at hid'
        exact hid'.imp (fun hold => hold) fun h' => ⟨rfl, h', hp⟩
    · rw [Function.update_of_ne hc] at hid'
      exact .inl hid'
  have hgrown' : Grown w { (w.setPhase id p).setChild c child with holder } := fun c' =>
    ⟨hkept c', fun resp hresp => (hrest c').2.1.symm ▸ hresp⟩
  have hheld : w.holder = some id := by
    rw [h.holder, hphase]
    rfl
  exact { h with
    fresh := by
      intro id' hlt
      have hne : id' ≠ id := by
        rintro rfl
        rw [h.fresh id' hlt] at hphase
        cases hphase
      exact (hother hne).trans (h.fresh id' hlt)
    entry := by
      intro id' hid'
      show (Function.update w.phase id p id').inTable = true
      by_cases hne : id' = id
      · subst hne
        rw [hself]
        exact htable
      · rw [hother hne]
        exact h.entry id' hid'
    holder := by
      intro id'
      show holder = some id' ↔ (Function.update w.phase id p id').isWriting = true
      by_cases hne : id' = id
      · subst hne
        rw [hself, hholder]
        cases p.isWriting <;> simp
      · rw [hother hne, ← h.holder id', hheld, hholder]
        cases p.isWriting <;> simp [Ne.symm hne]
    writing := by
      intro id' c' rest' hid'
      by_cases hne : id' = id
      · subst hne
        have hp : p = .writing c' rest' := hself.symm.trans hid'
        obtain rfl := hsame c' rest' hp
        refine ⟨hlast, (hrest c').1.symm ▸ hin, ?_⟩
        intro hr
        rcases hgrown c' id' hr with hold | ⟨-, -, hw⟩
        · exact hnot hold
        · rw [hp] at hw
          cases hw
      · obtain ⟨hl, hb, hr⟩ := h.writing id' c' rest' ((hother hne).symm.trans hid')
        refine ⟨hl, (hrest c').1.symm ▸ hb, fun hr' => ?_⟩
        rcases hgrown c' id' hr' with hold | ⟨-, heq, -⟩
        · exact hr hold
        · exact hne heq
    begun := by
      intro c' id' hid'
      show (Function.update w.phase id p id').pastLock = true ∧ c' < w.spawned
      obtain ⟨hb, hlt⟩ := h.begun c' id' ((hrest c').1.subst hid')
      refine ⟨?_, hlt⟩
      by_cases hne : id' = id
      · subst hne
        rw [hself]
        exact hpast
      · rw [hother hne]
        exact hb
    nodup := fun c' => (hrest c').1.symm ▸ h.nodup c'
    single := fun c' c'' id' hid' hid'' =>
      h.single c' c'' id' ((hrest c').1.subst hid') ((hrest c'').1.subst hid'')
    received := by
      intro c' id' hid'
      show id' ∈ (Function.update w.children c child c').begun
      rw [(hrest c').1]
      rcases hgrown c' id' hid' with hold | ⟨rfl, rfl, -⟩
      · exact h.received c' id' hold
      · exact hin
    said := fun c' resp hresp => hkept c' _ (h.said c' resp ((hrest c').2.1.subst hresp))
    hand := fun c' id' r hid' => hgrown'.answered (h.hand c' id' r ((hrest c').2.2.symm.trans hid'))
    channel := fun id' r hid' => hgrown'.sent (h.channel id' r hid')
    ended := by
      intro id' r hid'
      by_cases hne : id' = id
      · subst hne
        rw [show p = .ended r from hself.symm.trans hid'] at htable
        cases htable
      · exact hgrown'.outcome (h.ended id' r ((hother hne).symm.trans hid'))
    sender := by
      intro id' haw
      have hold : (w.phase id').awaits = true := by
        by_cases hne : id' = id
        · rw [hne, hphase]
          rfl
        · rw [← hother hne]
          exact haw
      rcases h.sender id' hold with hp | ⟨c', r, hh⟩ | hf | hc
      · exact .inl hp
      · exact .inr (.inl ⟨c', r, (hrest c').2.2.trans hh⟩)
      · exact .inr (.inr (.inl hf))
      · exact .inr (.inr (.inr hc))
    taken := by
      intro id' ht
      have ht' : Taken w id' := by
        rcases ht with ⟨c', r, hh⟩ | hf | hc
        · exact .inl ⟨c', r, (hrest c').2.2.symm.trans hh⟩
        · exact .inr (.inl hf)
        · exact .inr (.inr hc)
      obtain ⟨hnot, hin⟩ := h.taken id' ht'
      refine ⟨hnot, ?_⟩
      show (Function.update w.phase id p id').entered = true
      by_cases hne : id' = id
      · subst hne
        rw [hself]
        revert htable
        cases p <;> simp [Phase.inTable, Phase.entered]
      · rw [hother hne]
        exact hin
    callBorn := by
      intro i id' hi
      show Function.update w.phase id p id' ≠ .unborn
      by_cases hne : id' = id
      · subst hne
        rw [hself]
        rintro rfl
        cases htable
      · rw [hother hne]
        exact h.callBorn i id' hi
    done := by
      intro i id' r hi
      have hend := h.done i id' r hi
      have hne : id' ≠ id := by
        rintro rfl
        rw [hphase] at hend
        cases hend
      exact (hother hne).trans hend
    asked := by
      intro id' hreq
      refine ⟨?_, (h.asked id' hreq).2⟩
      show Function.update w.phase id p id' ≠ .unborn
      by_cases hne : id' = id
      · subst hne
        rw [hself]
        rintro rfl
        cases htable
      · rw [hother hne]
        exact (h.asked id' hreq).1
    owned := by
      intro id' hl
      by_cases hne : id' = id
      · subst hne
        apply h.owned id'
        rw [hphase]
        rfl
      · apply h.owned id'
        rw [← hother hne]
        exact hl
    closed := by
      intro hc
      have := (h.closed hc).2
      rw [hheld] at this
      cases this
    drained := fun c' hd id' hid' hp => h.drained c' hd id' ((hrest c').1.subst hid') hp }

/-! ### The monitor and the children -/

/-- The monitor takes all senders out of the table. -/
theorem drain (h : Inv w) {requested : Bool} {desc : Option String} (hm : w.monitor = .draining requested desc) :
    Inv { w with pending := ∅, monitor := .failing requested desc w.pending } :=
  { h with
    entry := by simp
    sender := by
      intro id haw
      rcases h.sender id haw with hp | hhand | hf | hc
      · exact .inr (.inr (.inl hp))
      · exact .inr (.inl hhand)
      · rw [hm] at hf
        cases hf
      · exact .inr (.inr (.inr hc))
    taken := by
      intro id ht
      refine ⟨Finset.notMem_empty id, ?_⟩
      rcases ht with hhand | hf | hc
      · exact (h.taken id (.inl hhand)).2
      · have hin := h.entry id hf
        revert hin
        show (w.phase id).inTable = true → (w.phase id).entered = true
        cases w.phase id <;> simp [Phase.inTable, Phase.entered]
      · exact (h.taken id (.inr (.inr hc))).2
    asked := by
      intro id hid
      cases hid
    owned := by
      intro id hlive
      rcases h.owned id hlive with hcall | hreq
      · exact .inl hcall
      · rw [hm] at hreq
        cases hreq
    closed := by
      intro _
      apply h.closed
      rw [hm]
      rfl
    drained := by simp
    gone := by
      intro hs
      have := h.gone hs
      rw [hm] at this
      cases this
    opened := by
      intro ho
      cases ho }

/-- The monitor tells one sender that the child is gone. -/
theorem fail (h : Inv w) {requested : Bool} {desc : Option String} {ids : Finset ℕ} {id : ℕ} {why : String}
    (hm : w.monitor = .failing requested desc ids) (hin : id ∈ ids) :
    Inv { w with
      channel := Function.update w.channel id (some (.error (.crashed why)))
      monitor := .failing requested desc (ids.erase id) } :=
  { h with
    channel := by
      intro id' r hid'
      by_cases hne : id' = id
      · subst hne
        cases (Function.update_self ..).symm.trans hid'
        exact .inl ⟨why, rfl⟩
      · exact h.channel id' r ((Function.update_of_ne hne ..).symm.trans hid')
    sender := by
      intro id' haw
      by_cases hne : id' = id
      · subst hne
        refine .inr (.inr (.inr ?_))
        show (Function.update w.channel id' _ id').isSome = true
        rw [Function.update_self]
        rfl
      · rcases h.sender id' haw with hp | hhand | hf | hc
        · exact .inl hp
        · exact .inr (.inl hhand)
        · rw [hm] at hf
          exact .inr (.inr (.inl (Finset.mem_erase.mpr ⟨hne, hf⟩)))
        · refine .inr (.inr (.inr ?_))
          show (Function.update w.channel id _ id').isSome = true
          rw [Function.update_of_ne hne]
          exact hc
    taken := by
      intro id' ht
      apply h.taken id'
      by_cases hne : id' = id
      · subst hne
        refine .inr (.inl ?_)
        rw [hm]
        exact hin
      · rcases ht with hhand | hf | hc
        · exact .inl hhand
        · refine .inr (.inl ?_)
          rw [hm]
          exact Finset.mem_of_mem_erase hf
        · refine .inr (.inr ?_)
          have hc' : (Function.update w.channel id _ id').isSome = true := hc
          rw [Function.update_of_ne hne] at hc'
          exact hc'
    asked := by
      intro id' hid'
      cases hid'
    owned := by
      intro id' hlive
      rcases h.owned id' hlive with hcall | hreq
      · exact .inl hcall
      · rw [hm] at hreq
        cases hreq
    closed := by
      intro _
      apply h.closed
      rw [hm]
      rfl
    drained := by
      rintro c (hlt | ⟨heq, -⟩)
      · exact h.drained c (.inl hlt)
      · exact h.drained c (.inr ⟨heq, by rw [hm]; rfl⟩)
    gone := by
      intro hs
      have := h.gone hs
      rw [hm] at this
      cases this
    opened := by
      intro ho
      cases ho }

/-- The handle is changed: it becomes the input of the child just spawned, or nothing. -/
theorem handle (h : Inv w) {stdin : Option ℕ} (hstdin : ∀ c, stdin = some c → c + 1 = w.spawned)
    (hclosed : w.monitor.closed = true → stdin = none) : Inv { w with stdin } :=
  { h with
    stdin := hstdin
    closed := fun hc => ⟨hclosed hc, (h.closed hc).2⟩ }

/-- The monitor leaves a child whose input is closed. -/
theorem leave (h : Inv w) {requested : Bool} (hm : w.monitor = .leaving requested) (hholder : w.holder = none) :
    Inv { w with stdin := none, monitor := .reaping requested } :=
  { h with
    sender := by
      intro id haw
      rcases h.sender id haw with hp | hhand | hf | hc
      · exact .inl hp
      · exact .inr (.inl hhand)
      · rw [hm] at hf
        cases hf
      · exact .inr (.inr (.inr hc))
    taken := by
      intro id ht
      apply h.taken id
      rcases ht with hhand | hf | hc
      · exact .inl hhand
      · cases hf
      · exact .inr (.inr hc)
    asked := by
      intro id hid
      cases hid
    owned := by
      intro id hlive
      rcases h.owned id hlive with hcall | hreq
      · exact .inl hcall
      · rw [hm] at hreq
        cases hreq
    stdin := by
      intro c hc
      cases hc
    closed := fun _ => ⟨rfl, hholder⟩
    drained := by
      rintro c (hlt | ⟨-, hd⟩)
      · exact h.drained c (.inl hlt)
      · cases hd
    gone := by
      intro hs
      have := h.gone hs
      rw [hm] at this
      cases this
    opened := by
      intro ho
      cases ho }

/-- A new child. -/
theorem spawn (h : Inv w) (hm : w.monitor = .spawning) :
    Inv { w.setChild w.spawned .new with spawned := w.spawned + 1, monitor := .opening } := by
  have hbegun (c : ℕ) : (Function.update w.children w.spawned .new c).begun = (w.children c).begun := by
    by_cases hc : c = w.spawned
    · subst hc
      rw [Function.update_self]
      symm
      apply List.eq_nil_iff_forall_not_mem.mpr
      intro id hid
      exact absurd (h.begun w.spawned id hid).2 (lt_irrefl _)
    · rw [Function.update_of_ne hc]
  have hreceived (c : ℕ) : (Function.update w.children w.spawned .new c).received = (w.children c).received := by
    by_cases hc : c = w.spawned
    · subst hc
      rw [Function.update_self]
      symm
      apply List.eq_nil_iff_forall_not_mem.mpr
      intro id hid
      exact absurd (h.begun w.spawned id (h.received w.spawned id hid)).2 (lt_irrefl _)
    · rw [Function.update_of_ne hc]
  have hsaid (c : ℕ) : (Function.update w.children w.spawned .new c).said = (w.children c).said := by
    by_cases hc : c = w.spawned
    · subst hc
      rw [Function.update_self]
      symm
      apply List.eq_nil_iff_forall_not_mem.mpr
      intro resp hresp
      exact absurd (h.begun w.spawned _ (h.received w.spawned _ (h.said w.spawned resp hresp))).2 (lt_irrefl _)
    · rw [Function.update_of_ne hc]
  have hhand (c : ℕ) : (Function.update w.children w.spawned .new c).hand = (w.children c).hand := by
    by_cases hc : c = w.spawned
    · subst hc
      rw [Function.update_self]
      symm
      apply Option.eq_none_iff_forall_ne_some.mpr
      rintro ⟨id, r⟩ hid
      obtain ⟨hin, -⟩ := h.hand w.spawned id r hid
      exact absurd (h.begun w.spawned _ (h.received w.spawned _ hin)).2 (lt_irrefl _)
    · rw [Function.update_of_ne hc]
  have hgrown : Grown w { w.setChild w.spawned .new with spawned := w.spawned + 1, monitor := .opening } := fun c =>
    ⟨fun id hid => (hreceived c).symm ▸ hid, fun resp hresp => (hsaid c).symm ▸ hresp⟩
  obtain ⟨hstdin, hholder⟩ := h.closed (by rw [hm]; rfl)
  exact { h with
    writing := by
      intro id c rest hid
      have : w.holder = some id := by
        rw [h.holder, show w.phase id = _ from hid]
        rfl
      rw [hholder] at this
      cases this
    begun := by
      intro c id hid
      obtain ⟨hp, hlt⟩ := h.begun c id ((hbegun c).subst hid)
      exact ⟨hp, Nat.lt_succ_of_lt hlt⟩
    nodup := fun c => (hbegun c).symm ▸ h.nodup c
    single := fun c c' id hid hid' => h.single c c' id ((hbegun c).subst hid) ((hbegun c').subst hid')
    received := fun c id hid => (hbegun c).symm ▸ h.received c id ((hreceived c).subst hid)
    said := fun c resp hresp => (hreceived c).symm ▸ h.said c resp ((hsaid c).subst hresp)
    hand := fun c id r hid => hgrown.answered (h.hand c id r ((hhand c).symm.trans hid))
    channel := fun id r hid => hgrown.sent (h.channel id r hid)
    ended := fun id r hid => hgrown.outcome (h.ended id r hid)
    sender := by
      intro id haw
      rcases h.sender id haw with hp | ⟨c, r, hid⟩ | hf | hc
      · exact .inl hp
      · exact .inr (.inl ⟨c, r, (hhand c).trans hid⟩)
      · rw [hm] at hf
        cases hf
      · exact .inr (.inr (.inr hc))
    taken := by
      intro id ht
      apply h.taken id
      rcases ht with ⟨c, r, hid⟩ | hf | hc
      · exact .inl ⟨c, r, (hhand c).symm.trans hid⟩
      · cases hf
      · exact .inr (.inr hc)
    asked := by
      intro id hid
      cases hid
    owned := by
      intro id hlive
      rcases h.owned id hlive with hcall | hreq
      · exact .inl hcall
      · rw [hm] at hreq
        cases hreq
    stdin := by
      intro c hc
      rw [show w.stdin = some c from hc] at hstdin
      cases hstdin
    closed := fun _ => ⟨hstdin, hholder⟩
    drained := by
      rintro c (hlt | ⟨-, hd⟩) id hid
      · have hid' : id ∈ (w.children c).begun := (hbegun c).subst hid
        have hlt' : c + 1 < w.spawned + 1 := hlt
        rcases Nat.lt_or_eq_of_le (Nat.lt_succ_iff.mp hlt') with hbefore | hlast
        · exact h.drained c (.inl hbefore) id hid'
        · exact h.drained c (.inr ⟨hlast, by rw [hm]; rfl⟩) id hid'
      · cases hd
    gone := by
      intro hs
      have := h.gone hs
      rw [hm] at this
      cases this
    opened := fun _ => Nat.succ_ne_zero _ }

/-! ### Steps of the monitor -/

theorem onward (h : Inv w) {m : MonitorPc} (hm : w.monitor.Onward m) (lastError : Option String) (recent : ℕ) :
    Inv { w with monitor := m, lastError, recent } := by
  obtain ⟨hlive, hrequest, hfail, hnew, hopened, hclosed, hdrained⟩ := hm
  apply h.move
  · intro id hid
    rw [hrequest] at hid
    cases hid
  · intro id hid
    rw [hnew] at hid
    cases hid
  · exact hfail
  · exact hclosed
  · exact hdrained
  · exact fun hs => absurd (h.gone hs) hlive
  · exact hopened

theorem goto (h : Inv w) {m : MonitorPc} (hm : w.monitor.Onward m) : Inv (w.goto m) := h.onward hm _ _

/-- A request of the monitor has ended. -/
theorem afterAsk (h : Inv w) {a : Ask} {id : ℕ} {exited : Bool} (hm : w.monitor = .asked a id exited)
    (hend : (w.phase id).live = false) (p : Ping) : Inv (w.afterAsk a p) := by
  have hnot : ¬ (w.state = .failed ∨ w.state = .stopped) := by
    intro hs
    have := h.gone hs
    rw [hm] at this
    cases this
  have hrequest (id' : ℕ) (hid : w.monitor.request? = some id') : (w.phase id').live = false := by
    rw [hm] at hid
    cases hid
    exact hend
  unfold World.afterAsk
  split
  · apply h.move
    · exact fun id' hid => .inr (hrequest id' hid)
    · rintro id' hid
      cases hid
    · simp [hm]
    · rintro hc
      cases hc
    · rintro hd
      cases hd
    · exact fun hs => absurd hs hnot
    · simp
  · apply h.move
    · exact fun id' hid => .inr (hrequest id' hid)
    · rintro id' hid
      cases hid
    · simp [hm]
    · rintro hc
      cases hc
    · rintro hd
      cases hd
    · exact fun hs => absurd hs hnot
    · simp

/-- The monitor begins a request. -/
theorem ask (h : Inv w) {a : Ask} (hm : w.monitor = .asking a) : Inv (w.ask a) := by
  unfold World.ask
  rcases w.begin_cases a.method (.ok 4) with ⟨e, heq, -⟩ | ⟨bytes, heq⟩
  · rw [heq]
    show Inv (World.afterAsk { w with ids := w.ids + 1 } a .missed)
    unfold World.afterAsk
    split
    · apply h.skip.goto
      simp [MonitorPc.Onward, hm]
    · apply h.skip.goto
      simp [MonitorPc.Onward, hm]
  · rw [heq]
    have hnone (i : ℕ) : (w.calls i).id? ≠ some (w.ids + 1) :=
      fun hi => h.callBorn i _ hi (h.fresh _ (Nat.lt_succ_self _))
    refine h.number (fun i => .inl rfl) ?_ (.inr ⟨?_, ?_, a, false, rfl⟩) (.inr ?_) (fun _ => hnone) (.inr rfl)
    · exact fun i _ hi => absurd hi (hnone i)
    · rw [hm]
      rfl
    · rw [hm]
      rfl
    · rw [hm]
      rfl

/-- The monitor in a request. -/
theorem inAsk (h : Inv w) {a : Ask} {id : ℕ} {exited : Bool} (hm : w.monitor = .asked a id exited) :
    Inv (w.asked a id exited) := by
  unfold World.asked
  split
  · rename_i hp
    exact h.afterAsk hm (by rw [hp]; rfl) _
  · rename_i hp
    exact h.afterAsk hm (by rw [hp]; rfl) _
  · rename_i hp
    split_ifs with hexit
    · -- the ping is over because the child has exited
      have hexp : Inv { w.setPhase id .expired with pending := w.pending } := by
        apply h.advance
        · rw [hp]
          rfl
        · simp
        · rw [hp]
          rfl
        · rfl
        · simp
        · exact fun hid => ⟨rfl, .inl hid⟩
        · rfl
        · simp [Phase.pastLock]
        · simp
        · simp [Phase.awaits]
      apply hexp.move
      · intro id' hid
        rw [show (World.setPhase w id .expired).monitor = _ from hm] at hid
        cases hid
        exact .inl rfl
      · intro id' hid
        rw [show (World.setPhase w id .expired).monitor = _ from hm]
        exact hid
      · rw [show (World.setPhase w id .expired).monitor = _ from hm]
        rfl
      · intro hc
        cases hc
      · intro hd
        cases hd
      · intro hs
        have := h.gone hs
        rw [hm] at this
        cases this
      · simp
    · exact h
  · exact h

/-- A sender stays where it is when a child changes, but not its reader's hand. -/
theorem taken_setChild {c : ℕ} {child : Child} (hhand : child.hand = (w.children c).hand) {id : ℕ} :
    Taken (w.setChild c child) id ↔ Taken w id := by
  have hsame (c' : ℕ) : (Function.update w.children c child c').hand = (w.children c').hand := by
    by_cases hc : c' = c
    · subst hc
      rw [Function.update_self, hhand]
    · rw [Function.update_of_ne hc]
  constructor
  · rintro (⟨c', r, hid⟩ | hf | hc)
    · exact .inl ⟨c', r, (hsame c').symm.trans hid⟩
    · exact .inr (.inl hf)
    · exact .inr (.inr hc)
  · rintro (⟨c', r, hid⟩ | hf | hc)
    · exact .inl ⟨c', r, (hsame c').trans hid⟩
    · exact .inr (.inl hf)
    · exact .inr (.inr hc)

/-- A child writes lines, or changes otherwise, but not what it was sent, nor its reader's hand. -/
theorem setChild (h : Inv w) {c : ℕ} {child : Child} (hbegun : child.begun = (w.children c).begun)
    (hreceived : child.received = (w.children c).received) (hsaid : ∀ resp ∈ (w.children c).said, resp ∈ child.said)
    (hnew : ∀ resp ∈ child.said, resp.id ∈ (w.children c).received)
    (hhand : child.hand = (w.children c).hand) : Inv (w.setChild c child) := by
  have hchild : Inv { w.setChild c child with pending := w.pending, channel := w.channel } := by
    apply h.child hbegun hreceived hsaid hnew
    · intro id r hid
      rw [hhand] at hid
      exact h.hand c id r hid
    · exact Finset.Subset.refl _
    · exact h.channel
    · exact fun id ht => ht.imp (fun hp => hp) (taken_setChild hhand).mpr
    · exact fun id ht => h.taken id ((taken_setChild hhand).mp ht)
  exact hchild

/-- The child is killed. -/
theorem kill (h : Inv w) {requested : Bool} (hm : w.monitor = .killing requested) : Inv (w.kill requested) := by
  have hdead : Inv (w.setChild (w.spawned - 1) { w.current with
      exited := some (w.current.exited.getD (.signal 9)) }) :=
    h.setChild rfl rfl (fun _ hresp => hresp) (h.said _) rfl
  apply hdead.goto
  show w.monitor.Onward _
  simp [MonitorPc.Onward, hm]

/-- After a ping. -/
theorem pinged (h : Inv w) {a : Ask} {p : Ping} (hm : w.monitor = .pinged a p) : Inv (w.pinged policy a p) := by
  have hnot : ¬ (w.state = .failed ∨ w.state = .stopped) := by
    intro hs
    have := h.gone hs
    rw [hm] at this
    cases this
  unfold World.pinged
  split
  · apply h.goto
    simp [MonitorPc.Onward, hm]
  · apply h.move <;> simp [hm]
  · apply h.goto
    split <;> simp [MonitorPc.Onward, hm]
  · apply h.goto
    simp [MonitorPc.Onward, hm]
  · apply h.goto
    split <;> simp [MonitorPc.Onward, hm]
  · apply h.goto
    simp [MonitorPc.Onward, hm]

/-- A restart, or none. -/
theorem restart (h : Inv w) {desc : Option String} (hm : w.monitor = .restarting desc) (old : ℕ) :
    Inv (w.restart policy desc old) := by
  unfold World.restart
  split_ifs with hmany
  · apply h.move <;> simp [hm]
  · apply h.move <;> simp [hm]

theorem step (h : Inv w) (m : Move) : Inv (w.step policy m) := by
  unfold World.step
  split
  case h_1 hm =>
    apply h.goto
    split <;> simp [MonitorPc.Onward, hm]
  case h_2 hm => apply h.move <;> simp [hm]
  case h_3 hm => apply h.move <;> simp [hm]
  case h_4 hm =>
    apply h.onward
    simp [MonitorPc.Onward, hm]
  case h_5 hm => exact h.spawn hm
  case h_6 hm =>
    split_ifs with hholder
    · have hopen : Inv (w.goto (.asking .startup)) := by
        apply h.goto
        simp [MonitorPc.Onward, hm]
      apply hopen.handle
      · intro c hc
        cases hc
        exact Nat.sub_add_cancel (Nat.pos_of_ne_zero (h.opened hm))
      · intro hc
        cases hc
    · exact h
  case h_7 a hm => exact h.ask hm
  case h_8 a id exited hm => exact h.inAsk hm
  case h_9 a p hm => exact h.pinged hm
  case h_10 hm =>
    split_ifs with hexit
    · apply h.goto
      simp [MonitorPc.Onward, hm]
    · apply h.onward
      simp [MonitorPc.Onward, hm]
  case h_11 misses hm =>
    apply h.goto
    split <;> simp [MonitorPc.Onward, hm]
  case h_12 misses hm =>
    apply h.goto
    simp [MonitorPc.Onward, hm]
  case h_13 misses hm =>
    apply h.goto
    split <;> simp [MonitorPc.Onward, hm]
  case h_14 misses hm =>
    split_ifs with hstop
    · apply h.goto
      simp [MonitorPc.Onward, hm]
    · exact h
  case h_15 misses hm =>
    apply h.goto
    simp [MonitorPc.Onward, hm]
  case h_16 misses hm =>
    apply h.goto
    simp [MonitorPc.Onward, hm]
  case h_17 misses hm =>
    split_ifs with hexit
    · apply h.goto
      simp [MonitorPc.Onward, hm]
    · apply h.onward
      simp [MonitorPc.Onward, hm]
  case h_18 requested hm => exact h.kill hm
  case h_19 hm =>
    split_ifs with hholder
    · have hclosing : Inv { w with stdin := none } := by
        apply h.handle
        · intro c hc
          cases hc
        · exact fun _ => rfl
      apply hclosing.onward
      simp [MonitorPc.Onward, hm]
    · exact h
  case h_20 hm =>
    split_ifs with hexit
    · apply h.goto
      simp [MonitorPc.Onward, hm]
    · exact h
  case h_21 hm =>
    apply h.goto
    split <;> simp [MonitorPc.Onward, hm]
  case h_22 hm =>
    apply h.goto
    simp [MonitorPc.Onward, hm]
  case h_23 requested hm =>
    split_ifs with hholder
    · exact h.leave hm hholder
    · exact h
  case h_24 requested hm =>
    apply h.goto
    simp [MonitorPc.Onward, hm]
  case h_25 requested desc hm => exact h.drain hm
  case h_26 requested desc ids id hm =>
    split_ifs with hin
    · exact h.fail hm hin
    · exact h
  case h_27 requested desc ids hm =>
    split_ifs with hempty
    · subst hempty
      apply h.goto
      simp [MonitorPc.Onward, hm]
    · exact h
  case h_28 requested desc hm =>
    apply h.goto
    split <;> simp [MonitorPc.Onward, hm]
  case h_29 desc old hm => exact h.restart hm old
  case h_30 hm =>
    split_ifs with hstop
    · apply h.goto
      simp [MonitorPc.Onward, hm]
    · exact h
  case h_31 hm =>
    apply h.goto
    split <;> simp [MonitorPc.Onward, hm]
  case h_32 => exact h

/-! ### Steps of anyone -/

/-- A reader takes the sender of the line it read. -/
theorem take (h : Inv w) {c : ℕ} {resp : Response} (hnone : (w.children c).hand = none)
    (hsaid : resp ∈ (w.children c).said) :
    Inv { w.setChild c { w.children c with
        heard := (w.children c).heard + 1
        hand := if resp.id ∈ w.pending then some (resp.id, resp.reply) else none } with
      pending := w.pending.erase resp.id } := by
  have htake : Inv { w.setChild c { w.children c with
        heard := (w.children c).heard + 1
        hand := if resp.id ∈ w.pending then some (resp.id, resp.reply) else none } with
      pending := w.pending.erase resp.id, channel := w.channel } := by
    apply h.child
    · rfl
    · rfl
    · exact fun _ hresp => hresp
    · exact h.said c
    · intro id r hid
      have hid' : (if resp.id ∈ w.pending then some (resp.id, resp.reply) else none) = some (id, r) := hid
      split_ifs at hid' with hp
      cases hid'
      exact ⟨h.said c resp hsaid, resp, hsaid, rfl, rfl⟩
    · exact Finset.erase_subset _ _
    · exact h.channel
    · rintro id (hp | ⟨c', r, hid⟩ | hf | hc)
      · by_cases hid : id = resp.id
        · subst hid
          refine .inr (.inl ⟨c, resp.reply, ?_⟩)
          show (Function.update w.children c _ c).hand = _
          rw [Function.update_self]
          exact if_pos hp
        · exact .inl (Finset.mem_erase.mpr ⟨hid, hp⟩)
      · have hne : c' ≠ c := by
          rintro rfl
          rw [hnone] at hid
          cases hid
        refine .inr (.inl ⟨c', r, ?_⟩)
        show (Function.update w.children c _ c').hand = _
        rw [Function.update_of_ne hne]
        exact hid
      · exact .inr (.inr (.inl hf))
      · exact .inr (.inr (.inr hc))
    · intro id ht
      have hold : Taken w id → id ∉ w.pending.erase resp.id ∧ (w.phase id).entered = true := fun ht' =>
        ⟨fun hp => (h.taken id ht').1 (Finset.mem_of_mem_erase hp), (h.taken id ht').2⟩
      rcases ht with ⟨c', r, hid⟩ | hf | hc
      · have hid' : (Function.update w.children c { w.children c with
            heard := (w.children c).heard + 1
            hand := if resp.id ∈ w.pending then some (resp.id, resp.reply) else none } c').hand = some (id, r) := hid
        by_cases hc : c' = c
        · subst hc
          rw [Function.update_self] at hid'
          dsimp only at hid'
          split_ifs at hid' with hp
          cases hid'
          refine ⟨Finset.notMem_erase _ _, ?_⟩
          have hin := h.entry resp.id hp
          revert hin
          cases w.phase resp.id <;> simp [Phase.inTable, Phase.entered]
        · rw [Function.update_of_ne hc] at hid'
          exact hold (.inl ⟨c', r, hid'⟩)
      · exact hold (.inr (.inl hf))
      · exact hold (.inr (.inr hc))
  exact htake

/-- A reader passes an answer on. -/
theorem give (h : Inv w) {c id : ℕ} {reply : Reply} (hhand : (w.children c).hand = some (id, reply)) :
    Inv { w.setChild c { w.children c with hand := none } with
      channel := Function.update w.channel id (some reply) } := by
  have hgive : Inv { w.setChild c { w.children c with hand := none } with
      pending := w.pending, channel := Function.update w.channel id (some reply) } := by
    apply h.child
    · rfl
    · rfl
    · exact fun _ hresp => hresp
    · exact h.said c
    · rintro id' r hid
      cases hid
    · exact Finset.Subset.refl _
    · intro id' r hid
      by_cases hne : id' = id
      · subst hne
        rw [Function.update_self] at hid
        cases hid
        exact .inr ⟨c, h.hand c id' reply hhand⟩
      · rw [Function.update_of_ne hne] at hid
        exact h.channel id' r hid
    · rintro id' (hp | ⟨c', r, hid⟩ | hf | hc)
      · exact .inl hp
      · by_cases hc : c' = c
        · subst hc
          rw [hhand] at hid
          cases hid
          refine .inr (.inr (.inr ?_))
          show (Function.update w.channel id (some reply) id).isSome = true
          rw [Function.update_self]
          rfl
        · refine .inr (.inl ⟨c', r, ?_⟩)
          show (Function.update w.children c _ c').hand = _
          rw [Function.update_of_ne hc]
          exact hid
      · exact .inr (.inr (.inl hf))
      · refine .inr (.inr (.inr ?_))
        show (Function.update w.channel id (some reply) id').isSome = true
        by_cases hne : id' = id
        · rw [hne, Function.update_self]
          rfl
        · rw [Function.update_of_ne hne]
          exact hc
    · intro id' ht
      apply h.taken id'
      rcases ht with ⟨c', r, hid⟩ | hf | hc
      · have hid' : (Function.update w.children c { w.children c with hand := none } c').hand = some (id', r) := hid
        by_cases hc : c' = c
        · subst hc
          rw [Function.update_self] at hid'
          cases hid'
        · rw [Function.update_of_ne hc] at hid'
          exact .inl ⟨c', r, hid'⟩
      · exact .inr (.inl hf)
      · by_cases hne : id' = id
        · rw [hne]
          exact .inl ⟨c, reply, hhand⟩
        · refine .inr (.inr ?_)
          have hc' : (Function.update w.channel id (some reply) id').isSome = true := hc
          rw [Function.update_of_ne hne] at hc'
          exact hc'
  exact hgive

/-! ### Steps of anyone -/

theorem exec (h : Inv w) (l : Label) : Inv (w.exec policy l) := by
  cases l with
  | call i params =>
      dsimp only [World.exec]
      split
      · rename_i hi
        apply h.settle <;> simp [hi, CallPc.id?]
      · exact h
  | look i =>
      dsimp only [World.exec]
      split
      · rename_i params hi
        unfold World.look
        split
        · apply h.settle <;> simp [hi, CallPc.id?]
        · apply h.settle
          · simp [hi, CallPc.id?]
          · simp
          · rintro r hr
            cases hr
            exact .inl ⟨_, rfl⟩
          · simp [hi]
        · apply h.settle
          · simp [hi, CallPc.id?]
          · simp
          · rintro r hr
            cases hr
            exact .inl ⟨_, rfl⟩
          · simp [hi]
        · exact h
        · exact h
      · exact h
  | late i =>
      dsimp only [World.exec]
      split
      · rename_i params hi
        have hdone : Inv (w.setCall i (.done none (.error (.notRunning
            "still restarting at the call's deadline")))) := by
          apply h.settle
          · simp [hi, CallPc.id?]
          · simp
          · rintro r hr
            cases hr
            exact .inl ⟨_, rfl⟩
          · simp [hi]
        unfold World.giveUp
        split
        · exact hdone
        · exact hdone
        · exact h
      · exact h
  | begin i =>
      dsimp only [World.exec]
      split
      · rename_i params hi
        unfold World.beginCall
        rcases w.begin_cases "call" params with ⟨e, heq, he⟩ | ⟨bytes, heq⟩
        · rw [heq]
          apply h.skip.settle
          · simp [hi, CallPc.id?]
          · simp
          · rintro r hr
            cases hr
            exact he
          · simp [hi]
        · rw [heq]
          have hnone (j : ℕ) : (w.calls j).id? ≠ some (w.ids + 1) :=
            fun hj => h.callBorn j _ hj (h.fresh _ (Nat.lt_succ_self _))
          have hcall {j : ℕ} (hj : (Function.update w.calls i (.requesting (w.ids + 1)) j).id? = some (w.ids + 1)) :
              j = i := by
            by_contra hne
            rw [Function.update_of_ne hne] at hj
            exact hnone j hj
          refine h.number ?_ ?_ (.inl rfl) (.inl rfl) ?_ (.inl ⟨i, Function.update_self ..⟩)
          · intro j
            by_cases hj : j = i
            · subst hj
              exact .inr ⟨by rw [hi]; rfl, Function.update_self ..⟩
            · exact .inl (Function.update_of_ne hj ..)
          · exact fun j k hj hk => (hcall hj).trans (hcall hk).symm
          · intro hreq
            exact absurd (h.fresh _ (Nat.lt_succ_self _)) (h.asked _ hreq).1
      · exact h
  | finish i =>
      dsimp only [World.exec]
      split
      · rename_i id hi
        split
        · rename_i reply hp
          apply h.settle
          · simp [hi, CallPc.id?]
          · rintro id' r hr
            cases hr
            exact hp
          · simp
          · intro id' hid'
            rw [hi] at hid'
            cases hid'
            rw [hp]
            rfl
        · exact h
      · exact h
  | register id =>
      dsimp only [World.exec]
      split
      · rename_i bytes hp
        apply h.advance
        · rw [hp]
          rfl
        · simp
        · rw [hp]
          rfl
        · rfl
        · intro id' hne
          simp [hne]
        · exact fun _ => ⟨rfl, .inr (by rw [hp]; rfl)⟩
        · rfl
        · rw [hp]
          simp [Phase.pastLock]
        · simp
        · exact fun _ => .inl (Finset.mem_insert_self _ _)
      · exact h
  | lock id =>
      dsimp only [World.exec]
      split
      · rename_i bytes hp
        split_ifs with hholder
        · cases hs : w.stdin with
          | some c => exact h.lock hp hholder hs
          | none =>
              have hrefused : Inv { w.setPhase id .refused with pending := w.pending } := by
                apply h.advance
                · rw [hp]
                  rfl
                · simp
                · rw [hp]
                  rfl
                · rfl
                · simp
                · exact fun hid => ⟨rfl, .inl hid⟩
                · rfl
                · simp [Phase.pastLock]
                · simp
                · simp [Phase.awaits]
              unfold World.lockStdin
              rw [hs]
              exact hrefused
        · exact h
      · exact h
  | write id n =>
      dsimp only [World.exec]
      split
      · rename_i c rest hp
        have hheld : w.holder = some id := by
          rw [h.holder, hp]
          rfl
        unfold World.writeSome
        dsimp only
        split_ifs with hreading hall
        · apply h.write hp
          · rfl
          · rfl
          · rfl
          · simp
          · rfl
          · rfl
          · rfl
          · exact .inr ⟨rfl, rfl⟩
        · have hsome : Inv { (w.setPhase id (.writing c (rest - min n (min rest (policy.pipe - (w.children c).fill))))).setChild c
              { w.children c with fill := (w.children c).fill + min n (min rest (policy.pipe - (w.children c).fill)) } with
              holder := w.holder } := by
            apply h.write hp
            · rfl
            · rfl
            · exact hheld
            · rintro c' rest' heq
              cases heq
              rfl
            · rfl
            · rfl
            · rfl
            · exact .inl rfl
          exact hsome
        · have hfail : Inv { (w.setPhase id .refused).setChild c (w.children c) with holder := none } := by
            apply h.write hp
            · rfl
            · rfl
            · rfl
            · simp
            · rfl
            · rfl
            · rfl
            · exact .inl rfl
          rw [World.setChild, show (World.setPhase w id .refused).children = w.children from rfl,
            Function.update_eq_self] at hfail
          exact hfail
      · exact h
  | forget id =>
      have hdrop {reply : Reply} (hlive : (w.phase id).live = true) (hw : (w.phase id).isWriting = false)
          (ho : Outcome w id reply) : Inv (w.drop id reply) := by
        apply h.advance hlive
        · simp
        · exact hw
        · rfl
        · intro id' hne
          simp [hne]
        · intro hid
          exact absurd rfl (Finset.mem_erase.mp hid).1
        · rfl
        · simp [Phase.pastLock]
        · rintro r hr
          cases hr
          exact ho
        · simp [Phase.awaits]
      dsimp only [World.exec]
      split
      · rename_i hp
        exact hdrop (by rw [hp]; rfl) (by rw [hp]; rfl) (.inr (.inl ⟨_, rfl⟩))
      · rename_i hp
        exact hdrop (by rw [hp]; rfl) (by rw [hp]; rfl) (.inl rfl)
      · exact h
  | recv id =>
      dsimp only [World.exec]
      split
      · rename_i reply hp hc
        have hnot : id ∉ w.pending := (h.taken id (.inr (.inr (by rw [hc]; rfl)))).1
        have hend : Inv { w.setPhase id (.ended reply) with pending := w.pending } := by
          apply h.advance
          · rw [hp]
            rfl
          · simp
          · rw [hp]
            rfl
          · rfl
          · simp
          · exact fun hid => absurd hid hnot
          · rfl
          · simp [Phase.pastLock]
          · rintro r hr
            cases hr
            exact .inr (h.channel id reply hc)
          · simp [Phase.awaits]
        exact hend
      · exact h
  | timeout id =>
      dsimp only [World.exec]
      split
      · rename_i hp hc
        have hexp : Inv { w.setPhase id .expired with pending := w.pending } := by
          apply h.advance
          · rw [hp]
            rfl
          · simp
          · rw [hp]
            rfl
          · rfl
          · simp
          · exact fun hid => ⟨rfl, .inl hid⟩
          · rfl
          · simp [Phase.pastLock]
          · simp
          · simp [Phase.awaits]
        exact hexp
      · exact h
  | monitor m => exact h.step m
  | shutdown => exact { h with }
  | take c =>
      dsimp only [World.exec]
      split
      · rename_i resp hnone hsaid
        exact h.take hnone (List.mem_of_getElem? hsaid)
      · exact h
  | give c =>
      dsimp only [World.exec]
      split
      · rename_i id reply hhand
        exact h.give hhand
      · exact h
  | exit c status =>
      show Inv (if (w.children c).exited = none then w.setChild c { w.children c with exited := some status } else w)
      split_ifs
      · exact h.setChild rfl rfl (fun _ hresp => hresp) (h.said c) rfl
      · exact h
  | close c => exact h.setChild rfl rfl (fun _ hresp => hresp) (h.said c) rfl
  | read c n => exact h.setChild rfl rfl (fun _ hresp => hresp) (h.said c) rfl
  | answer c resp =>
      show Inv (if (w.children c).exited = none ∧ resp.id ∈ (w.children c).received then
        w.setChild c { w.children c with said := (w.children c).said ++ [resp] } else w)
      split_ifs with hcan
      · apply h.setChild
        · rfl
        · rfl
        · exact fun _ hresp => List.mem_append_left _ hresp
        · intro resp' hresp
          rcases List.mem_append.mp hresp with hold | hnew
          · exact h.said c resp' hold
          · rw [List.mem_singleton.mp hnew]
            exact hcan.2
        · rfl
      · exact h

end Inv

end AgentRuntime.Workers
