import AgentRuntime.Workers.Senders

/-!
# `Workers.Correlated` — whose answer a call returns

In every world that any interleaving reaches: a line goes to one child and once; what a call returns from a child was
written by a child that has its line; and once the table was emptied after a child, what the calls it left behind return
is settled. A request that cannot be encoded, or is too long, is refused with the same kind of error as a child's own
(`refused_unsent`).
-/

namespace AgentRuntime.Workers

open Machine

variable {w : World} {policy : Policy}

theorem World.Reachable.inv (h : World.Reachable policy w) : Inv w := by
  obtain ⟨w₀, ls, hinit, rfl⟩ := h
  have hstart : Inv w₀ := by
    rcases hinit with rfl | rfl
    · exact inv_init
    · exact inv_unsupervised
  exact Machine.invariant hstart (fun _ l h => h.exec l) ls

/-! ## One reply for a request -/

/-- A sender is in one place. -/
structure Single (w : World) : Prop where
  hands : ∀ c c' id r r', (w.children c).hand = some (id, r) → (w.children c').hand = some (id, r') → c = c'
  hand : ∀ c id r, (w.children c).hand = some (id, r) → id ∉ w.monitor.toFail ∧ w.channel id = none
  toFail : ∀ id ∈ w.monitor.toFail, w.channel id = none

theorem single_init : Single .init := by
  constructor <;> simp [World.init, Child.new]

theorem single_unsupervised : Single .unsupervised := by
  constructor <;> simp [World.unsupervised, World.init, Child.new]

namespace Single

/-- What matters for where senders are does not change. -/
theorem same (h : Single w) {w' : World} (hhand : ∀ c, (w'.children c).hand = (w.children c).hand)
    (hfail : w'.monitor.toFail = w.monitor.toFail) (hchannel : w'.channel = w.channel) : Single w' where
  hands := by
    intro c c' id r r' hc hc'
    rw [hhand] at hc hc'
    exact h.hands c c' id r r' hc hc'
  hand := by
    intro c id r hc
    rw [hhand] at hc
    rw [hfail, hchannel]
    exact h.hand c id r hc
  toFail := by
    intro id hid
    rw [hfail] at hid
    rw [hchannel]
    exact h.toFail id hid

theorem setChild (h : Single w) {c : ℕ} {child : Child} (hhand : child.hand = (w.children c).hand) :
    Single (w.setChild c child) := by
  apply h.same
  · intro c'
    show (Function.update w.children c child c').hand = _
    by_cases hc : c' = c
    · subst hc
      rw [Function.update_self, hhand]
    · rw [Function.update_of_ne hc]
  · rfl
  · rfl

theorem begin (h : Single w) (method : String) (params : Except String ℕ) : Single (w.begin method params).2 := by
  rcases w.begin_cases method params with ⟨e, heq, -⟩ | ⟨bytes, heq⟩
  · rw [heq]
    exact h.same (fun _ => rfl) rfl rfl
  · rw [heq]
    exact h.same (fun _ => rfl) rfl rfl

/-- The monitor goes on with the same senders. -/
theorem goto (h : Single w) {m : MonitorPc} (hfail : m.toFail = w.monitor.toFail) : Single (w.goto m) :=
  h.same (fun _ => rfl) hfail rfl

theorem afterAsk (h : Single w) {a : Ask} (hfail : w.monitor.toFail = ∅) (p : Ping) : Single (w.afterAsk a p) := by
  unfold World.afterAsk
  split
  · exact h.goto hfail.symm
  · exact h.goto hfail.symm

theorem ask (h : Single w) {a : Ask} (hfail : w.monitor.toFail = ∅) : Single (w.ask a) := by
  have hbegin := h.begin a.method (.ok 4)
  have hmonitor : (w.begin a.method (.ok 4)).2.monitor = w.monitor := by
    rcases w.begin_cases a.method (.ok 4) with ⟨e, heq, -⟩ | ⟨bytes, heq⟩
    · rw [heq]
    · rw [heq]
      rfl
  unfold World.ask
  split
  · rename_i e w' heq
    rw [heq] at hbegin hmonitor
    exact hbegin.afterAsk (hmonitor ▸ hfail) _
  · rename_i id w' heq
    rw [heq] at hbegin hmonitor
    exact hbegin.goto (hmonitor ▸ hfail).symm

theorem step (h : Single w) (hinv : Inv w) (m : Move) : Single (w.step policy m) := by
  unfold World.step
  split
  case h_5 hm =>
    have hnone : (w.children w.spawned).hand = none := by
      apply Option.eq_none_iff_forall_ne_some.mpr
      rintro ⟨id, r⟩ hid
      obtain ⟨hin, -⟩ := hinv.hand w.spawned id r hid
      exact absurd (hinv.begun w.spawned _ (hinv.received w.spawned _ hin)).2 (lt_irrefl _)
    have hnew : Single (w.setChild w.spawned .new) := h.setChild hnone.symm
    apply hnew.same
    · exact fun _ => rfl
    · show ∅ = w.monitor.toFail
      rw [hm]
      rfl
    · rfl
  case h_7 a hm => exact h.ask (by rw [hm]; rfl)
  case h_8 a id exited hm =>
    unfold World.asked
    split
    · exact h.afterAsk (by rw [hm]; rfl) _
    · exact h.afterAsk (by rw [hm]; rfl) _
    · split_ifs
      · exact h.same (fun _ => rfl) (by rw [hm]; rfl) rfl
      · exact h
    · exact h
  case h_9 a p hm =>
    unfold World.pinged
    split <;> exact h.same (fun _ => rfl) (by rw [hm]; first | rfl | (split <;> rfl)) rfl
  case h_18 requested hm =>
    have hkill : Single (w.setChild (w.spawned - 1)
        { w.current with exited := some (w.current.exited.getD (.signal 9)) }) := h.setChild rfl
    apply hkill.goto
    show ∅ = w.monitor.toFail
    rw [hm]
    rfl
  case h_25 requested desc hm =>
    -- what is taken out of the table was nowhere else
    exact { hands := h.hands
            hand := by
              intro c id r hid
              exact ⟨(hinv.taken id (.inl ⟨c, r, hid⟩)).1, (h.hand c id r hid).2⟩
            toFail := by
              intro id hid
              by_contra hne
              exact (hinv.taken id (.inr (.inr (Option.isSome_iff_ne_none.mpr hne)))).1 hid }
  case h_26 requested desc ids id hm =>
    split_ifs with hin
    · have hfail : w.monitor.toFail = ids := by rw [hm]; rfl
      exact { hands := h.hands
              hand := by
                intro c id' r hid
                obtain ⟨hnot, hnone⟩ := h.hand c id' r hid
                rw [hfail] at hnot
                refine ⟨fun hmem => hnot (Finset.mem_of_mem_erase hmem), ?_⟩
                have hne : id' ≠ id := by
                  rintro rfl
                  exact hnot hin
                exact (Function.update_of_ne hne ..).trans hnone
              toFail := by
                intro id' hid
                obtain ⟨hne, hmem⟩ := Finset.mem_erase.mp hid
                exact (Function.update_of_ne hne ..).trans (h.toFail id' (hfail ▸ hmem)) }
    · exact h
  case h_29 desc old hm =>
    unfold World.restart
    split_ifs <;> exact h.same (fun _ => rfl) (by rw [hm]; rfl) rfl
  case h_27 requested desc ids hm =>
    split_ifs with hempty
    · subst hempty
      exact h.goto (by rw [hm]; rfl)
    · exact h
  case h_32 => exact h
  all_goals
    rename_i hm
    first
    | exact h.same (fun _ => rfl) (by rw [hm]; rfl) rfl
    | (split_ifs <;> first | exact h | exact h.same (fun _ => rfl) (by rw [hm]; rfl) rfl)

/-- A reader takes a sender out of the table. -/
theorem take (h : Single w) (hinv : Inv w) {c : ℕ} {resp : Response} {pending : Finset ℕ}
    (hnone : (w.children c).hand = none) :
    Single { w.setChild c { w.children c with
        heard := (w.children c).heard + 1
        hand := if resp.id ∈ w.pending then some (resp.id, resp.reply) else none } with pending } := by
  -- what a hand holds now was in the table, or was held before
  have hheld {c' id : ℕ} {r : Reply} (hid : (Function.update w.children c { w.children c with
        heard := (w.children c).heard + 1
        hand := if resp.id ∈ w.pending then some (resp.id, resp.reply) else none } c').hand = some (id, r)) :
      (c' = c ∧ id ∈ w.pending) ∨ (c' ≠ c ∧ (w.children c').hand = some (id, r)) := by
    by_cases hc : c' = c
    · subst hc
      rw [Function.update_self] at hid
      dsimp only at hid
      split_ifs at hid with hp
      cases hid
      exact .inl ⟨rfl, hp⟩
    · rw [Function.update_of_ne hc] at hid
      exact .inr ⟨hc, hid⟩
  constructor
  · intro c' c'' id r r' hid hid'
    rcases hheld hid with ⟨rfl, hp⟩ | ⟨-, hold⟩
    · rcases hheld hid' with ⟨rfl, -⟩ | ⟨-, hold'⟩
      · rfl
      · exact absurd hp (hinv.taken id (.inl ⟨c'', r', hold'⟩)).1
    · rcases hheld hid' with ⟨rfl, hp⟩ | ⟨-, hold'⟩
      · exact absurd hp (hinv.taken id (.inl ⟨c', r, hold⟩)).1
      · exact h.hands c' c'' id r r' hold hold'
  · intro c' id r hid
    rcases hheld hid with ⟨-, hp⟩ | ⟨-, hold⟩
    · refine ⟨fun hf => (hinv.taken id (.inr (.inl hf))).1 hp, ?_⟩
      show w.channel id = none
      by_contra hne
      exact (hinv.taken id (.inr (.inr (Option.isSome_iff_ne_none.mpr hne)))).1 hp
    · exact h.hand c' id r hold
  · exact h.toFail

/-- A reader passes an answer on. -/
theorem give (h : Single w) {c id : ℕ} {reply : Reply} (hhand : (w.children c).hand = some (id, reply)) :
    Single { w.setChild c { w.children c with hand := none } with
      channel := Function.update w.channel id (some reply) } := by
  have hheld {c' id' : ℕ} {r : Reply}
      (hid : (Function.update w.children c { w.children c with hand := none } c').hand = some (id', r)) :
      c' ≠ c ∧ (w.children c').hand = some (id', r) := by
    by_cases hc : c' = c
    · subst hc
      rw [Function.update_self] at hid
      cases hid
    · rw [Function.update_of_ne hc] at hid
      exact ⟨hc, hid⟩
  constructor
  · intro c' c'' id' r r' hid hid'
    exact h.hands c' c'' id' r r' (hheld hid).2 (hheld hid').2
  · intro c' id' r hid
    obtain ⟨hc, hold⟩ := hheld hid
    obtain ⟨hnot, hnone⟩ := h.hand c' id' r hold
    refine ⟨hnot, ?_⟩
    have hne : id' ≠ id := by
      rintro rfl
      exact hc (h.hands c' c id' r reply hold hhand)
    exact (Function.update_of_ne hne ..).trans hnone
  · intro id' hid
    have hne : id' ≠ id := by
      rintro rfl
      exact (h.hand c id' reply hhand).1 hid
    exact (Function.update_of_ne hne ..).trans (h.toFail id' hid)

theorem exec (h : Single w) (hinv : Inv w) (l : Label) : Single (w.exec policy l) := by
  have hsame {w' : World} (hchildren : w'.children = w.children) (hmonitor : w'.monitor = w.monitor)
      (hchannel : w'.channel = w.channel) : Single w' :=
    h.same (fun c => by rw [hchildren]) (by rw [hmonitor]) hchannel
  cases l with
  | call i params =>
      simp only [World.exec]
      split
      · exact hsame rfl rfl rfl
      · exact h
  | look i =>
      simp only [World.exec]
      split
      · unfold World.look
        split
        · exact hsame rfl rfl rfl
        · exact hsame rfl rfl rfl
        · exact hsame rfl rfl rfl
        · exact h
        · exact h
      · exact h
  | late i =>
      simp only [World.exec]
      split
      · unfold World.giveUp
        split
        · exact hsame rfl rfl rfl
        · exact hsame rfl rfl rfl
        · exact h
      · exact h
  | begin i =>
      simp only [World.exec]
      split
      · rename_i params hi
        have hbegin := h.begin "call" params
        unfold World.beginCall
        split
        · rename_i e w' heq
          rw [heq] at hbegin
          exact hbegin.same (fun _ => rfl) rfl rfl
        · rename_i id w' heq
          rw [heq] at hbegin
          exact hbegin.same (fun _ => rfl) rfl rfl
      · exact h
  | finish i =>
      simp only [World.exec]
      split
      · split
        · exact hsame rfl rfl rfl
        · exact h
      · exact h
  | register id =>
      simp only [World.exec]
      split
      · exact hsame rfl rfl rfl
      · exact h
  | lock id =>
      simp only [World.exec]
      split
      · split_ifs
        · unfold World.lockStdin
          split
          · exact hsame rfl rfl rfl
          · rename_i c hc
            have hchild : Single (w.setChild c
                { w.children c with begun := (w.children c).begun ++ [id] }) := h.setChild rfl
            exact hchild.same (fun _ => rfl) rfl rfl
        · exact h
      · exact h
  | write id n =>
      simp only [World.exec]
      split
      · rename_i c rest hp
        unfold World.writeSome
        dsimp only
        split_ifs
        · have hchild : Single (w.setChild c { w.children c with
              fill := (w.children c).fill + min n (min rest (policy.pipe - (w.children c).fill))
              received := (w.children c).received ++ [id] }) := h.setChild rfl
          exact hchild.same (fun _ => rfl) rfl rfl
        · have hchild : Single (w.setChild c { w.children c with
              fill := (w.children c).fill + min n (min rest (policy.pipe - (w.children c).fill)) }) := h.setChild rfl
          exact hchild.same (fun _ => rfl) rfl rfl
        · exact hsame rfl rfl rfl
      · exact h
  | forget id =>
      simp only [World.exec]
      split
      · exact hsame rfl rfl rfl
      · exact hsame rfl rfl rfl
      · exact h
  | recv id =>
      simp only [World.exec]
      split
      · exact hsame rfl rfl rfl
      · exact h
  | timeout id =>
      simp only [World.exec]
      split
      · exact hsame rfl rfl rfl
      · exact h
  | monitor m => exact h.step hinv m
  | shutdown => exact hsame rfl rfl rfl
  | take c =>
      simp only [World.exec]
      split
      · rename_i resp hnone hsaid
        exact h.take hinv hnone
      · exact h
  | give c =>
      simp only [World.exec]
      split
      · rename_i id reply hhand
        exact h.give hhand
      · exact h
  | exit c status =>
      simp only [World.exec]
      split_ifs
      · exact h.setChild rfl
      · exact h
  | close c => exact h.setChild rfl
  | read c n => exact h.setChild rfl
  | answer c resp =>
      simp only [World.exec]
      split_ifs
      · exact h.setChild rfl
      · exact h

end Single

theorem World.Reachable.single (h : World.Reachable policy w) : Single w := by
  obtain ⟨w₀, ls, hinit, rfl⟩ := h
  have hstart : Inv w₀ ∧ Single w₀ := by
    rcases hinit with rfl | rfl
    · exact ⟨inv_init, single_init⟩
    · exact ⟨inv_unsupervised, single_unsupervised⟩
  exact (Machine.invariant (P := fun w => Inv w ∧ Single w) hstart
    (fun _ l h => ⟨h.1.exec l, h.2.exec h.1 l⟩) ls).2

/-! ## A call that returned -/

theorem World.begin_calls (w : World) (method : String) (params : Except String ℕ) :
    (w.begin method params).2.calls = w.calls := by
  rcases w.begin_cases method params with ⟨e, heq, -⟩ | ⟨bytes, heq⟩
  · rw [heq]
  · rw [heq]
    rfl

/-- The monitor does not touch the calls. -/
theorem World.step_calls (w : World) (m : Move) : (w.step policy m).calls = w.calls := by
  have hafter (w : World) (a : Ask) (p : Ping) : (w.afterAsk a p).calls = w.calls := by
    unfold World.afterAsk
    split <;> rfl
  unfold World.step
  split
  case h_7 a hm =>
    have hbegin := w.begin_calls a.method (.ok 4)
    unfold World.ask
    split
    · rename_i e w' heq
      rw [heq] at hbegin
      exact (hafter w' a _).trans hbegin
    · rename_i id w' heq
      rw [heq] at hbegin
      exact hbegin
  case h_8 a id exited hm =>
    unfold World.asked
    split
    · exact hafter ..
    · exact hafter ..
    · split_ifs <;> rfl
    · rfl
  case h_9 a p hm =>
    unfold World.pinged
    split <;> rfl
  case h_29 desc old hm =>
    unfold World.restart
    split_ifs <;> rfl
  all_goals first | rfl | (split_ifs <;> rfl)

/-- A call that returned stays as it is. -/
theorem done_stays {i : ℕ} {x : Option ℕ} {r : Reply} (hi : w.calls i = .done x r) (l : Label) :
    (w.exec policy l).calls i = .done x r := by
  have hset {w' : World} {j : ℕ} {pc : CallPc} (hcalls : w'.calls = w.calls) (hj : ∀ x r, w.calls j ≠ .done x r) :
      (w'.setCall j pc).calls i = .done x r := by
    have hne : i ≠ j := by
      rintro rfl
      exact hj x r hi
    show Function.update w'.calls j pc i = .done x r
    rw [Function.update_of_ne hne, hcalls]
    exact hi
  cases l with
  | call j params =>
      simp only [World.exec]
      split
      · rename_i hj
        exact hset rfl (by simp [hj])
      · exact hi
  | look j =>
      simp only [World.exec]
      split
      · rename_i params hj
        unfold World.look
        split
        · exact hset rfl (by simp [hj])
        · exact hset rfl (by simp [hj])
        · exact hset rfl (by simp [hj])
        · exact hi
        · exact hi
      · exact hi
  | late j =>
      simp only [World.exec]
      split
      · rename_i params hj
        unfold World.giveUp
        split
        · exact hset rfl (by simp [hj])
        · exact hset rfl (by simp [hj])
        · exact hi
      · exact hi
  | begin j =>
      simp only [World.exec]
      split
      · rename_i params hj
        have hbegin := w.begin_calls "call" params
        unfold World.beginCall
        split
        · rename_i e w' heq
          rw [heq] at hbegin
          exact hset hbegin (by simp [hj])
        · rename_i id w' heq
          rw [heq] at hbegin
          exact hset hbegin (by simp [hj])
      · exact hi
  | finish j =>
      simp only [World.exec]
      split
      · rename_i id hj
        split
        · exact hset rfl (by simp [hj])
        · exact hi
      · exact hi
  | lock id =>
      simp only [World.exec]
      split
      · split_ifs
        · unfold World.lockStdin
          split <;> exact hi
        · exact hi
      · exact hi
  | write id n =>
      simp only [World.exec]
      split
      · unfold World.writeSome
        dsimp only
        split_ifs <;> exact hi
      · exact hi
  | monitor m => exact (congrFun (World.step_calls w m) i).trans hi
  | register id => simp only [World.exec]; split <;> exact hi
  | forget id => simp only [World.exec]; split <;> exact hi
  | recv id => simp only [World.exec]; split <;> exact hi
  | timeout id => simp only [World.exec]; split <;> exact hi
  | shutdown => exact hi
  | take c => simp only [World.exec]; split <;> exact hi
  | give c => simp only [World.exec]; split <;> exact hi
  | exit c status => simp only [World.exec]; split_ifs <;> exact hi
  | close c => exact hi
  | read c n => exact hi
  | answer c resp => simp only [World.exec]; split_ifs <;> exact hi

/-! ## A call under way proceeds -/

/-- A step of the call's own thread. -/
def OwnStep (w : World) (i : ℕ) (l : Label) : Prop :=
  l = .look i ∨ l = .late i ∨ l = .begin i ∨ l = .finish i ∨
    ∃ id, w.calls i = .requesting id ∧ (l = .register id ∨ l = .lock id ∨ (∃ n, l = .write id n) ∨ l = .forget id ∨
      l = .recv id ∨ l = .timeout id)

/-- How far a request is from its end. -/
def Phase.left : Phase → ℕ
  | .unborn => 0
  | .numbered bytes => bytes + 7
  | .registered bytes => bytes + 6
  | .writing _ rest => rest + 4
  | .waiting => 3
  | .refused => 2
  | .expired => 2
  | .ended _ => 1

/-- How far a call is from its end. -/
def World.left (w : World) (i : ℕ) : ℕ :=
  match w.calls i with
  | .idle => 0
  | .checking _ => maxLineBytes + 9
  | .admitted _ => maxLineBytes + 8
  | .requesting id => (w.phase id).left
  | .done .. => 0

/-- The call waits for another thread to give back the handle, or for room in the pipe. -/
def HeldUp (policy : Policy) (w : World) (i : ℕ) : Prop :=
  ∃ id, w.calls i = .requesting id ∧
    ((∃ bytes, w.phase id = .registered bytes ∧ ∃ other ≠ id, w.holder = some other) ∨
      ∃ c rest, w.phase id = .writing c rest ∧ (w.children c).reading = true ∧ policy.pipe ≤ (w.children c).fill)

theorem World.left_setCall {w : World} {i : ℕ} {pc : CallPc} : (w.setCall i pc).left i =
    match pc with
    | .idle => 0
    | .checking _ => maxLineBytes + 9
    | .admitted _ => maxLineBytes + 8
    | .requesting id => (w.phase id).left
    | .done .. => 0 := by
  have hself : (w.setCall i pc).calls i = pc := Function.update_self ..
  unfold World.left
  rw [hself]
  rfl

theorem World.left_lt {w' : World} {i id n : ℕ} {p : Phase} (hi : w'.calls i = .requesting id)
    (hp : w'.phase id = p) (hlt : p.left < n) : w'.left i < n := by
  unfold World.left
  rw [hi]
  show (w'.phase id).left < n
  rw [hp]
  exact hlt

theorem proceeds (hinv : Inv w) {i : ℕ} (hactive : (w.calls i).active = true) :
    HeldUp policy w i ∨ ∃ l, OwnStep w i l ∧ (w.exec policy l).left i < w.left i := by
  cases hi : w.calls i with
  | idle =>
      rw [hi] at hactive
      cases hactive
  | done x r =>
      rw [hi] at hactive
      cases hactive
  | checking params =>
      right
      have hleft : w.left i = maxLineBytes + 9 := by
        unfold World.left
        rw [hi]
      rw [hleft]
      cases hs : w.state with
      | running | failed | stopped =>
          refine ⟨.look i, .inl rfl, ?_⟩
          simp only [World.exec, hi, World.look, hs, World.left_setCall]
          omega
      | starting | restarting =>
          refine ⟨.late i, .inr (.inl rfl), ?_⟩
          simp only [World.exec, hi, World.giveUp, hs, World.left_setCall]
          omega
  | admitted params =>
      right
      refine ⟨.begin i, .inr (.inr (.inl rfl)), ?_⟩
      have hleft : w.left i = maxLineBytes + 8 := by
        unfold World.left
        rw [hi]
      rw [hleft]
      simp only [World.exec, hi, World.beginCall]
      unfold World.begin
      cases params with
      | error e =>
          simp only [World.left_setCall]
          omega
      | ok n =>
          by_cases hlong : maxLineBytes < lineLength (w.ids + 1) "call" n
          · simp only [if_pos hlong, World.left_setCall]
            omega
          · simp only [if_neg hlong, World.left_setCall]
            show (Function.update w.phase (w.ids + 1) _ (w.ids + 1)).left < _
            rw [Function.update_self]
            show lineLength (w.ids + 1) "call" n + 7 < _
            omega
  | requesting id =>
      have hleft : w.left i = (w.phase id).left := by
        unfold World.left
        rw [hi]
      rw [hleft]
      cases hp : w.phase id with
      | unborn => exact absurd hp (hinv.callBorn i id (by rw [hi]; rfl))
      | numbered bytes =>
          right
          refine ⟨.register id, .inr (.inr (.inr (.inr ⟨id, hi, .inl rfl⟩))), ?_⟩
          simp only [World.exec, hp]
          exact World.left_lt hi (Function.update_self ..) (by simp [Phase.left])
      | registered bytes =>
          cases hh : w.holder with
          | some other =>
              refine .inl ⟨id, hi, .inl ⟨bytes, hp, other, ?_, hh⟩⟩
              rintro rfl
              have := (hinv.holder other).mp hh
              rw [hp] at this
              cases this
          | none =>
              right
              refine ⟨.lock id, .inr (.inr (.inr (.inr ⟨id, hi, .inr (.inl rfl)⟩))), ?_⟩
              simp only [World.exec, hp, hh, if_true]
              unfold World.lockStdin
              split
              · exact World.left_lt hi (Function.update_self ..) (by simp [Phase.left])
              · exact World.left_lt hi (Function.update_self ..) (by simp [Phase.left])
      | writing c rest =>
          by_cases hread : (w.children c).reading = true
          · by_cases hroom : policy.pipe ≤ (w.children c).fill
            · exact .inl ⟨id, hi, .inr ⟨c, rest, hp, hread, hroom⟩⟩
            · right
              refine ⟨.write id rest, .inr (.inr (.inr (.inr ⟨id, hi, .inr (.inr (.inl ⟨rest, rfl⟩))⟩))), ?_⟩
              simp only [World.exec, hp]
              unfold World.writeSome
              simp only [hread, if_true]
              split_ifs with hall
              · exact World.left_lt hi (Function.update_self ..) (by simp [Phase.left])
              · refine World.left_lt hi (Function.update_self ..) ?_
                show rest - _ + 4 < rest + 4
                omega
          · right
            refine ⟨.write id rest, .inr (.inr (.inr (.inr ⟨id, hi, .inr (.inr (.inl ⟨rest, rfl⟩))⟩))), ?_⟩
            simp only [World.exec, hp]
            unfold World.writeSome
            simp only [if_neg hread]
            exact World.left_lt hi (Function.update_self ..) (by simp [Phase.left])
      | refused =>
          right
          refine ⟨.forget id, .inr (.inr (.inr (.inr ⟨id, hi, .inr (.inr (.inr (.inl rfl)))⟩))), ?_⟩
          simp only [World.exec, hp]
          exact World.left_lt hi (Function.update_self ..) (by simp [Phase.left])
      | expired =>
          right
          refine ⟨.forget id, .inr (.inr (.inr (.inr ⟨id, hi, .inr (.inr (.inr (.inl rfl)))⟩))), ?_⟩
          simp only [World.exec, hp]
          exact World.left_lt hi (Function.update_self ..) (by simp [Phase.left])
      | waiting =>
          right
          cases hc : w.channel id with
          | some r =>
              refine ⟨.recv id, .inr (.inr (.inr (.inr ⟨id, hi, .inr (.inr (.inr (.inr (.inl rfl))))⟩))), ?_⟩
              simp only [World.exec, hp, hc]
              exact World.left_lt hi (Function.update_self ..) (by simp [Phase.left])
          | none =>
              refine ⟨.timeout id, .inr (.inr (.inr (.inr ⟨id, hi, .inr (.inr (.inr (.inr (.inr rfl))))⟩))), ?_⟩
              simp only [World.exec, hp, hc]
              exact World.left_lt hi (Function.update_self ..) (by simp [Phase.left])
      | ended r =>
          right
          refine ⟨.finish i, .inr (.inr (.inr (.inl rfl))), ?_⟩
          simp only [World.exec, hi, hp, World.left_setCall]
          simp [Phase.left]

/-! ## A reply in the channel is the one the call returns -/

theorem World.begin_phase (hinv : Inv w) {id : ℕ} (hid : w.phase id ≠ .unborn) (method : String)
    (params : Except String ℕ) : (w.begin method params).2.phase id = w.phase id := by
  rcases w.begin_cases method params with ⟨e, heq, -⟩ | ⟨bytes, heq⟩
  · rw [heq]
  · rw [heq]
    apply Function.update_of_ne
    rintro rfl
    exact hid (hinv.fresh _ (Nat.lt_succ_self _))

theorem World.begin_channel (w : World) (method : String) (params : Except String ℕ) :
    (w.begin method params).2.channel = w.channel := by
  rcases w.begin_cases method params with ⟨e, heq, -⟩ | ⟨bytes, heq⟩
  · rw [heq]
  · rw [heq]
    rfl

/-- The request waits, and the reply is in its channel. -/
def Settled (w : World) (id : ℕ) (r : Reply) : Prop := w.phase id = .waiting ∧ w.channel id = some r

namespace Settled

variable {id : ℕ} {r : Reply}

theorem afterAsk (h : Settled w id r) (a : Ask) (p : Ping) : Settled (w.afterAsk a p) id r := by
  unfold World.afterAsk
  split <;> exact h

theorem begin (h : Settled w id r) (hinv : Inv w) (method : String) (params : Except String ℕ) :
    Settled (w.begin method params).2 id r := by
  constructor
  · rw [World.begin_phase hinv (by rw [h.1]; simp)]
    exact h.1
  · rw [World.begin_channel]
    exact h.2

theorem step (h : Settled w id r) (hinv : Inv w) (hone : Single w) (m : Move) : Settled (w.step policy m) id r := by
  unfold World.step
  split
  case h_7 a hm =>
    have hbegin := h.begin hinv a.method (.ok 4)
    unfold World.ask
    split
    · rename_i e w' heq
      rw [heq] at hbegin
      exact hbegin.afterAsk a _
    · rename_i id' w' heq
      rw [heq] at hbegin
      exact hbegin
  case h_8 a id' exited hm =>
    unfold World.asked
    split
    · exact h.afterAsk a _
    · exact h.afterAsk a _
    · split_ifs with hexit
      · have hne : id ≠ id' := by
          rintro rfl
          rw [h.2] at hexit
          simp at hexit
        exact ⟨(Function.update_of_ne hne ..).trans h.1, h.2⟩
      · exact h
    · exact h
  case h_9 a p hm =>
    unfold World.pinged
    split <;> exact h
  case h_26 requested desc ids id' hm =>
    split_ifs with hin
    · have hne : id ≠ id' := by
        rintro rfl
        have hnone := hone.toFail id (by rw [hm]; exact hin)
        rw [h.2] at hnone
        cases hnone
      exact ⟨h.1, (Function.update_of_ne hne ..).trans h.2⟩
    · exact h
  case h_29 desc old hm =>
    unfold World.restart
    split_ifs <;> exact h
  all_goals first | exact h | (split_ifs <;> exact h)

/-- A settled request stays settled until its sender takes the reply. -/
theorem exec (h : Settled w id r) (hinv : Inv w) (hone : Single w) (l : Label) :
    Settled (w.exec policy l) id r ∨ (w.exec policy l).phase id = .ended r := by
  have hother {w' : World} {id' : ℕ} {p : Phase} (hne : id ≠ id') (hphase : w'.phase = Function.update w.phase id' p)
      (hchannel : w'.channel = w.channel) : Settled w' id r ∨ w'.phase id = .ended r := by
    refine .inl ⟨?_, ?_⟩
    · rw [hphase, Function.update_of_ne hne]
      exact h.1
    · rw [hchannel]
      exact h.2
  have hnot {id' : ℕ} {p : Phase} (hp : w.phase id' = p) (hwait : p ≠ .waiting) : id ≠ id' := by
    rintro rfl
    exact hwait (hp.symm.trans h.1)
  cases l with
  | call i params => simp only [World.exec]; split <;> exact .inl h
  | look i =>
      simp only [World.exec]
      split
      · unfold World.look
        split <;> exact .inl h
      · exact .inl h
  | late i =>
      simp only [World.exec]
      split
      · unfold World.giveUp
        split <;> exact .inl h
      · exact .inl h
  | begin i =>
      simp only [World.exec]
      split
      · rename_i params hi
        have hbegin := h.begin hinv "call" params
        unfold World.beginCall
        split
        · rename_i e w' heq
          rw [heq] at hbegin
          exact .inl hbegin
        · rename_i id' w' heq
          rw [heq] at hbegin
          exact .inl hbegin
      · exact .inl h
  | finish i =>
      simp only [World.exec]
      split
      · split <;> exact .inl h
      · exact .inl h
  | register id' =>
      simp only [World.exec]
      split
      · rename_i bytes hp
        exact hother (hnot hp (by simp)) rfl rfl
      · exact .inl h
  | lock id' =>
      simp only [World.exec]
      split
      · rename_i bytes hp
        have hne := hnot hp (by simp)
        split_ifs
        · unfold World.lockStdin
          split
          · exact hother hne rfl rfl
          · exact hother hne rfl rfl
        · exact .inl h
      · exact .inl h
  | write id' n =>
      simp only [World.exec]
      split
      · rename_i c rest hp
        have hne := hnot hp (by simp)
        unfold World.writeSome
        dsimp only
        split_ifs
        · exact hother hne rfl rfl
        · exact hother hne rfl rfl
        · exact hother hne rfl rfl
      · exact .inl h
  | forget id' =>
      simp only [World.exec]
      split
      · rename_i hp
        exact hother (hnot hp (by simp)) rfl rfl
      · rename_i hp
        exact hother (hnot hp (by simp)) rfl rfl
      · exact .inl h
  | recv id' =>
      simp only [World.exec]
      split
      · rename_i reply hp hc
        by_cases hne : id = id'
        · subst hne
          rw [h.2] at hc
          cases hc
          exact .inr (Function.update_self ..)
        · exact hother hne rfl rfl
      · exact .inl h
  | timeout id' =>
      simp only [World.exec]
      split
      · rename_i hp hc
        have hne : id ≠ id' := by
          rintro rfl
          rw [h.2] at hc
          cases hc
        exact hother hne rfl rfl
      · exact .inl h
  | monitor m => exact .inl (h.step hinv hone m)
  | shutdown => exact .inl h
  | take c => simp only [World.exec]; split <;> exact .inl h
  | give c =>
      simp only [World.exec]
      split
      · rename_i id' reply hhand
        have hne : id ≠ id' := by
          rintro rfl
          have hnone := (hone.hand c id reply hhand).2
          rw [h.2] at hnone
          cases hnone
        exact .inl ⟨h.1, (Function.update_of_ne hne ..).trans h.2⟩
      · exact .inl h
  | exit c status => simp only [World.exec]; split_ifs <;> exact .inl h
  | close c => exact .inl h
  | read c n => exact .inl h
  | answer c resp => simp only [World.exec]; split_ifs <;> exact .inl h

end Settled

/-! ## What a call returns -/

/-- **Calls are correlated**, in one world. -/
structure Correlated (policy : Policy) (w : World) : Prop where
  /-- A line goes to one child, and once. -/
  writtenOnce : ∀ c, (w.children c).begun.Nodup ∧
    ∀ c' id, id ∈ (w.children c).begun → id ∈ (w.children c').begun → c = c'
  /-- A call that returned does not return again. -/
  once : ∀ i x r l, w.calls i = .done x r → (w.exec policy l).calls i = .done x r
  /-- A call under way comes closer to its end by a step of its own, unless it is held up at the handle. -/
  proceeds : ∀ i, (w.calls i).active = true →
    HeldUp policy w i ∨ ∃ l, OwnStep w i l ∧ (w.exec policy l).left i < w.left i
  /-- A value was answered by a child that has the request. -/
  ok : ∀ i x v, w.calls i = .done x (.ok v) → ∃ id c, x = some id ∧ Answered w c id (.ok v)
  /-- An error of the worker too, or the request was refused before it was sent. -/
  remote : ∀ i x e, w.calls i = .done x (.error (.remote e)) →
    (∃ id c, x = some id ∧ Answered w c id (.error (.remote e))) ∨ (x = none ∧ Unsent (.error (.remote e)))
  /-- A call whose line was begun returns that its child is gone, that its time is over, or what that child wrote. -/
  begun : ∀ i id c r, w.calls i = .done (some id) r → id ∈ (w.children c).begun →
    (∃ why, r = .error (.crashed why)) ∨ r = .error .timeout ∨ Answered w c id r
  /-- Once the table was emptied after a child, what was sent to it has left the table: its reader holds what the child
      wrote, or the monitor is about to tell that the child is gone, or one of these is in the channel. -/
  drained : ∀ id c, w.phase id = .waiting → id ∈ (w.children c).begun → Drained w c →
    (∃ r, (w.children c).hand = some (id, r) ∧ Answered w c id r) ∨ id ∈ w.monitor.toFail ∨
      ∃ r, w.channel id = some r ∧ ((∃ why, r = .error (.crashed why)) ∨ Answered w c id r)
  /-- What is in the channel of a waiting request is what the request ends with. -/
  settled : ∀ id r l, Settled w id r → Settled (w.exec policy l) id r ∨ (w.exec policy l).phase id = .ended r
  /-- Without a call under way, a worker that is given up or stopped has an empty table. -/
  empty : w.state = .failed ∨ w.state = .stopped → (∀ i, (w.calls i).active = false) → w.pending = ∅

/-- **Calls are correlated** in every world that an interleaving reaches. -/
theorem correlated (policy : Policy) {w : World} (h : World.Reachable policy w) : Correlated policy w := by
  have hinv := h.inv
  have hone := h.single
  have hreturned {i id : ℕ} {r : Reply} (hi : w.calls i = .done (some id) r) : Outcome w id r :=
    hinv.ended id r (hinv.done i id r hi)
  have hsame {c c' id : ℕ} {r : Reply} (hid : id ∈ (w.children c).begun) (ha : Answered w c' id r) : c' = c :=
    hinv.single c' c id (hinv.received c' id ha.1) hid
  have hsent {id c : ℕ} {r : Reply} (hid : id ∈ (w.children c).begun) (hs : Sent w id r) :
      (∃ why, r = .error (.crashed why)) ∨ Answered w c id r := by
    rcases hs with hc | ⟨c', ha⟩
    · exact .inl hc
    · exact .inr (hsame hid ha ▸ ha)
  constructor
  · exact fun c => ⟨hinv.nodup c, fun c' id => hinv.single c c' id⟩
  · exact fun i x r l hi => done_stays hi l
  · exact fun i hi => proceeds hinv hi
  · intro i x v hi
    cases x with
    | none => rcases hinv.unsent i _ hi with ⟨_, hr⟩ | ⟨_, hr⟩ | ⟨_, -, hr⟩ <;> cases hr
    | some id =>
        rcases hreturned hi with hr | ⟨_, hr⟩ | ⟨c, ha⟩
        · cases hr
        · cases hr
        · exact ⟨id, c, rfl, ha⟩
  · intro i x e hi
    cases x with
    | none => exact .inr ⟨rfl, hinv.unsent i _ hi⟩
    | some id =>
        rcases hreturned hi with hr | ⟨_, hr⟩ | ⟨c, ha⟩
        · cases hr
        · cases hr
        · exact .inl ⟨id, c, rfl, ha⟩
  · intro i id c r hi hid
    rcases hreturned hi with hr | hs
    · exact .inr (.inl hr)
    · rcases hsent hid hs with hc | ha
      · exact .inl hc
      · exact .inr (.inr ha)
  · intro id c hp hid hdr
    rcases hinv.sender id (by rw [hp]; rfl) with hpend | ⟨c', r, hhand⟩ | hf | hc
    · exact absurd hpend (hinv.drained c hdr id hid)
    · have ha := hinv.hand c' id r hhand
      obtain rfl := hsame hid ha
      exact .inl ⟨r, hhand, ha⟩
    · exact .inr (.inl hf)
    · obtain ⟨r, hr⟩ := Option.isSome_iff_exists.mp hc
      exact .inr (.inr ⟨r, hr, hsent hid (hinv.channel id r hr)⟩)
  · exact fun id r l hs => hs.exec hinv hone l
  · intro hstate hidle
    apply Finset.eq_empty_of_forall_notMem
    intro id hid
    have hlive : (w.phase id).live = true := by
      have hin := hinv.entry id hid
      revert hin
      cases w.phase id <;> simp [Phase.inTable, Phase.live]
    rcases hinv.owned id hlive with ⟨i, hi⟩ | hreq
    · have := hidle i
      rw [hi] at this
      cases this
    · rw [hinv.gone hstate] at hreq
      cases hreq

/-! ### Runs -/

/-- A policy to run with. -/
def somePolicy : Policy where
  program := "worker"
  maxRestarts := 5
  windowSecs := 60
  healthFailuresToKill := 2
  pipe := 65536

/-- The worker starts, and its first child answers the startup ping. -/
def started : List Label :=
  [.monitor .go, .monitor .go, .monitor (.spawn none), .monitor .go, .monitor .go, .register 1, .lock 1, .write 1 100,
    .read 0 100, .answer 0 ⟨1, some (.bool true), none⟩, .take 0, .give 0, .recv 1, .monitor .go, .monitor .go]

theorem World.Reachable.run {ls : List Label} : World.Reachable policy (run (World.exec policy) .init ls) :=
  ⟨.init, ls, .inl rfl, rfl⟩

/-- A call that is answered. -/
theorem correlated_answered : Correlated somePolicy (run (World.exec somePolicy) .init
    (started ++ [.call 0 (.ok 10), .look 0, .begin 0, .register 2, .lock 2, .write 2 100,
      .answer 0 ⟨2, some (.bool true), none⟩, .take 0, .give 0, .recv 2, .finish 0])) :=
  correlated somePolicy World.Reachable.run

/-- A request that is too long for the wire is refused as if the worker had answered with an error. -/
theorem refused_unsent : ¬ ∀ w, World.Reachable somePolicy w → ∀ i x e, w.calls i = .done x (.error (.remote e)) →
    ∃ id c, x = some id ∧ Answered w c id (.error (.remote e)) := by
  intro hclaim
  obtain ⟨id, c, hx, -⟩ := hclaim (run (World.exec somePolicy) .init
    (started ++ [.call 0 (.ok maxLineBytes), .look 0, .begin 0])) World.Reachable.run 0 none _ rfl
  cases hx

end AgentRuntime.Workers
