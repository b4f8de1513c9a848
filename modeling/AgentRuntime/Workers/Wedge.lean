import AgentRuntime.Lib.Transition
import AgentRuntime.Workers.Correlated

/-!
# `Workers.Wedge` — a hung child and the monitor

`Inner::send` writes a line while it holds the lock of the child's input, and a write into a full pipe waits for the
child to read. So a caller with a long line can hold the lock for as long as the child does not read, and the monitor,
whose pings and whose closing of the input take the same lock, waits with it: no step but the child's own lets it go on
(`wedged_by_call`). Where every line that the monitor has to wait for fits the room of the pipe, it never waits so
(`never_wedged`).
-/

namespace AgentRuntime.Workers

open Machine Transition

variable {w : World} {policy : Policy}

/-! ## Waiting on the child -/

/-- Where the monitor thread stands, in its own request included. -/
def World.position (w : World) : MonitorPc × Option Phase := (w.monitor, w.monitor.request?.map w.phase)

/-- **The monitor waits on the child**: whatever the supervisor's threads do, it stays where it is. -/
def Wedged (policy : Policy) (w : World) : Prop :=
  ∀ ls : List Label, (∀ l ∈ ls, l.ofChild = false) → (run (World.exec policy) w ls).position = w.position

/-- The monitor's next step takes the lock of the handle. -/
def World.AtHandle (w : World) : Prop :=
  w.monitor = .opening ∨ w.monitor = .closing ∨ (∃ requested, w.monitor = .leaving requested) ∨
    ∃ id bytes, w.monitor.request? = some id ∧ w.phase id = .registered bytes

/-- The monitor is about to lock the handle, or holds it. -/
def World.UsesHandle (w : World) : Prop :=
  w.AtHandle ∨ ∃ id c rest, w.monitor.request? = some id ∧ w.phase id = .writing c rest

/-- What is left of the line that is being written fits the room of the pipe. -/
def Room (policy : Policy) (w : World) : Prop :=
  ∀ id c rest, w.phase id = .writing c rest → (w.children c).reading = true → rest ≤ policy.pipe - (w.children c).fill

/-- **What the monitor waits for fits.** A line that is begun while the monitor is at the handle, its own lines included,
    fits the room of the pipe; and so does what is left of a line when the monitor comes to the handle. -/
def Fits (policy : Policy) (w : World) : Label → Prop
  | .lock id => w.AtHandle → ∀ bytes c, w.phase id = .registered bytes → w.stdin = some c →
      (w.children c).reading = true → bytes + 1 ≤ policy.pipe - (w.children c).fill
  | .register id => w.monitor.request? = some id → Room policy w
  | .monitor m => (w.step policy m).AtHandle → Room policy w
  | _ => True

/-- The worlds of the runs in which what the monitor waits for fits. -/
def World.FitReachable (policy : Policy) : World → Prop :=
  Reach (fun w => w = .init ∨ w = .unsupervised) fun w l w' => Fits policy w l ∧ w' = w.exec policy l

theorem World.FitReachable.inv (h : World.FitReachable policy w) : Inv w := by
  apply Reach.invariant _ _ h
  · rintro w (rfl | rfl)
    · exact inv_init
    · exact inv_unsupervised
  · rintro w l w' hinv ⟨-, rfl⟩
    exact hinv.exec l

/-! ## The monitor at the handle has room -/

/-- While the monitor uses the handle, what is being written fits. -/
def Clear (policy : Policy) (w : World) : Prop := w.UsesHandle → Room policy w

namespace Room

/-- A phase that is not a write changes. -/
theorem setPhase (h : Room policy w) {w' : World} {id : ℕ} {p : Phase} (hp : p.isWriting = false)
    (hphase : w'.phase = Function.update w.phase id p) (hchildren : w'.children = w.children) : Room policy w' := by
  intro id' c rest hid hread
  rw [hphase] at hid
  rw [hchildren] at hread ⊢
  by_cases hne : id' = id
  · rw [hne, Function.update_self] at hid
    rw [hid] at hp
    cases hp
  · rw [Function.update_of_ne hne] at hid
    exact h id' c rest hid hread

/-- A child changes, and its pipe has no less room. -/
theorem setChild (h : Room policy w) {w' : World} {c : ℕ} {child : Child} (hphase : w'.phase = w.phase)
    (hchildren : w'.children = Function.update w.children c child)
    (hread : child.reading = true → (w.children c).reading = true) (hfill : child.fill ≤ (w.children c).fill) :
    Room policy w' := by
  intro id c' rest hid hr
  rw [hphase] at hid
  rw [hchildren] at hr ⊢
  by_cases hc : c' = c
  · subst hc
    rw [Function.update_self] at hr ⊢
    have := h id c' rest hid (hread hr)
    omega
  · rw [Function.update_of_ne hc] at hr ⊢
    exact h id c' rest hid hr

theorem same (h : Room policy w) {w' : World} (hphase : w'.phase = w.phase) (hchildren : w'.children = w.children) :
    Room policy w' := by
  intro id c rest hid hr
  rw [hphase] at hid
  rw [hchildren] at hr ⊢
  exact h id c rest hid hr

/-- Nothing is being written. -/
theorem of_free (hinv : Inv w) (hholder : w.holder = none) : Room policy w := by
  intro id c rest hid
  have := (hinv.holder id).mpr (by rw [hid]; rfl)
  rw [hholder] at this
  cases this

theorem begin (h : Room policy w) (method : String) (params : Except String ℕ) :
    Room policy (w.begin method params).2 := by
  rcases w.begin_cases method params with ⟨e, heq, -⟩ | ⟨bytes, heq⟩
  · rw [heq]
    exact h.same rfl rfl
  · rw [heq]
    exact h.setPhase (p := .numbered bytes) rfl rfl rfl

theorem afterAsk (h : Room policy w) (a : Ask) (p : Ping) : Room policy (w.afterAsk a p) := by
  unfold World.afterAsk
  split <;> exact h.same rfl rfl

/-- The monitor's own steps write nothing. -/
theorem step (h : Room policy w) (hinv : Inv w) (m : Move) : Room policy (w.step policy m) := by
  unfold World.step
  split
  case h_5 hm =>
    apply Room.of_free
    · exact hinv.spawn hm
    · exact (hinv.closed (by rw [hm]; rfl)).2
  case h_7 a hm =>
    have hbegin := h.begin a.method (.ok 4)
    unfold World.ask
    split
    · rename_i e w' heq
      rw [heq] at hbegin
      exact hbegin.afterAsk a _
    · rename_i id' w' heq
      rw [heq] at hbegin
      exact hbegin.same rfl rfl
  case h_8 a id exited hm =>
    unfold World.asked
    split
    · exact h.afterAsk a _
    · exact h.afterAsk a _
    · split_ifs
      · exact h.setPhase (p := .expired) rfl rfl rfl
      · exact h
    · exact h
  case h_9 a p hm =>
    unfold World.pinged
    split <;> exact h.same rfl rfl
  case h_18 requested hm =>
    exact h.setChild (c := w.spawned - 1) rfl rfl (fun hr => hr) le_rfl
  case h_29 desc old hm =>
    unfold World.restart
    split_ifs <;> exact h.same rfl rfl
  all_goals first | exact h.same rfl rfl | (split_ifs <;> exact h.same rfl rfl)

end Room

/-- The monitor's own steps do not make a request be written. -/
theorem World.step_writing (w : World) (m : Move) (id : ℕ) :
    (w.step policy m).phase id = w.phase id ∨ ((w.step policy m).phase id).isWriting = false := by
  have hupdate (p : Phase) (id' : ℕ) (hp : p.isWriting = false) :
      Function.update w.phase id' p id = w.phase id ∨ (Function.update w.phase id' p id).isWriting = false := by
    by_cases hne : id = id'
    · rw [hne, Function.update_self]
      exact .inr hp
    · exact .inl (Function.update_of_ne hne ..)
  have hafter (w : World) (a : Ask) (p : Ping) : (w.afterAsk a p).phase = w.phase := by
    unfold World.afterAsk
    split <;> rfl
  unfold World.step
  split
  case h_7 a hm =>
    unfold World.ask
    rcases w.begin_cases a.method (.ok 4) with ⟨e, heq, -⟩ | ⟨bytes, heq⟩
    · rw [heq]
      exact .inl (congrFun (hafter _ a _) id)
    · rw [heq]
      exact hupdate (.numbered bytes) (w.ids + 1) rfl
  case h_8 a id' exited hm =>
    unfold World.asked
    split
    · exact .inl (congrFun (hafter _ a _) id)
    · exact .inl (congrFun (hafter _ a _) id)
    · split_ifs
      · exact hupdate .expired id' rfl
      · exact .inl rfl
    · exact .inl rfl
  case h_9 a p hm =>
    unfold World.pinged
    split <;> exact .inl rfl
  case h_29 desc old hm =>
    unfold World.restart
    split_ifs <;> exact .inl rfl
  all_goals first | exact .inl rfl | (split_ifs <;> exact .inl rfl)

/-- The monitor does not come to use the handle by a change of another request's phase. -/
theorem World.UsesHandle.of_setPhase {w w' : World} (h : w'.UsesHandle) {id : ℕ} {p : Phase}
    (hmonitor : w'.monitor = w.monitor) (hphase : w'.phase = Function.update w.phase id p)
    (hown : w.monitor.request? = some id → ((∃ bytes, p = .registered bytes) ∨ p.isWriting = true) → w.UsesHandle) :
    w.UsesHandle := by
  rcases h with (ho | hc | hl | ⟨id', bytes, hreq, hid⟩) | ⟨id', c, rest, hreq, hid⟩
  · exact .inl (.inl (hmonitor ▸ ho))
  · exact .inl (.inr (.inl (hmonitor ▸ hc)))
  · exact .inl (.inr (.inr (.inl (hmonitor ▸ hl))))
  · rw [hmonitor] at hreq
    rw [hphase] at hid
    by_cases hne : id' = id
    · subst hne
      rw [Function.update_self] at hid
      exact hown hreq (.inl ⟨bytes, hid⟩)
    · rw [Function.update_of_ne hne] at hid
      exact .inl (.inr (.inr (.inr ⟨id', bytes, hreq, hid⟩)))
  · rw [hmonitor] at hreq
    rw [hphase] at hid
    by_cases hne : id' = id
    · subst hne
      rw [Function.update_self] at hid
      exact hown hreq (.inr (by rw [hid]; rfl))
    · rw [Function.update_of_ne hne] at hid
      exact .inr ⟨id', c, rest, hreq, hid⟩

theorem World.UsesHandle.of_same {w w' : World} (hmonitor : w'.monitor = w.monitor) (hphase : w'.phase = w.phase)
    (h : w'.UsesHandle) : w.UsesHandle := by
  unfold World.UsesHandle World.AtHandle at h ⊢
  rw [hmonitor, hphase] at h
  exact h

namespace Clear

theorem init : Clear policy .init := by
  rintro - id c rest hid
  cases hid

theorem unsupervised : Clear policy .unsupervised := by
  rintro - id c rest hid
  cases hid

/-- A request leaves a phase for one that has nothing to do with the handle. -/
theorem setPhase (h : Clear policy w) {w' : World} {id : ℕ} {p : Phase} (hp : p.isWriting = false)
    (hregistered : ∀ bytes, p ≠ .registered bytes) (hmonitor : w'.monitor = w.monitor)
    (hphase : w'.phase = Function.update w.phase id p) (hchildren : w'.children = w.children) : Clear policy w' := by
  intro huses
  refine (h (huses.of_setPhase hmonitor hphase ?_)).setPhase hp hphase hchildren
  rintro - (⟨bytes, hb⟩ | hw)
  · exact absurd hb (hregistered bytes)
  · rw [hp] at hw
    cases hw

theorem same (h : Clear policy w) {w' : World} (hmonitor : w'.monitor = w.monitor) (hphase : w'.phase = w.phase)
    (hchildren : w'.children = w.children) : Clear policy w' :=
  fun huses => (h (huses.of_same hmonitor hphase)).same hphase hchildren

theorem setChild (h : Clear policy w) {w' : World} {c : ℕ} {child : Child} (hmonitor : w'.monitor = w.monitor)
    (hphase : w'.phase = w.phase) (hchildren : w'.children = Function.update w.children c child)
    (hread : child.reading = true → (w.children c).reading = true) (hfill : child.fill ≤ (w.children c).fill) :
    Clear policy w' :=
  fun huses => (h (huses.of_same hmonitor hphase)).setChild hphase hchildren hread hfill

/-- The monitor never comes to write but by taking the lock. -/
theorem step (h : Clear policy w) (hinv : Inv w) {m : Move} (hfits : Fits policy w (.monitor m)) :
    Clear policy (w.step policy m) := by
  rintro (hat | ⟨id, c, rest, hreq, hid⟩)
  · exact (hfits hat).step hinv m
  · apply Room.step _ hinv m
    -- the request that is being written now was so before, and was the monitor's
    apply h
    have hbefore : w.phase id = .writing c rest := by
      rcases World.step_writing w m id with heq | hw
      · exact heq.symm.trans hid
      · rw [hid] at hw
        cases hw
    refine .inr ⟨id, c, rest, ?_, hbefore⟩
    rcases hinv.owned id (by rw [hbefore]; rfl) with ⟨i, hi⟩ | hown
    · have hcalls : (w.step policy m).calls i = .requesting id := (congrFun (World.step_calls w m) i).trans hi
      exact absurd (by rw [hcalls]; rfl) (((hinv.step m).asked id hreq).2 i)
    · exact hown

theorem lock (h : Clear policy w) (hinv : Inv w) {id bytes : ℕ} (hfits : Fits policy w (.lock id))
    (hp : w.phase id = .registered bytes) (hholder : w.holder = none) : Clear policy (w.lockStdin id bytes) := by
  unfold World.lockStdin
  split
  · exact h.setPhase rfl (by simp) rfl rfl rfl
  · rename_i c hc
    intro huses
    have hat : w.AtHandle := by
      have hold : w.UsesHandle := by
        refine huses.of_setPhase rfl rfl ?_
        exact fun hreq _ => .inl (.inr (.inr (.inr ⟨id, bytes, hreq, hp⟩)))
      rcases hold with hat | ⟨id', c', rest, -, hw⟩
      · exact hat
      · have := (hinv.holder id').mpr (by rw [hw]; rfl)
        rw [hholder] at this
        cases this
    intro id' c' rest hid hread
    have hid' : Function.update w.phase id (.writing c (bytes + 1)) id' = .writing c' rest := hid
    by_cases hne : id' = id
    · subst hne
      rw [Function.update_self] at hid'
      cases hid'
      have hread' : (Function.update w.children c { w.children c with
          begun := (w.children c).begun ++ [id'] } c).reading = true := hread
      show bytes + 1 ≤ policy.pipe - (Function.update w.children c { w.children c with
          begun := (w.children c).begun ++ [id'] } c).fill
      rw [Function.update_self] at hread' ⊢
      exact hfits hat bytes c hp hc hread'
    · rw [Function.update_of_ne hne] at hid'
      have := (hinv.holder id').mpr (by rw [hid']; rfl)
      rw [hholder] at this
      cases this

theorem write (h : Clear policy w) (hinv : Inv w) {id c rest : ℕ} (hp : w.phase id = .writing c rest) (n : ℕ) :
    Clear policy (w.writeSome policy.pipe id c rest n) := by
  have hnone {p : Phase} {w' : World} (hwait : p.isWriting = false) (hphase : w'.phase = Function.update w.phase id p) :
      Room policy w' := by
    intro id' c' rest' hid
    rw [hphase] at hid
    by_cases hne : id' = id
    · rw [hne, Function.update_self] at hid
      rw [hid] at hwait
      cases hwait
    · rw [Function.update_of_ne hne] at hid
      -- one request is written at a time
      have h₁ := (hinv.holder id').mpr (by rw [hid]; rfl)
      have h₂ := (hinv.holder id).mpr (by rw [hp]; rfl)
      exact absurd (Option.some.inj (h₁.symm.trans h₂)) hne
  unfold World.writeSome
  dsimp only
  split_ifs with hread hall
  · exact fun _ => hnone (p := .waiting) rfl rfl
  · intro huses
    have hroom : Room policy w := by
      apply h
      refine huses.of_setPhase rfl rfl ?_
      exact fun hreq _ => .inr ⟨id, c, rest, hreq, hp⟩
    have hfit := hroom id c rest hp hread
    intro id' c' rest' hid hr
    have hid' : Function.update w.phase id (.writing c (rest - min n (min rest (policy.pipe - (w.children c).fill)))) id' =
        .writing c' rest' := hid
    by_cases hne : id' = id
    · subst hne
      rw [Function.update_self] at hid'
      cases hid'
      show rest - _ ≤ policy.pipe - (Function.update w.children c { w.children c with
        fill := (w.children c).fill + min n (min rest (policy.pipe - (w.children c).fill)) } c).fill
      rw [Function.update_self]
      dsimp only
      omega
    · rw [Function.update_of_ne hne] at hid'
      have h₁ := (hinv.holder id').mpr (by rw [hid']; rfl)
      have h₂ := (hinv.holder id).mpr (by rw [hp]; rfl)
      exact absurd (Option.some.inj (h₁.symm.trans h₂)) hne
  · exact fun _ => hnone (p := .refused) rfl rfl

theorem exec (h : Clear policy w) (hinv : Inv w) {l : Label} (hfits : Fits policy w l) : Clear policy (w.exec policy l) := by
  cases l with
  | call i params => simp only [World.exec]; split <;> exact h.same rfl rfl rfl
  | look i =>
      simp only [World.exec]
      split
      · unfold World.look
        split <;> exact h.same rfl rfl rfl
      · exact h
  | late i =>
      simp only [World.exec]
      split
      · unfold World.giveUp
        split <;> exact h.same rfl rfl rfl
      · exact h
  | begin i =>
      simp only [World.exec]
      split
      · rename_i params hi
        have hbegin : Clear policy (w.begin "call" params).2 := by
          rcases w.begin_cases "call" params with ⟨e, heq, -⟩ | ⟨bytes, heq⟩
          · rw [heq]
            exact h.same rfl rfl rfl
          · rw [heq]
            exact h.setPhase (p := .numbered bytes) rfl (by simp) rfl rfl rfl
        unfold World.beginCall
        split
        · rename_i e w' heq
          rw [heq] at hbegin
          exact hbegin.same rfl rfl rfl
        · rename_i id' w' heq
          rw [heq] at hbegin
          exact hbegin.same rfl rfl rfl
      · exact h
  | finish i =>
      simp only [World.exec]
      split
      · split
        · exact h.same rfl rfl rfl
        · exact h
      · exact h
  | register id =>
      simp only [World.exec]
      split
      · rename_i bytes hp
        by_cases hreq : w.monitor.request? = some id
        · intro _
          exact (hfits hreq).setPhase (p := .registered bytes) rfl rfl rfl
        · intro huses
          refine (h (huses.of_setPhase rfl rfl ?_)).setPhase (p := .registered bytes) rfl rfl rfl
          exact fun hreq' _ => absurd hreq' hreq
      · exact h
  | lock id =>
      simp only [World.exec]
      split
      · rename_i bytes hp
        split_ifs with hholder
        · exact h.lock hinv hfits hp hholder
        · exact h
      · exact h
  | write id n =>
      simp only [World.exec]
      split
      · rename_i c rest hp
        exact h.write hinv hp n
      · exact h
  | forget id =>
      simp only [World.exec]
      split
      · exact h.setPhase (p := .ended _) rfl (by simp) rfl rfl rfl
      · exact h.setPhase (p := .ended _) rfl (by simp) rfl rfl rfl
      · exact h
  | recv id =>
      simp only [World.exec]
      split
      · exact h.setPhase (p := .ended _) rfl (by simp) rfl rfl rfl
      · exact h
  | timeout id =>
      simp only [World.exec]
      split
      · exact h.setPhase (p := .expired) rfl (by simp) rfl rfl rfl
      · exact h
  | monitor m => exact h.step hinv hfits
  | shutdown => exact h.same rfl rfl rfl
  | take c =>
      simp only [World.exec]
      split
      · exact h.setChild (c := c) rfl rfl rfl (fun hr => hr) le_rfl
      · exact h
  | give c =>
      simp only [World.exec]
      split
      · exact h.setChild (c := c) rfl rfl rfl (fun hr => hr) le_rfl
      · exact h
  | exit c status =>
      simp only [World.exec]
      split_ifs
      · exact h.setChild (c := c) rfl rfl rfl (fun hr => hr) le_rfl
      · exact h
  | close c => exact h.setChild (c := c) rfl rfl rfl (fun hr => by cases hr) le_rfl
  | read c n => exact h.setChild (c := c) rfl rfl rfl (fun hr => hr) (Nat.sub_le ..)
  | answer c resp =>
      simp only [World.exec]
      split_ifs
      · exact h.setChild (c := c) rfl rfl rfl (fun hr => hr) le_rfl
      · exact h

end Clear

theorem World.FitReachable.clear (h : World.FitReachable policy w) : Clear policy w := by
  have hboth : Inv w ∧ Clear policy w := by
    apply Reach.invariant (P := fun w => Inv w ∧ Clear policy w) _ _ h
    · rintro w (rfl | rfl)
      · exact ⟨inv_init, Clear.init⟩
      · exact ⟨inv_unsupervised, Clear.unsupervised⟩
    · rintro w l w' ⟨hinv, hclear⟩ ⟨hfits, rfl⟩
      exact ⟨hinv.exec l, hclear.exec hinv hfits⟩
  exact hboth.2

/-! ## Waiting on the child, by its cause -/

/-- A line that does not fit is being written, and the monitor needs the handle; or the line is the monitor's own, and
    the pipe is full. -/
def Blocked (policy : Policy) (w : World) : Prop :=
  ∃ id c rest, w.phase id = .writing c rest ∧ (w.children c).reading = true ∧
    policy.pipe - (w.children c).fill < rest ∧
    (w.AtHandle ∨ (w.monitor.request? = some id ∧ policy.pipe ≤ (w.children c).fill))

theorem Clear.not_blocked (h : Clear policy w) : ¬ Blocked policy w := by
  rintro ⟨id, c, rest, hid, hread, hlong, hat | ⟨hreq, -⟩⟩
  · exact absurd (h (.inl hat) id c rest hid hread) (not_le.mpr hlong)
  · exact absurd (h (.inr ⟨id, c, rest, hreq, hid⟩) id c rest hid hread) (not_le.mpr hlong)

namespace Blocked

/-- A request of a monitor that waits on the child waits for the lock, or is being written. -/
theorem request (h : Blocked policy w) {id : ℕ} (hreq : w.monitor.request? = some id) :
    (∃ bytes, w.phase id = .registered bytes) ∨ (w.phase id).isWriting = true := by
  obtain ⟨id', c, rest, hid, -, -, (ho | hc | ⟨requested, hl⟩ | ⟨m, bytes, hm, hb⟩) | ⟨hm, -⟩⟩ := h
  · rw [ho] at hreq
    cases hreq
  · rw [hc] at hreq
    cases hreq
  · rw [hl] at hreq
    cases hreq
  · rw [hm] at hreq
    cases hreq
    exact .inl ⟨bytes, hb⟩
  · rw [hm] at hreq
    cases hreq
    exact .inr (by rw [hid]; rfl)

/-- Steps that touch neither the monitor nor what is being written. -/
theorem keep (h : Blocked policy w) {w' : World} (hmonitor : w'.monitor = w.monitor)
    (hphase : ∀ id, (w.phase id).isWriting = true ∨ w.monitor.request? = some id → w'.phase id = w.phase id)
    (hchild : ∀ c, (w'.children c).reading = (w.children c).reading ∧ (w'.children c).fill = (w.children c).fill) :
    Blocked policy w' ∧ w'.position = w.position := by
  constructor
  · obtain ⟨id, c, rest, hid, hread, hlong, hwhy⟩ := h
    refine ⟨id, c, rest, (hphase id (.inl (by rw [hid]; rfl))).trans hid, (hchild c).1.trans hread, ?_, ?_⟩
    · rw [(hchild c).2]
      exact hlong
    · rcases hwhy with (ho | hc | hl | ⟨m, bytes, hm, hb⟩) | ⟨hm, hfull⟩
      · exact .inl (.inl (hmonitor.trans ho))
      · exact .inl (.inr (.inl (hmonitor.trans hc)))
      · exact .inl (.inr (.inr (.inl (hmonitor ▸ hl))))
      · exact .inl (.inr (.inr (.inr ⟨m, bytes, hmonitor ▸ hm, (hphase m (.inr hm)).trans hb⟩)))
      · exact .inr ⟨hmonitor ▸ hm, (hchild c).2.symm ▸ hfull⟩
  · unfold World.position
    rw [hmonitor]
    cases hm : w.monitor.request? with
    | none => rfl
    | some id =>
        show (w.monitor, some (w'.phase id)) = (w.monitor, some (w.phase id))
        rw [hphase id (.inr hm)]

/-- A request that neither is written nor belongs to the monitor changes its phase. -/
theorem setPhase (h : Blocked policy w) {w' : World} {id : ℕ} {p : Phase} (hold : (w.phase id).isWriting = false)
    (hregistered : ∀ bytes, w.phase id ≠ .registered bytes) (hmonitor : w'.monitor = w.monitor)
    (hphase : w'.phase = Function.update w.phase id p) (hchildren : w'.children = w.children) :
    Blocked policy w' ∧ w'.position = w.position := by
  apply h.keep hmonitor
  · intro id' hwhy
    rw [hphase]
    apply Function.update_of_ne
    rintro rfl
    rcases hwhy with hw | hreq
    · rw [hold] at hw
      cases hw
    · rcases h.request hreq with ⟨bytes, hb⟩ | hw
      · exact hregistered bytes hb
      · rw [hold] at hw
        cases hw
  · intro c
    rw [hchildren]
    exact ⟨rfl, rfl⟩

theorem same (h : Blocked policy w) {w' : World} (hmonitor : w'.monitor = w.monitor) (hphase : w'.phase = w.phase)
    (hchild : ∀ c, (w'.children c).reading = (w.children c).reading ∧ (w'.children c).fill = (w.children c).fill) :
    Blocked policy w' ∧ w'.position = w.position :=
  h.keep hmonitor (fun id _ => congrFun hphase id) hchild

/-- The handle is locked. -/
theorem held (h : Blocked policy w) (hinv : Inv w) : w.holder ≠ none := by
  obtain ⟨id, c, rest, hid, -⟩ := h
  have := (hinv.holder id).mpr (by rw [hid]; rfl)
  rw [this]
  simp

/-- The monitor has no step. -/
theorem step (h : Blocked policy w) (hinv : Inv w) (m : Move) : w.step policy m = w := by
  have hheld := h.held hinv
  have hrequest (id : ℕ) (hreq : w.monitor.request? = some id) :
      (∃ bytes, w.phase id = .registered bytes) ∨ (w.phase id).isWriting = true := h.request hreq
  obtain ⟨id, c, rest, hid, -, -, hwhy⟩ := h
  have hasked {a : Ask} {id' : ℕ} {exited : Bool} (hm : w.monitor = .asked a id' exited) : w.step policy m = w := by
    have hno : w.asked a id' exited = w := by
      unfold World.asked
      rcases hrequest id' (by rw [hm]; rfl) with ⟨bytes, hb⟩ | hw
      · rw [hb]
      · cases hp : w.phase id' <;> rw [hp] at hw <;> cases hw
    unfold World.step
    rw [hm]
    cases m <;> first | exact hno | rfl
  rcases hwhy with (ho | hc | ⟨requested, hl⟩ | ⟨id', bytes, hreq, hb⟩) | ⟨hreq, -⟩
  · unfold World.step
    rw [ho]
    cases m <;> first | exact if_neg hheld | rfl
  · unfold World.step
    rw [hc]
    cases m <;> first | exact if_neg hheld | rfl
  · unfold World.step
    rw [hl]
    cases m <;> first | exact if_neg hheld | rfl
  · cases hm : w.monitor <;> rw [hm] at hreq <;> cases hreq
    exact hasked hm
  · cases hm : w.monitor <;> rw [hm] at hreq <;> cases hreq
    exact hasked hm

/-- The line that is being written stays too long, and the monitor stays where it is. -/
theorem write (h : Blocked policy w) (hinv : Inv w) {id c rest : ℕ} (hp : w.phase id = .writing c rest) (n : ℕ) :
    Blocked policy (w.writeSome policy.pipe id c rest n) ∧
      (w.writeSome policy.pipe id c rest n).position = w.position := by
  obtain ⟨id', c', rest', hid, hread, hlong, hwhy⟩ := h
  -- the request that is being written is the one of the handle's lock
  have hsame : id' = id := by
    have h₁ := (hinv.holder id').mpr (by rw [hid]; rfl)
    have h₂ := (hinv.holder id).mpr (by rw [hp]; rfl)
    exact Option.some.inj (h₁.symm.trans h₂)
  subst hsame
  rw [hp] at hid
  cases hid
  have hfew : min n (min rest (policy.pipe - (w.children c).fill)) ≠ rest := by omega
  unfold World.writeSome
  dsimp only
  rw [if_pos hread, if_neg hfew]
  generalize hk : min n (min rest (policy.pipe - (w.children c).fill)) = k at hfew
  have hself : (Function.update w.phase id' (.writing c (rest - k))) id' = .writing c (rest - k) := Function.update_self ..
  have hchild : Function.update w.children c { w.children c with fill := (w.children c).fill + k } c =
      { w.children c with fill := (w.children c).fill + k } := Function.update_self ..
  constructor
  · refine ⟨id', c, rest - k, hself, ?_, ?_, ?_⟩
    · show (Function.update w.children c { w.children c with fill := (w.children c).fill + k } c).reading = true
      rw [hchild]
      exact hread
    · show policy.pipe - (Function.update w.children c
        { w.children c with fill := (w.children c).fill + k } c).fill < rest - k
      rw [hchild]
      dsimp only
      omega
    · rcases hwhy with (ho | hc | hl | ⟨m, bytes, hm, hb⟩) | ⟨hm, hfull⟩
      · exact .inl (.inl ho)
      · exact .inl (.inr (.inl hc))
      · exact .inl (.inr (.inr (.inl hl)))
      · refine .inl (.inr (.inr (.inr ⟨m, bytes, hm, ?_⟩)))
        have hne : m ≠ id' := by
          rintro rfl
          rw [hp] at hb
          cases hb
        exact (Function.update_of_ne hne ..).trans hb
      · refine .inr ⟨hm, ?_⟩
        show policy.pipe ≤ (Function.update w.children c
          { w.children c with fill := (w.children c).fill + k } c).fill
        rw [hchild]
        exact hfull.trans (Nat.le_add_right ..)
  · unfold World.position
    show (w.monitor, w.monitor.request?.map (Function.update w.phase id' (.writing c (rest - k)))) =
      (w.monitor, w.monitor.request?.map w.phase)
    cases hm : w.monitor.request? with
    | none => rfl
    | some m =>
        show (w.monitor, some (Function.update w.phase id' (.writing c (rest - k)) m)) = (w.monitor, some (w.phase m))
        by_cases hne : m = id'
        · -- its own line: the pipe is full, and nothing was written
          subst hne
          have hzero : k = 0 := by
            rcases hwhy with (ho | hc | ⟨requested, hl⟩ | ⟨m', bytes, hm', hb⟩) | ⟨-, hfull⟩
            · rw [ho] at hm
              cases hm
            · rw [hc] at hm
              cases hm
            · rw [hl] at hm
              cases hm
            · rw [hm] at hm'
              cases hm'
              rw [hp] at hb
              cases hb
            · omega
          rw [hself, hp, hzero, Nat.sub_zero]
        · rw [Function.update_of_ne hne]

theorem exec (h : Blocked policy w) (hinv : Inv w) {l : Label} (hl : l.ofChild = false) :
    Blocked policy (w.exec policy l) ∧ (w.exec policy l).position = w.position := by
  have hsame {w' : World} (hmonitor : w'.monitor = w.monitor) (hphase : w'.phase = w.phase)
      (hchildren : w'.children = w.children) : Blocked policy w' ∧ w'.position = w.position :=
    h.same hmonitor hphase fun c => by rw [hchildren]; exact ⟨rfl, rfl⟩
  have hstay : Blocked policy w ∧ w.position = w.position := ⟨h, rfl⟩
  have hhand {w' : World} {c : ℕ} {child : Child} (hmonitor : w'.monitor = w.monitor) (hphase : w'.phase = w.phase)
      (hchildren : w'.children = Function.update w.children c child) (hread : child.reading = (w.children c).reading)
      (hfill : child.fill = (w.children c).fill) : Blocked policy w' ∧ w'.position = w.position := by
    apply h.same hmonitor hphase
    intro c'
    rw [hchildren]
    by_cases hc : c' = c
    · subst hc
      rw [Function.update_self]
      exact ⟨hread, hfill⟩
    · rw [Function.update_of_ne hc]
      exact ⟨rfl, rfl⟩
  cases l with
  | call i params =>
      simp only [World.exec]
      split
      · exact hsame rfl rfl rfl
      · exact hstay
  | look i =>
      simp only [World.exec]
      split
      · unfold World.look
        split
        · exact hsame rfl rfl rfl
        · exact hsame rfl rfl rfl
        · exact hsame rfl rfl rfl
        · exact hstay
        · exact hstay
      · exact hstay
  | late i =>
      simp only [World.exec]
      split
      · unfold World.giveUp
        split
        · exact hsame rfl rfl rfl
        · exact hsame rfl rfl rfl
        · exact hstay
      · exact hstay
  | begin i =>
      simp only [World.exec]
      split
      · rename_i params hi
        unfold World.beginCall
        rcases w.begin_cases "call" params with ⟨e, heq, -⟩ | ⟨bytes, heq⟩
        · rw [heq]
          exact hsame rfl rfl rfl
        · rw [heq]
          have hfresh : w.phase (w.ids + 1) = .unborn := hinv.fresh _ (Nat.lt_succ_self _)
          exact h.setPhase (p := .numbered bytes) (by rw [hfresh]; rfl) (by simp [hfresh]) rfl rfl rfl
      · exact hstay
  | finish i =>
      simp only [World.exec]
      split
      · split
        · exact hsame rfl rfl rfl
        · exact hstay
      · exact hstay
  | register id =>
      simp only [World.exec]
      split
      · rename_i bytes hp
        exact h.setPhase (p := .registered bytes) (by rw [hp]; rfl) (by simp [hp]) rfl rfl rfl
      · exact hstay
  | lock id =>
      simp only [World.exec]
      split
      · rw [if_neg (h.held hinv)]
        exact hstay
      · exact hstay
  | write id n =>
      simp only [World.exec]
      split
      · rename_i c rest hp
        exact h.write hinv hp n
      · exact hstay
  | forget id =>
      simp only [World.exec]
      split
      · rename_i hp
        exact h.setPhase (p := .ended _) (by rw [hp]; rfl) (by simp [hp]) rfl rfl rfl
      · rename_i hp
        exact h.setPhase (p := .ended _) (by rw [hp]; rfl) (by simp [hp]) rfl rfl rfl
      · exact hstay
  | recv id =>
      simp only [World.exec]
      split
      · rename_i reply hp hc
        exact h.setPhase (p := .ended _) (by rw [hp]; rfl) (by simp [hp]) rfl rfl rfl
      · exact hstay
  | timeout id =>
      simp only [World.exec]
      split
      · rename_i hp hc
        exact h.setPhase (p := .expired) (by rw [hp]; rfl) (by simp [hp]) rfl rfl rfl
      · exact hstay
  | monitor m =>
      show Blocked policy (w.step policy m) ∧ (w.step policy m).position = w.position
      rw [h.step hinv m]
      exact hstay
  | shutdown => exact hsame rfl rfl rfl
  | take c =>
      simp only [World.exec]
      split
      · exact hhand (c := c) rfl rfl rfl rfl rfl
      · exact hstay
  | give c =>
      simp only [World.exec]
      split
      · exact hhand (c := c) rfl rfl rfl rfl rfl
      · exact hstay
  | exit c status => cases hl
  | close c => cases hl
  | read c n => cases hl
  | answer c resp => cases hl

/-- **A monitor that needs the handle of a line that does not fit waits on the child.** -/
theorem wedged (h : Blocked policy w) (hinv : Inv w) : Wedged policy w := by
  intro ls hls
  have hrun : ∀ (ls : List Label) (w' : World), (∀ l ∈ ls, l.ofChild = false) → Inv w' → Blocked policy w' →
      (run (World.exec policy) w' ls).position = w'.position := by
    intro ls
    induction ls with
    | nil => exact fun w' _ _ _ => rfl
    | cons l ls ih =>
        intro w' hls hinv' hblocked
        obtain ⟨hnext, hpos⟩ := hblocked.exec hinv' (hls l (List.mem_cons_self ..))
        rw [run_cons, ih _ (fun l' hl' => hls l' (List.mem_cons_of_mem _ hl')) (hinv'.exec l) hnext]
        exact hpos
  exact hrun ls w hls hinv h

end Blocked

/-! ## A monitor with room goes on -/

/-- Some steps of the supervisor's threads let the monitor go on. -/
def Moves (policy : Policy) (w : World) : Prop :=
  ∃ ls : List Label, (∀ l ∈ ls, l.ofChild = false) ∧ (run (World.exec policy) w ls).position ≠ w.position

theorem Moves.not_wedged (h : Moves policy w) : ¬ Wedged policy w := by
  obtain ⟨ls, hls, hne⟩ := h
  exact fun hw => hne (hw ls hls)

/-- The monitor leaves its place in one step. -/
theorem Moves.of_monitor {m : Move} (h : (w.step policy m).monitor ≠ w.monitor) : Moves policy w := by
  refine ⟨[.monitor m], by simp [Label.ofChild], fun hpos => h ?_⟩
  exact congrArg Prod.fst hpos

/-- The request of the monitor goes on in one step. -/
theorem Moves.of_request {l : Label} {id : ℕ} (hl : l.ofChild = false) (hreq : w.monitor.request? = some id)
    (hmonitor : (w.exec policy l).monitor = w.monitor) (hphase : (w.exec policy l).phase id ≠ w.phase id) :
    Moves policy w := by
  refine ⟨[l], by simpa using hl, fun hpos => hphase ?_⟩
  have hsnd : (w.exec policy l).monitor.request?.map (w.exec policy l).phase = w.monitor.request?.map w.phase :=
    congrArg Prod.snd hpos
  rw [hmonitor, hreq] at hsnd
  exact Option.some.inj hsnd

/-- Whoever holds the handle gives it back by a step of its own, when what it writes fits. -/
theorem holder_returns (hinv : Inv w) (hroom : Room policy w) (hheld : w.holder ≠ none) :
    ∃ id rest, w.holder = some id ∧ (w.exec policy (.write id rest)).holder = none ∧
      (w.exec policy (.write id rest)).monitor = w.monitor ∧ (w.exec policy (.write id rest)).stdin = w.stdin ∧
      ∀ id' ≠ id, (w.exec policy (.write id rest)).phase id' = w.phase id' := by
  obtain ⟨id, hid⟩ := Option.ne_none_iff_exists'.mp hheld
  have hw := (hinv.holder id).mp hid
  cases hp : w.phase id with
  | writing c rest =>
      refine ⟨id, rest, hid, ?_⟩
      simp only [World.exec, hp]
      unfold World.writeSome
      dsimp only
      split_ifs with hread hall
      · exact ⟨rfl, rfl, rfl, fun id' hne => Function.update_of_ne hne ..⟩
      · have := hroom id c rest hp hread
        omega
      · exact ⟨rfl, rfl, rfl, fun id' hne => Function.update_of_ne hne ..⟩
  | unborn | numbered | registered | refused | waiting | expired | ended =>
      rw [hp] at hw
      cases hw

/-- A step that only waits for the lock is made. -/
theorem Moves.of_lock (hinv : Inv w) (hroom : Room policy w)
    (hgo : ∀ w' : World, w'.monitor = w.monitor → w'.holder = none → (w'.step policy .go).monitor ≠ w.monitor) :
    Moves policy w := by
  by_cases hheld : w.holder = none
  · exact Moves.of_monitor (hgo w rfl hheld)
  · obtain ⟨id, rest, -, hfree, hmonitor, -, -⟩ := holder_returns hinv hroom hheld
    refine ⟨[.write id rest, .monitor .go], by simp [Label.ofChild], fun hpos => ?_⟩
    exact hgo _ hmonitor hfree (congrArg Prod.fst hpos)

/-- The monitor in a request goes on. -/
theorem moves_asked (hinv : Inv w) (hclear : Clear policy w) {a : Ask} {id : ℕ} {exited : Bool}
    (hm : w.monitor = .asked a id exited) : Moves policy w := by
  have hreq : w.monitor.request? = some id := by
    rw [hm]
    rfl
  cases hp : w.phase id with
  | unborn => exact absurd hp (hinv.asked id hreq).1
  | numbered bytes =>
      apply Moves.of_request (l := .register id) rfl hreq
      · simp only [World.exec, hp]
        rfl
      · simp only [World.exec, hp]
        show Function.update w.phase id _ id ≠ _
        rw [Function.update_self]
        simp
  | registered bytes =>
      -- the lock comes free first
      have hlock {w' : World} (hm' : w'.monitor = w.monitor) (hp' : w'.phase id = .registered bytes)
          (hfree : w'.holder = none) : (w'.exec policy (.lock id)).position ≠ w.position := by
        have hnext : (w'.exec policy (.lock id)).monitor = w'.monitor ∧
            (w'.exec policy (.lock id)).phase id ≠ .registered bytes := by
          simp only [World.exec, hp', if_pos hfree]
          unfold World.lockStdin
          split
          · refine ⟨rfl, ?_⟩
            show Function.update w'.phase id _ id ≠ _
            rw [Function.update_self]
            simp
          · refine ⟨rfl, ?_⟩
            show Function.update w'.phase id _ id ≠ _
            rw [Function.update_self]
            simp
        intro hpos
        have hsnd : (w'.exec policy (.lock id)).monitor.request?.map (w'.exec policy (.lock id)).phase =
            w.monitor.request?.map w.phase := congrArg Prod.snd hpos
        rw [hnext.1, hm', hreq] at hsnd
        exact hnext.2 ((Option.some.inj hsnd).trans hp)
      by_cases hheld : w.holder = none
      · exact ⟨[.lock id], by simp [Label.ofChild], hlock rfl hp hheld⟩
      · have hroom : Room policy w := hclear (.inl (.inr (.inr (.inr ⟨id, bytes, hreq, hp⟩))))
        obtain ⟨h, rest, hh, hfree, hmonitor, -, hphase⟩ := holder_returns hinv hroom hheld
        have hne : id ≠ h := by
          rintro rfl
          have := (hinv.holder id).mp hh
          rw [hp] at this
          cases this
        exact ⟨[.write h rest, .lock id], by simp [Label.ofChild],
          hlock hmonitor ((hphase id hne).trans hp) hfree⟩
  | writing c rest =>
      have hroom : Room policy w := hclear (.inr ⟨id, c, rest, hreq, hp⟩)
      apply Moves.of_request (l := .write id rest) rfl hreq
      · simp only [World.exec, hp]
        unfold World.writeSome
        dsimp only
        split_ifs <;> rfl
      · simp only [World.exec, hp]
        unfold World.writeSome
        dsimp only
        split_ifs with hread hall
        · show Function.update w.phase id _ id ≠ _
          rw [Function.update_self]
          simp
        · have := hroom id c rest hp hread
          omega
        · show Function.update w.phase id _ id ≠ _
          rw [Function.update_self]
          simp
  | refused =>
      apply Moves.of_request (l := .forget id) rfl hreq
      · simp only [World.exec, hp]
        rfl
      · simp only [World.exec, hp]
        show Function.update w.phase id _ id ≠ _
        rw [Function.update_self]
        simp
  | expired =>
      apply Moves.of_request (l := .forget id) rfl hreq
      · simp only [World.exec, hp]
        rfl
      · simp only [World.exec, hp]
        show Function.update w.phase id _ id ≠ _
        rw [Function.update_self]
        simp
  | waiting =>
      cases hc : w.channel id with
      | some r =>
          apply Moves.of_request (l := .recv id) rfl hreq
          · simp only [World.exec, hp, hc]
            rfl
          · simp only [World.exec, hp, hc]
            show Function.update w.phase id _ id ≠ _
            rw [Function.update_self]
            simp
      | none =>
          apply Moves.of_request (l := .timeout id) rfl hreq
          · simp only [World.exec, hp, hc]
            rfl
          · simp only [World.exec, hp, hc]
            show Function.update w.phase id _ id ≠ _
            rw [Function.update_self]
            simp
  | ended r =>
      apply Moves.of_monitor (m := .go)
      have hafter (p : Ping) : (w.afterAsk a p).monitor ≠ w.monitor := by
        unfold World.afterAsk
        rw [hm]
        split <;> simp [World.goto]
      unfold World.step
      rw [hm]
      show (w.asked a id exited).monitor ≠ _
      unfold World.asked
      rw [hp, ← hm]
      cases r with
      | ok v => exact hafter _
      | error e => exact hafter _

/-- **A monitor that has not returned goes on**, where what it waits for fits. -/
theorem moves (hinv : Inv w) (hclear : Clear policy w) (hlive : w.monitor ≠ .returned) : Moves policy w := by
  cases hm : w.monitor with
  | returned => exact absurd hm hlive
  | asked a id exited => exact moves_asked hinv hclear hm
  | opening =>
      apply Moves.of_lock hinv (hclear (.inl (.inl hm)))
      intro w' hm' hfree
      simp [World.step, hm', hm, hfree]
  | closing =>
      apply Moves.of_lock hinv (hclear (.inl (.inr (.inl hm))))
      intro w' hm' hfree
      simp [World.step, hm', hm, hfree]
  | leaving requested =>
      apply Moves.of_lock hinv (hclear (.inl (.inr (.inr (.inl ⟨requested, hm⟩)))))
      intro w' hm' hfree
      simp [World.step, hm', hm, hfree]
  | head =>
      apply Moves.of_monitor (m := .go)
      simp only [World.step, hm, World.goto]
      split <;> simp
  | stopping => exact Moves.of_monitor (m := .go) (by simp [World.step, hm])
  | starting => exact Moves.of_monitor (m := .go) (by simp [World.step, hm])
  | spawning => exact Moves.of_monitor (m := .spawn none) (by simp [World.step, hm])
  | asking a =>
      apply Moves.of_monitor (m := .go)
      simp only [World.step, hm]
      unfold World.ask
      split
      · unfold World.afterAsk
        split <;> simp [World.goto]
      · simp [World.goto]
  | pinged a p =>
      apply Moves.of_monitor (m := .go)
      simp only [World.step, hm]
      unfold World.pinged
      split
      · simp [World.goto]
      · simp
      · simp only [World.goto]
        split <;> simp
      · simp [World.goto]
      · simp only [World.goto]
        split <;> simp
      · simp [World.goto]
  | unready =>
      apply Moves.of_monitor (m := .go)
      simp only [World.step, hm]
      split_ifs <;> simp [World.goto]
  | running misses =>
      apply Moves.of_monitor (m := .go)
      simp only [World.step, hm, World.goto]
      split <;> simp
  | sleeping misses =>
      apply Moves.of_monitor (m := .late)
      simp only [World.step, hm, World.goto]
      split <;> simp
  | due misses => exact Moves.of_monitor (m := .go) (by simp [World.step, hm, World.goto])
  | condemned misses =>
      apply Moves.of_monitor (m := .go)
      simp only [World.step, hm]
      split_ifs <;> simp [World.goto]
  | killing requested => exact Moves.of_monitor (m := .go) (by simp [World.step, hm, World.kill, World.goto])
  | grace =>
      apply Moves.of_monitor (m := .late)
      simp only [World.step, hm, World.goto]
      split <;> simp
  | reaping requested => exact Moves.of_monitor (m := .go) (by simp [World.step, hm, World.goto])
  | draining requested desc => exact Moves.of_monitor (m := .go) (by simp [World.step, hm])
  | failing requested desc ids =>
      by_cases hempty : ids = ∅
      · exact Moves.of_monitor (m := .go) (by simp [World.step, hm, hempty, World.goto])
      · obtain ⟨id, hid⟩ := Finset.nonempty_of_ne_empty hempty
        apply Moves.of_monitor (m := .fail id)
        simp only [World.step, hm, if_pos hid]
        intro heq
        have hids : ids.erase id = ids := by
          injection heq
        have hin : id ∈ ids.erase id := by
          rw [hids]
          exact hid
        exact Finset.notMem_erase id ids hin
  | deciding requested desc =>
      apply Moves.of_monitor (m := .go)
      simp only [World.step, hm, World.goto]
      split <;> simp
  | restarting desc =>
      apply Moves.of_monitor (m := .restart 0)
      simp only [World.step, hm]
      unfold World.restart
      split_ifs <;> simp
  | backoff =>
      apply Moves.of_monitor (m := .late)
      simp only [World.step, hm, World.goto]
      split <;> simp

/-! ## The supervisor and a hung child -/

/-- **The monitor never waits on the child** in the worlds of the runs in which what it waits for fits. -/
theorem never_wedged (policy : Policy) {w : World} (h : World.FitReachable policy w) (hlive : w.monitor ≠ .returned) :
    ¬ Wedged policy w := (moves h.inv h.clear hlive).not_wedged

theorem World.FitReachable.next (h : World.FitReachable policy w) (l : Label) (hfits : Fits policy w l) :
    World.FitReachable policy (w.exec policy l) := Reach.next h ⟨hfits, rfl⟩

/-- With the lock free, only the start of a line has to fit. -/
theorem World.FitReachable.free (h : World.FitReachable policy w) (hfree : w.holder = none) (l : Label)
    (hlock : ∀ id, l ≠ .lock id) : World.FitReachable policy (w.exec policy l) := by
  apply h.next
  have hroom : Room policy w := Room.of_free h.inv hfree
  cases l with
  | lock id => exact absurd rfl (hlock id)
  | register id => exact fun _ => hroom
  | monitor m => exact fun _ => hroom
  | call | look | late | begin | finish | write | forget | recv | timeout | shutdown | take | give | exit | close | read
  | answer => trivial

/-- A child is started, and pinged. -/
theorem never_wedged_startup : ¬ Wedged somePolicy (run (World.exec somePolicy) .init
    [.monitor .go, .monitor .go, .monitor (.spawn none), .monitor .go, .monitor .go, .register 1, .lock 1,
      .write 1 100]) := by
  apply never_wedged somePolicy
  · have h₀ : World.FitReachable somePolicy .init := Reach.start (.inl rfl)
    have h₁ := h₀.free rfl (.monitor .go) (by simp)
    have h₂ := h₁.free rfl (.monitor .go) (by simp)
    have h₃ := h₂.free rfl (.monitor (.spawn none)) (by simp)
    have h₄ := h₃.free rfl (.monitor .go) (by simp)
    have h₅ := h₄.free rfl (.monitor .go) (by simp)
    have h₆ := h₅.free rfl (.register 1) (by simp)
    have h₇ := h₆.next (.lock 1) (by
      intro _ bytes c hp hc _
      cases hp
      cases hc
      decide)
    exact h₇.next (.write 1 100) trivial
  · show MonitorPc.asked .startup 1 false ≠ .returned
    simp

/-- A caller writes 70000 bytes to a child that has stopped reading; the next health check waits for the lock, and
    neither a shutdown nor a deadline lets the monitor go on. -/
theorem wedged_by_call : ¬ ∀ w, World.Reachable somePolicy w → ¬ Wedged somePolicy w := by
  intro hclaim
  have hreach : World.Reachable somePolicy (run (World.exec somePolicy) .init
      (started ++ [.call 0 (.ok 70000), .look 0, .begin 0, .register 2, .lock 2, .write 2 70000, .monitor .go,
        .monitor .late, .monitor .late, .monitor .go, .register 3])) := World.Reachable.run
  apply hclaim _ hreach
  apply Blocked.wedged _ hreach.inv
  refine ⟨2, 0, 4499, rfl, rfl, ?_, .inl (.inr (.inr (.inr ⟨3, 38, rfl, rfl⟩)))⟩
  decide

end AgentRuntime.Workers
