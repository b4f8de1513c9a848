import AgentRuntime.Mcp.Offered

/-!
# `Mcp.Sends` — what is put to a server, and on whose word

A call is put to a server once, with the definition the session was offered. A call after taint runs on the member's
word, with the arguments on the card; or its definition was found changed, and then was put back before the call looked
its route up.
-/

namespace AgentRuntime.Mcp.Host

open Loop (ToolCall ToolOutcome)

variable {ops : JsonOps} {shown : McpError → String} {cfgs : List ServerConfig} {w w' : World}

/-! ## What holds of a call at each point -/

/-- The card shows the call. -/
structure Shows (ops : JsonOps) (j : Job) (card : CallApproval) : Prop where
  callId : card.callId = j.call.id
  tool : card.tool = j.call.name
  arguments : ∃ args, parseArgs ops j.call.arguments = .ok args ∧ card.arguments = ops.text args

/-- The definition of the tool is not the one that was offered. -/
def World.Differs (ops : JsonOps) (w : World) (j : Job) : Prop :=
  ∃ o, j.offer j.call.name = some o ∧ ∀ r, w.route j.call.name = some r → o.same ops r.spec = false

/-- What the call runs on is so. -/
def Holds (ops : JsonOps) (w : World) (id : ℕ) (j : Job) (call : ToolCall) : Warrant → Prop
  | .direct => j.reason = none ∧ call = j.call
  | .allowed card => (id, card) ∈ w.allows ∧ Shows ops j card ∧ call = exactCall j card
  | .differed n => j.reason.isSome ∧ call = j.call ∧ (j.offer j.call.name).isSome ∧ n ≤ w.rebuilds ∧
      (n = w.rebuilds → w.Differs ops j)

/-- The route is one of the offered definition. -/
structure Current (ops : JsonOps) (cfgs : List ServerConfig) (w : World) (j : Job) (on : Warrant) (route : Route) : Prop where
  offered : ∀ o, j.offer j.call.name = some o → o.same ops route.spec = true
  routed : Routed ops cfgs (j.call.name, route)
  since : ∀ n, on = .differed n → n < w.rebuilds

def Phase.Sound (ops : JsonOps) (cfgs : List ServerConfig) (w : World) (id : ℕ) : Phase → Prop
  | .looking j => j.reason.isSome
  | .carding j => j.reason.isSome
  | .asking j card => Shows ops j card
  | .allowed j card => Shows ops j card ∧ (id, card) ∈ w.allows
  | .running j call on => Holds ops w id j call on
  | .routed j call on route => Holds ops w id j call on ∧ Current ops cfgs w j on route
  | .ready j call on route _ => Holds ops w id j call on ∧ Current ops cfgs w j on route
  | .ended outcome => (∀ s, outcome ≠ .ok s) ∧ ∀ s, outcome ≠ .vouched s
  | _ => True

/-- What is known of a call that was put to a server. -/
structure Sent.Sound (ops : JsonOps) (cfgs : List ServerConfig) (w : World) (s : Sent) : Prop where
  current : Current ops cfgs w s.job s.on s.route
  holds : Holds ops w s.id s.job s.call s.on
  args : parseArgs ops s.call.arguments = .ok s.args

/-- Whether the call of this phase may still be put to a server. -/
def Phase.pending : Phase → Bool
  | .unborn => true
  | .sent _ _ => false
  | .ended _ => false
  | _ => true

structure Inv (ops : JsonOps) (cfgs : List ServerConfig) (w : World) : Prop where
  offers : Offers ops cfgs w
  phases : ∀ id, (w.phase id).Sound ops cfgs w id
  sent : ∀ s ∈ w.sent, s.Sound ops cfgs w
  /-- A call that was put to a server is not put there again. -/
  once : (w.sent.map Sent.id).Nodup
  spent : ∀ s ∈ w.sent, (w.phase s.id).pending = false
  fresh : ∀ id, w.jobs ≤ id → w.phase id = .unborn

/-! ## What the other steps leave alone -/

/-- The step keeps the routes or rebuilds them, and keeps what was allowed. -/
structure Later (w w' : World) : Prop where
  rebuilds : w.rebuilds ≤ w'.rebuilds
  routes : w'.rebuilds = w.rebuilds → w'.routes = w.routes
  allows : w.allows ⊆ w'.allows

theorem Holds.later {id : ℕ} {j : Job} {call : ToolCall} {on : Warrant} (h : Holds ops w id j call on)
    (hlater : Later w w') : Holds ops w' id j call on := by
  cases on with
  | direct => exact h
  | allowed card => exact ⟨hlater.allows h.1, h.2⟩
  | differed n =>
      obtain ⟨hreason, hcall, hoffer, hle, hdiffers⟩ := h
      refine ⟨hreason, hcall, hoffer, hle.trans hlater.rebuilds, ?_⟩
      intro heq
      have hsame : w'.rebuilds = w.rebuilds := le_antisymm (heq ▸ hle) hlater.rebuilds
      obtain ⟨o, ho, hroute⟩ := hdiffers (heq.trans hsame)
      refine ⟨o, ho, ?_⟩
      unfold World.route at hroute ⊢
      rw [hlater.routes hsame]
      exact hroute

theorem Current.later {j : Job} {on : Warrant} {route : Route} (h : Current ops cfgs w j on route)
    (hlater : Later w w') : Current ops cfgs w' j on route :=
  ⟨h.offered, h.routed, fun n hn => (h.since n hn).trans_le hlater.rebuilds⟩

theorem Phase.Sound.later {id : ℕ} {p : Phase} (h : p.Sound ops cfgs w id) (hlater : Later w w') :
    p.Sound ops cfgs w' id := by
  cases p with
  | allowed j card => exact ⟨h.1, hlater.allows h.2⟩
  | running j call on => exact Holds.later h hlater
  | routed j call on route => exact ⟨h.1.later hlater, h.2.later hlater⟩
  | ready j call on route client => exact ⟨h.1.later hlater, h.2.later hlater⟩
  | _ => exact h

theorem Sent.Sound.later {s : Sent} (h : s.Sound ops cfgs w) (hlater : Later w w') : s.Sound ops cfgs w' :=
  ⟨h.current.later hlater, h.holds.later hlater, h.args⟩

/-- The table of calls is as it was. -/
theorem Inv.of_later (h : Inv ops cfgs w) (hoffers : Offers ops cfgs w') (hlater : Later w w')
    (hphase : w'.phase = w.phase) (hsent : w'.sent = w.sent) (hjobs : w'.jobs = w.jobs) : Inv ops cfgs w' := by
  refine ⟨hoffers, ?_, ?_, ?_, ?_, ?_⟩
  · rw [hphase]
    exact fun id => (h.phases id).later hlater
  · rw [hsent]
    exact fun s hs => (h.sent s hs).later hlater
  · rw [hsent]
    exact h.once
  · rw [hsent, hphase]
    exact h.spent
  · rw [hjobs, hphase]
    exact h.fresh

/-- One call goes on, and is not put to a server. -/
theorem Inv.of_phase (h : Inv ops cfgs w) (hoffers : Offers ops cfgs w') (hlater : Later w w') {id : ℕ} {p : Phase}
    (hphase : w'.phase = Function.update w.phase id p) (hsent : w'.sent = w.sent) (hjobs : w'.jobs = w.jobs)
    (hlive : (w.phase id).pending = true ∨ p.pending = false) (hborn : w.phase id ≠ .unborn)
    (hp : p.Sound ops cfgs w' id) : Inv ops cfgs w' := by
  refine ⟨hoffers, ?_, ?_, ?_, ?_, ?_⟩
  · intro id'
    rw [hphase]
    by_cases hid : id' = id
    · subst hid
      rw [Function.update_self]
      exact hp
    · rw [Function.update_of_ne hid]
      exact (h.phases id').later hlater
  · rw [hsent]
    exact fun s hs => (h.sent s hs).later hlater
  · rw [hsent]
    exact h.once
  · rw [hsent, hphase]
    intro s hs
    by_cases hid : s.id = id
    · rw [hid, Function.update_self]
      have hspent := h.spent s hs
      rw [hid] at hspent
      exact hlive.resolve_left (by rw [hspent]; exact Bool.false_ne_true)
    · rw [Function.update_of_ne hid]
      exact h.spent s hs
  · rw [hjobs, hphase]
    intro id' hid'
    by_cases hid : id' = id
    · exact absurd (h.fresh id (hid ▸ hid')) hborn
    · rw [Function.update_of_ne hid]
      exact h.fresh id' hid'

theorem SameTable.later (h : SameTable w w') (hallows : w.allows ⊆ w'.allows) : Later w w' :=
  ⟨h.rebuilds.ge, fun _ => h.routes, hallows⟩

/-! ## The steps -/

theorem setPhase_later (w : World) (id : ℕ) (p : Phase) : Later w (w.setPhase id p) :=
  ⟨le_rfl, fun _ => rfl, List.Subset.refl _⟩

theorem needsApproval_sound (w : World) (id : ℕ) : (Phase.ended needsApproval).Sound ops cfgs w id :=
  ⟨fun _ => by unfold needsApproval; exact nofun, fun _ => by unfold needsApproval; exact nofun⟩

theorem error_sound (w : World) (id : ℕ) (e : String) : (Phase.ended (.error e)).Sound ops cfgs w id :=
  ⟨fun _ => nofun, fun _ => nofun⟩

theorem denied_sound (w : World) (id : ℕ) (e : String) : (Phase.ended (.denied e)).Sound ops cfgs w id :=
  ⟨fun _ => nofun, fun _ => nofun⟩

theorem look_sound (w : World) (id : ℕ) {j : Job} (hreason : j.reason.isSome) :
    (w.look ops j).Sound ops cfgs w id := by
  unfold World.look
  split
  · exact needsApproval_sound w id
  · split
    · split
      · exact hreason
      · exact needsApproval_sound w id
    · rename_i offered hoffered
      split
      · exact needsApproval_sound w id
      · rename_i o ho
        split
        · exact hreason
        · rename_i hdiffers
          have hoffer : j.offer j.call.name = some o := by
            unfold Job.offer
            rw [hoffered]
            exact ho
          refine ⟨hreason, rfl, by rw [hoffer]; rfl, le_rfl, fun _ => ⟨o, hoffer, ?_⟩⟩
          intro r hr
          rw [hr, Option.any_some, Spec.same_comm] at hdiffers
          exact eq_false_of_ne_true hdiffers

/-- The card is made of the call, or the call is refused. -/
theorem card_sound (w : World) (id : ℕ) (j : Job) : (w.card ops j).Sound ops cfgs w id := by
  unfold World.card World.approvalFor
  cases w.route j.call.name with
  | none => exact error_sound w id _
  | some route =>
      cases hargs : parseArgs ops j.call.arguments with
      | error e => exact error_sound w id e
      | ok args =>
          simp only
          by_cases hsize : maxReviewArgs < (ops.text args).utf8ByteSize
          · rw [if_pos hsize]
            exact denied_sound w id _
          · rw [if_neg hsize]
            exact ⟨rfl, rfl, args, hargs, rfl⟩

/-- A definition that differed was put back since. -/
theorem Holds.since {id : ℕ} {j : Job} {call : ToolCall} {on : Warrant} (h : Holds ops w id j call on) {route : Route}
    (hroute : w.route j.call.name = some route) (hoffered : ∀ o, j.offer j.call.name = some o → o.same ops route.spec = true)
    (n : ℕ) (hon : on = .differed n) : n < w.rebuilds := by
  subst hon
  obtain ⟨-, -, -, hle, hdiffers⟩ := h
  refine lt_of_le_of_ne hle ?_
  intro heq
  obtain ⟨o, ho, hnone⟩ := hdiffers heq
  have hfalse := hnone route hroute
  rw [hoffered o ho] at hfalse
  cases hfalse

/-- The call has the name it was made with. -/
theorem Holds.name {id : ℕ} {j : Job} {call : ToolCall} {on : Warrant} (h : Holds ops w id j call on) :
    call.name = j.call.name := by
  cases on with
  | direct => rw [h.2]
  | allowed card => rw [h.2.2]; rfl
  | differed n => rw [h.2.1]

theorem lookUp_sound (hoffers : Offers ops cfgs w) {id : ℕ} {j : Job} {call : ToolCall} {on : Warrant}
    (h : Holds ops w id j call on) : (w.lookUp ops j call on).Sound ops cfgs w id := by
  unfold World.lookUp
  split
  · split
    · exact error_sound w id _
    · exact error_sound w id _
  · rename_i route hroute
    split
    · rename_i hsame
      split
      · exact error_sound w id _
      · rw [h.name] at hroute
        have hoffered : ∀ o, j.offer j.call.name = some o → o.same ops route.spec = true := by
          intro o ho
          rw [ho, Option.all_some] at hsame
          exact hsame
        have hmem : (j.call.name, route) ∈ w.routes := by
          obtain ⟨before, after, heq, -⟩ := List.lookup_eq_some_iff.mp hroute
          rw [heq]
          exact List.mem_append_right _ List.mem_cons_self
        exact ⟨h, hoffered, hoffers.routed _ hmem, h.since hroute hoffered⟩
    · exact error_sound w id _

theorem connect_sound {id : ℕ} {j : Job} {call : ToolCall} {on : Warrant} {route : Route}
    (h : Holds ops w id j call on ∧ Current ops cfgs w j on route) :
    (w.connect j call on route).Sound ops cfgs w id := by
  unfold World.connect
  split
  · exact error_sound w id _
  · split
    · exact error_sound w id _
    · exact h

theorem outcomeOf_sound (w : World) (id : ℕ) (cfg : ServerConfig) (route : Route) (result : Except McpError CallResult) :
    (Phase.ended (outcomeOf shown cfg route result)).Sound ops cfgs w id := by
  cases result with
  | error e => exact error_sound w id _
  | ok r =>
      unfold outcomeOf
      simp only
      split
      · exact error_sound w id _
      · exact ⟨fun _ => nofun, fun _ => nofun⟩

/-- A call that is pending goes on. -/
theorem Inv.go (h : Inv ops cfgs w) {id : ℕ} {p q : Phase} (hq : w.phase id = q) (hborn : q ≠ .unborn)
    (hpending : q.pending = true) (hp : p.Sound ops cfgs w id) : Inv ops cfgs (w.setPhase id p) := by
  have hlater := setPhase_later w id p
  refine h.of_phase (h.offers.of_same (.of_entries rfl rfl rfl)) hlater rfl rfl rfl (.inl ?_) ?_ (hp.later hlater)
  · rw [hq]
    exact hpending
  · rw [hq]
    exact hborn

theorem Inv.send (h : Inv ops cfgs w) {id : ℕ} {j : Job} {call : ToolCall} {on : Warrant} {route : Route} {client : ℕ}
    (hphase : w.phase id = .ready j call on route client) (stopped : Bool) :
    Inv ops cfgs (w.send ops id j call on route client stopped) := by
  have hfail : ∀ e, Inv ops cfgs (w.setPhase id (.ended (.error e))) :=
    fun e => h.go hphase nofun rfl (error_sound w id e)
  obtain ⟨hholds, hcurrent⟩ : Holds ops w id j call on ∧ Current ops cfgs w j on route := by
    have hsound := h.phases id
    rw [hphase] at hsound
    exact hsound
  unfold World.send
  split
  · exact hfail _
  · rename_i e he
    split
    · exact hfail _
    · split
      · exact hfail _
      · split
        · exact hfail _
        · rename_i args hargs
          -- the call leaves its phase, and is the last one that was sent
          have hgone := h.go (p := .sent e.cfg route) hphase nofun rfl trivial
          have hnew : ∀ s ∈ w.sent, s.id ≠ id := by
            intro s hs heq
            have hspent := h.spent s hs
            rw [heq, hphase] at hspent
            cases hspent
          have hlater : Later (w.setPhase id (.sent e.cfg route))
              { w.setPhase id (.sent e.cfg route) with
                sent := w.sent ++ [{ id, job := j, call, on, route, client, args }] } :=
            ⟨le_rfl, fun _ => rfl, List.Subset.refl _⟩
          refine ⟨hgone.offers.of_same (.of_entries rfl rfl rfl), fun id' => (hgone.phases id').later hlater, ?_, ?_, ?_,
            hgone.fresh⟩
          · intro s hs
            rcases List.mem_append.mp hs with hs | hs
            · exact (hgone.sent s hs).later hlater
            · rw [List.mem_singleton] at hs
              subst hs
              have hsame := (setPhase_later w id (.sent e.cfg route))
              exact ⟨(hcurrent.later hsame).later hlater, (hholds.later hsame).later hlater, hargs⟩
          · rw [List.map_append, List.map_singleton]
            refine h.once.append (List.nodup_singleton _) (List.disjoint_singleton.mpr ?_)
            intro hmem
            obtain ⟨s, hs, heq⟩ := List.mem_map.mp hmem
            exact hnew s hs heq
          · intro s hs
            rcases List.mem_append.mp hs with hs | hs
            · exact hgone.spent s hs
            · rw [List.mem_singleton] at hs
              subst hs
              show (Function.update w.phase id (Phase.sent e.cfg route) id).pending = false
              rw [Function.update_self]
              rfl

theorem Inv.step (h : Inv ops cfgs w) (id : ℕ) (stopped : Bool) : Inv ops cfgs (w.step ops id stopped) := by
  have hsound := h.phases id
  unfold World.step
  split
  · rename_i j hphase
    rw [hphase] at hsound
    exact h.go hphase nofun rfl (look_sound w id hsound)
  · rename_i j hphase
    exact h.go hphase nofun rfl (card_sound w id j)
  · rename_i j card hphase
    rw [hphase] at hsound
    refine h.go hphase nofun rfl ?_
    split
    · exact denied_sound w id _
    · exact ⟨hsound.2, hsound.1, rfl⟩
  · rename_i j call on hphase
    rw [hphase] at hsound
    exact h.go hphase nofun rfl (lookUp_sound h.offers hsound)
  · rename_i j call on route hphase
    rw [hphase] at hsound
    exact h.go hphase nofun rfl (connect_sound hsound)
  · rename_i j call on route client hphase
    exact h.send hphase stopped
  · exact h

/-- What the host and its servers do leaves the calls as they are. -/
structure SameCalls (w w' : World) : Prop where
  phase : w'.phase = w.phase
  sent : w'.sent = w.sent
  jobs : w'.jobs = w.jobs
  allows : w'.allows = w.allows

theorem visit_calls (w : World) (i : ℕ) (changed : Bool) : SameCalls w (w.visit ops i changed) := by
  unfold World.visit
  split
  · split
    · exact ⟨rfl, rfl, rfl, rfl⟩
    · exact ⟨rfl, rfl, rfl, rfl⟩
  · split
    · split
      · exact ⟨rfl, rfl, rfl, rfl⟩
      · split
        · exact ⟨rfl, rfl, rfl, rfl⟩
        · exact ⟨rfl, rfl, rfl, rfl⟩
    · split
      · exact ⟨rfl, rfl, rfl, rfl⟩
      · exact ⟨rfl, rfl, rfl, rfl⟩

theorem listed_calls (w : World) (i : ℕ) (what : Doing) (result : Except String (List Listed)) :
    SameCalls w (w.listed i what result) := by
  unfold World.listed
  split
  · exact ⟨rfl, rfl, rfl, rfl⟩
  · exact ⟨rfl, rfl, rfl, rfl⟩

theorem Inv.of_calls (h : Inv ops cfgs w) (l : Label) (hcalls : SameCalls w (w.exec ops shown l)) :
    Inv ops cfgs (w.exec ops shown l) := by
  refine h.of_later (h.offers.exec l) ?_ hcalls.phase hcalls.sent hcalls.jobs
  rcases exec_table ops shown w l with hsame | ⟨hrebuilds, -, -⟩
  · exact hsame.later (hcalls.allows ▸ List.Subset.refl _)
  · exact ⟨hrebuilds ▸ Nat.le_succ _, fun heq => absurd heq (by omega), hcalls.allows ▸ List.Subset.refl _⟩

theorem Inv.call (h : Inv ops cfgs w) (j : Job) : Inv ops cfgs (w.exec ops shown (.call j)) := by
  have hlater : Later w (w.exec ops shown (.call j)) := ⟨le_rfl, fun _ => rfl, List.Subset.refl _⟩
  have hfirst : (if j.reason.isSome then Phase.looking j else .running j j.call .direct).Sound ops cfgs w w.jobs := by
    split
    · rename_i hreason
      exact hreason
    · rename_i hreason
      exact ⟨Option.not_isSome_iff_eq_none.mp hreason, rfl⟩
  refine ⟨h.offers.exec _, ?_, fun s hs => (h.sent s hs).later hlater, h.once, ?_, ?_⟩
  · intro id
    show (Function.update w.phase w.jobs _ id).Sound ops cfgs _ id
    by_cases hid : id = w.jobs
    · subst hid
      rw [Function.update_self]
      exact hfirst.later hlater
    · rw [Function.update_of_ne hid]
      exact (h.phases id).later hlater
  · intro s hs
    show (Function.update w.phase w.jobs _ s.id).pending = false
    have hspent := h.spent s hs
    have hid : s.id ≠ w.jobs := by
      intro heq
      rw [heq, h.fresh w.jobs le_rfl] at hspent
      cases hspent
    rw [Function.update_of_ne hid]
    exact hspent
  · intro id hid
    show Function.update w.phase w.jobs _ id = _
    have hlt : w.jobs < id := hid
    rw [Function.update_of_ne (by omega)]
    exact h.fresh id (by omega)

theorem Inv.answer (h : Inv ops cfgs w) (id : ℕ) (result : Except String Unit) :
    Inv ops cfgs (w.exec ops shown (.answer id result)) := by
  have hsound := h.phases id
  dsimp only [World.exec]
  split
  · rename_i j card hphase
    rw [hphase] at hsound
    cases result with
    | error why => exact h.go hphase nofun rfl (denied_sound w id why)
    | ok _ =>
        refine h.of_phase (h.offers.of_same (.of_entries rfl rfl rfl)) ⟨le_rfl, fun _ => rfl, ?_⟩ rfl rfl rfl
          (.inl (by rw [hphase]; rfl)) (by rw [hphase]; exact nofun) ?_
        · exact List.subset_append_left _ _
        · exact ⟨hsound, List.mem_append_right _ List.mem_cons_self⟩
  · exact h

theorem Inv.result (h : Inv ops cfgs w) (id : ℕ) (result : Except McpError CallResult) :
    Inv ops cfgs (w.exec ops shown (.result id result)) := by
  dsimp only [World.exec]
  split
  · rename_i cfg route hphase
    have hlater := setPhase_later w id (.ended (outcomeOf shown cfg route result))
    exact h.of_phase (h.offers.of_same (.of_entries rfl rfl rfl)) hlater rfl rfl rfl (.inr rfl)
      (by rw [hphase]; exact nofun) ((outcomeOf_sound w id cfg route result).later hlater)
  · exact h

theorem Inv.exec (h : Inv ops cfgs w) (l : Label) : Inv ops cfgs (w.exec ops shown l) := by
  cases l with
  | maintain =>
      refine h.of_calls _ ?_
      dsimp only [World.exec]
      split
      · split
        · exact ⟨rfl, rfl, rfl, rfl⟩
        · exact ⟨rfl, rfl, rfl, rfl⟩
      · exact ⟨rfl, rfl, rfl, rfl⟩
  | visit =>
      refine h.of_calls _ ?_
      dsimp only [World.exec]
      split
      · exact visit_calls w _ _
      · exact ⟨rfl, rfl, rfl, rfl⟩
  | listed result =>
      refine h.of_calls _ ?_
      dsimp only [World.exec]
      split
      · exact listed_calls w _ _ result
      · exact ⟨rfl, rfl, rfl, rfl⟩
  | close =>
      refine h.of_calls _ ?_
      dsimp only [World.exec]
      split
      · split
        · exact ⟨rfl, rfl, rfl, rfl⟩
        · exact ⟨rfl, rfl, rfl, rfl⟩
      · exact ⟨rfl, rfl, rfl, rfl⟩
  | stop => exact h.of_calls _ ⟨rfl, rfl, rfl, rfl⟩
  | breaks c => exact h.of_calls _ ⟨rfl, rfl, rfl, rfl⟩
  | announces c => exact h.of_calls _ ⟨rfl, rfl, rfl, rfl⟩
  | tick time => exact h.of_calls _ ⟨rfl, rfl, rfl, rfl⟩
  | call j => exact h.call j
  | step id stopped => exact h.step id stopped
  | answer id result => exact h.answer id result
  | result id result => exact h.result id result

end AgentRuntime.Mcp.Host
