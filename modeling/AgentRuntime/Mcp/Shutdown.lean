import AgentRuntime.Mcp.Offered

/-!
# `Mcp.Shutdown` — a shutdown is final

A call holds the connection it read. It is the server's connection still, or it is broken; so once the connections there
are have been closed, no call finds one that works, and no pass makes a new one.
-/

namespace AgentRuntime.Mcp.Host

variable {ops : JsonOps} {shown : McpError → String} {w w' : World}

/-- The connections the servers have. -/
def World.clients (w : World) : List (Option ℕ) := w.entries.map fun e => e.state.client

/-- The connection a call is about to use. -/
def Phase.client? : Phase → Option ℕ
  | .ready _ _ _ _ client => some client
  | _ => none

structure Tracked (w : World) : Prop where
  held : ∀ id c, (w.phase id).client? = some c → w.broken c = true ∨ some c ∈ w.clients
  /-- A server is reconnected only when it has no connection. -/
  reconnects : ∀ i changed, w.pass = .doing i changed .reconnect → w.clients[i]? = some none

/-- The servers are stopped for good. -/
structure Closed (w : World) : Prop where
  stopped : w.stopped = true
  idle : w.pass = .idle
  dead : ∀ c, some c ∈ w.clients → w.broken c = true
  held : ∀ id c, (w.phase id).client? = some c → w.broken c = true

/-! ## The connections -/

theorem rebuildFrom_clients (ops : JsonOps) (broken : ℕ → Bool) (i : ℕ) (entries : List Entry)
    (next : List (String × Route)) :
    (rebuildFrom ops broken i entries next).1.map (fun e => e.state.client) = entries.map fun e => e.state.client := by
  induction entries generalizing i next with
  | nil => rfl
  | cons e entries ih => simp [rebuildFrom, ih]

theorem getElem?_clients_setState (w : World) (i k : ℕ) (f : EntryState → EntryState) :
    (w.setState i f).clients[k]? = w.entries[k]?.map fun e =>
      if i = k then (f e.state).client else e.state.client := by
  unfold World.clients World.setState
  rw [List.getElem?_map, List.getElem?_modify]
  cases w.entries[k]? with
  | none => rfl
  | some e =>
      by_cases hk : i = k
      · simp [hk]
      · simp [hk]

/-- Another server's connection stays. -/
theorem mem_clients_setState {i : ℕ} {f : EntryState → EntryState} {c : ℕ} (h : some c ∈ w.clients)
    (hf : ∀ e, w.entries[i]? = some e → e.state.client = some c → (f e.state).client = some c) :
    some c ∈ (w.setState i f).clients := by
  obtain ⟨k, hk⟩ := List.mem_iff_getElem?.mp h
  unfold World.clients at hk
  rw [List.getElem?_map] at hk
  obtain ⟨e, he, hclient⟩ := Option.map_eq_some_iff.mp hk
  refine List.mem_iff_getElem?.mpr ⟨k, ?_⟩
  rw [getElem?_clients_setState, he, Option.map_some]
  by_cases hik : i = k
  · subst hik
    rw [if_pos rfl, hf e he hclient]
  · rw [if_neg hik, hclient]

theorem relisted_client (result : Except String (List Listed)) (st : EntryState) :
    (st.relisted result).client = st.client := by
  cases result with
  | ok _ => rfl
  | error _ => rfl

/-! ## The steps -/

theorem Tracked.of_same (h : Tracked w) (hclients : w'.clients = w.clients)
    (hbroken : ∀ c, w.broken c = true → w'.broken c = true)
    (hpass : ∀ i changed, w'.pass = .doing i changed .reconnect → w.pass = .doing i changed .reconnect)
    (hphase : ∀ id, (w'.phase id).client? = (w.phase id).client? ∨ (w'.phase id).client? = none) : Tracked w' := by
  constructor
  · intro id c hc
    rw [hclients]
    rcases hphase id with heq | hnone
    · exact (h.held id c (heq ▸ hc)).imp_left (hbroken c)
    · rw [hnone] at hc
      cases hc
  · intro i changed hdoing
    rw [hclients]
    exact h.reconnects i changed (hpass i changed hdoing)

theorem Tracked.setPhase (h : Tracked w) (id : ℕ) {p : Phase} (hp : ∀ c, p.client? = some c → some c ∈ w.clients) :
    Tracked (w.setPhase id p) := by
  refine ⟨?_, h.reconnects⟩
  intro id' c hc
  change (Function.update w.phase id p id').client? = some c at hc
  by_cases hid : id' = id
  · subst hid
    rw [Function.update_self] at hc
    exact .inr (hp c hc)
  · rw [Function.update_of_ne hid] at hc
    exact h.held id' c hc

theorem look_client (w : World) (j : Job) : (w.look ops j).client? = none := by
  unfold World.look
  repeat' split
  all_goals rfl

theorem card_client (w : World) (j : Job) : (w.card ops j).client? = none := by
  unfold World.card
  split
  · rfl
  · rfl

theorem lookUp_client (w : World) (j : Job) (call : Loop.ToolCall) (on : Warrant) :
    (w.lookUp ops j call on).client? = none := by
  unfold World.lookUp
  repeat' split
  all_goals rfl

theorem connect_client {j : Job} {call : Loop.ToolCall} {on : Warrant} {route : Route} {c : ℕ}
    (h : (w.connect j call on route).client? = some c) : some c ∈ w.clients := by
  unfold World.connect at h
  split at h
  · cases h
  · rename_i e he
    split at h
    · cases h
    · rename_i c' hc'
      cases h
      refine List.mem_iff_getElem?.mpr ⟨route.entry, ?_⟩
      unfold World.clients
      rw [List.getElem?_map, he, Option.map_some, hc']

theorem Tracked.quiet (h : Tracked w) (id : ℕ) {p : Phase} (hp : p.client? = none) : Tracked (w.setPhase id p) := by
  refine h.setPhase id ?_
  intro c hc
  rw [hp] at hc
  cases hc

theorem Tracked.step (h : Tracked w) (id : ℕ) (stopped : Bool) : Tracked (w.step ops id stopped) := by
  unfold World.step
  split
  · exact h.quiet id (look_client w _)
  · exact h.quiet id (card_client w _)
  · refine h.quiet id ?_
    split
    · rfl
    · rfl
  · exact h.quiet id (lookUp_client w _ _ _)
  · exact h.setPhase id fun c hc => connect_client hc
  · unfold World.send
    repeat' split
    all_goals first
      | exact h.quiet id rfl
      | exact (h.quiet id (p := .sent _ _) rfl).of_same rfl (fun _ hc => hc) (fun _ _ hd => hd) fun _ => .inl rfl
  · exact h

theorem Tracked.visit (h : Tracked w) (i : ℕ) (changed : Bool) : Tracked (w.visit ops i changed) := by
  unfold World.visit
  split
  · split
    · exact h.of_same (rebuildFrom_clients ops w.broken 0 w.entries []) (fun _ hc => hc) (fun _ _ => nofun)
        fun _ => .inl rfl
    · exact h.of_same rfl (fun _ hc => hc) (fun _ _ => nofun) fun _ => .inl rfl
  · rename_i e he
    split
    · rename_i c hc
      split
      · rename_i hbroken
        -- the dead connection is dropped, and whoever holds it knows
        refine ⟨?_, fun _ _ => nofun⟩
        intro id c' hc'
        rcases h.held id c' hc' with hdead | hmem
        · exact .inl hdead
        · by_cases hcc : c' = c
          · exact .inl (hcc ▸ hbroken)
          · refine .inr (mem_clients_setState hmem ?_)
            intro e' he' hclient
            rw [he] at he'
            cases he'
            rw [hc] at hclient
            exact absurd (Option.some.inj hclient).symm hcc
      · split
        · exact h.of_same rfl (fun _ hc => hc) (fun _ _ hd => by cases hd) fun _ => .inl rfl
        · exact h.of_same rfl (fun _ hc => hc) (fun _ _ => nofun) fun _ => .inl rfl
    · rename_i hnone
      split
      · refine ⟨h.held, ?_⟩
        intro i' changed' hdoing
        cases hdoing
        show w.clients[i]? = some none
        unfold World.clients
        rw [List.getElem?_map, he, Option.map_some, hnone]
      · exact h.of_same rfl (fun _ hc => hc) (fun _ _ => nofun) fun _ => .inl rfl

theorem Tracked.listed (h : Tracked w) {i : ℕ} {changed : Bool} {what : Doing} (hpass : w.pass = .doing i changed what)
    (result : Except String (List Listed)) : Tracked (w.listed i what result) := by
  have hkeep : ∀ {f : EntryState → EntryState},
      (∀ e c, w.entries[i]? = some e → e.state.client = some c → (f e.state).client = some c) →
        ∀ id c, (w.phase id).client? = some c → w.broken c = true ∨ some c ∈ (w.setState i f).clients := by
    intro f hf id c hc
    exact (h.held id c hc).imp_right fun hmem => mem_clients_setState hmem fun e he => hf e c he
  unfold World.listed
  split
  · refine ⟨hkeep ?_, fun _ _ => nofun⟩
    intro e c _ hc
    rw [relisted_client]
    exact hc
  · refine ⟨hkeep ?_, fun _ _ => nofun⟩
    intro e c he hc
    have hnone := h.reconnects i changed hpass
    unfold World.clients at hnone
    rw [List.getElem?_map, he, Option.map_some, hc] at hnone
    cases hnone

theorem Tracked.exec (h : Tracked w) (l : Label) : Tracked (w.exec ops shown l) := by
  cases l with
  | maintain =>
      dsimp only [World.exec]
      split
      · split
        · exact h
        · exact h.of_same rfl (fun _ hc => hc) (fun _ _ => nofun) fun _ => .inl rfl
      · exact h
  | visit =>
      dsimp only [World.exec]
      split
      · exact h.visit _ _
      · exact h
  | listed result =>
      dsimp only [World.exec]
      split
      · rename_i i changed what hpass
        exact h.listed hpass result
      · exact h
  | stop => exact h.of_same rfl (fun _ hc => hc) (fun _ _ hd => hd) fun _ => .inl rfl
  | close =>
      dsimp only [World.exec]
      split
      · split
        · refine h.of_same rfl (fun c hc => ?_) (fun _ _ hd => hd) fun _ => .inl rfl
          show (w.broken c || _) = true
          rw [hc, Bool.true_or]
        · exact h
      · exact h
  | breaks c =>
      refine h.of_same rfl (fun c' hc' => ?_) (fun _ _ hd => hd) fun _ => .inl rfl
      show Function.update w.broken c true c' = true
      by_cases hcc : c' = c
      · rw [hcc, Function.update_self]
      · rw [Function.update_of_ne hcc, hc']
  | announces c => exact h.of_same rfl (fun _ hc => hc) (fun _ _ hd => hd) fun _ => .inl rfl
  | tick time => exact h.of_same rfl (fun _ hc => hc) (fun _ _ hd => hd) fun _ => .inl rfl
  | call j =>
      have hfirst : (if j.reason.isSome then Phase.looking j else .running j j.call .direct).client? = none := by
        split
        · rfl
        · rfl
      exact (h.quiet w.jobs hfirst).of_same rfl (fun _ hc => hc) (fun _ _ hd => hd) fun _ => .inl rfl
  | step id stopped => exact h.step id stopped
  | answer id result =>
      dsimp only [World.exec]
      split
      · split
        · exact (h.quiet id rfl).of_same rfl (fun _ hc => hc) (fun _ _ hd => hd) fun _ => .inl rfl
        · exact h.quiet id rfl
      · exact h
  | result id result =>
      dsimp only [World.exec]
      split
      · exact h.quiet id rfl
      · exact h

theorem Tracked.closed (h : Tracked w) (hstopped : w.stopped = true) (hidle : w.pass = .idle) : Closed w.closeAll := by
  have hdead : ∀ c, some c ∈ w.clients → (w.broken c || decide (some c ∈ w.clients)) = true := by
    intro c hc
    rw [decide_eq_true hc, Bool.or_true]
  refine ⟨hstopped, hidle, hdead, ?_⟩
  intro id c hc
  rcases h.held id c hc with hbroken | hmem
  · show (w.broken c || _) = true
    rw [hbroken, Bool.true_or]
  · exact hdead c hmem

/-- Nothing was sent, and no server was connected to. -/
structure Quiet (w w' : World) : Prop where
  sent : w'.sent = w.sent
  connections : w'.connections = w.connections

theorem Closed.of_same (h : Closed w) (hstopped : w'.stopped = true) (hpass : w'.pass = .idle)
    (hclients : w'.clients = w.clients) (hbroken : ∀ c, w.broken c = true → w'.broken c = true)
    (hphase : ∀ id c, (w'.phase id).client? = some c → (w.phase id).client? = some c ∨ some c ∈ w.clients) :
    Closed w' := by
  refine ⟨hstopped, hpass, ?_, ?_⟩
  · intro c hc
    rw [hclients] at hc
    exact hbroken c (h.dead c hc)
  · intro id c hc
    rcases hphase id c hc with hheld | hmem
    · exact hbroken c (h.held id c hheld)
    · exact hbroken c (h.dead c hmem)

theorem Closed.setPhase (h : Closed w) (id : ℕ) {p : Phase} (hp : ∀ c, p.client? = some c → some c ∈ w.clients) :
    Closed (w.setPhase id p) := by
  refine h.of_same h.stopped h.idle rfl (fun _ hc => hc) ?_
  intro id' c hc
  change (Function.update w.phase id p id').client? = some c at hc
  by_cases hid : id' = id
  · subst hid
    rw [Function.update_self] at hc
    exact .inr (hp c hc)
  · rw [Function.update_of_ne hid] at hc
    exact .inl hc

theorem Closed.quiet (h : Closed w) (id : ℕ) {p : Phase} (hp : p.client? = none) :
    Closed (w.setPhase id p) ∧ Quiet w (w.setPhase id p) := by
  refine ⟨h.setPhase id ?_, rfl, rfl⟩
  intro c hc
  rw [hp] at hc
  cases hc

theorem Closed.step (h : Closed w) (id : ℕ) (stopped : Bool) :
    Closed (w.step ops id stopped) ∧ Quiet w (w.step ops id stopped) := by
  unfold World.step
  split
  · exact h.quiet id (look_client w _)
  · exact h.quiet id (card_client w _)
  · refine h.quiet id ?_
    split
    · rfl
    · rfl
  · exact h.quiet id (lookUp_client w _ _ _)
  · exact ⟨h.setPhase id fun c hc => connect_client hc, rfl, rfl⟩
  · rename_i j call on route client hphase
    have hdead : w.broken client = true := h.held id client (by rw [hphase]; rfl)
    unfold World.send
    split
    · exact h.quiet id rfl
    · split
      · exact h.quiet id rfl
      · exact h.quiet id rfl
  · exact ⟨h, rfl, rfl⟩

theorem Closed.exec (h : Closed w) (l : Label) : Closed (w.exec ops shown l) ∧ Quiet w (w.exec ops shown l) := by
  cases l with
  | maintain =>
      dsimp only [World.exec]
      rw [h.idle]
      simp only [h.stopped, if_true]
      exact ⟨h, rfl, rfl⟩
  | visit =>
      dsimp only [World.exec]
      rw [h.idle]
      exact ⟨h, rfl, rfl⟩
  | listed result =>
      dsimp only [World.exec]
      rw [h.idle]
      exact ⟨h, rfl, rfl⟩
  | stop => exact ⟨h.of_same rfl h.idle rfl (fun _ hc => hc) fun _ _ hc => .inl hc, rfl, rfl⟩
  | close =>
      dsimp only [World.exec]
      rw [h.idle]
      simp only [h.stopped, if_true]
      refine ⟨h.of_same h.stopped h.idle rfl (fun c hc => ?_) fun _ _ hc => .inl hc, rfl, rfl⟩
      show (w.broken c || _) = true
      rw [hc, Bool.true_or]
  | breaks c =>
      refine ⟨h.of_same h.stopped h.idle rfl (fun c' hc' => ?_) fun _ _ hc => .inl hc, rfl, rfl⟩
      show Function.update w.broken c true c' = true
      by_cases hcc : c' = c
      · rw [hcc, Function.update_self]
      · rw [Function.update_of_ne hcc, hc']
  | announces c => exact ⟨h.of_same h.stopped h.idle rfl (fun _ hc => hc) fun _ _ hc => .inl hc, rfl, rfl⟩
  | tick time => exact ⟨h.of_same h.stopped h.idle rfl (fun _ hc => hc) fun _ _ hc => .inl hc, rfl, rfl⟩
  | call j =>
      have hfirst : (if j.reason.isSome then Phase.looking j else .running j j.call .direct).client? = none := by
        split
        · rfl
        · rfl
      obtain ⟨hclosed, -⟩ := h.quiet w.jobs hfirst
      exact ⟨hclosed.of_same hclosed.stopped hclosed.idle rfl (fun _ hc => hc) fun _ _ hc => .inl hc, rfl, rfl⟩
  | step id stopped => exact h.step id stopped
  | answer id result =>
      dsimp only [World.exec]
      split
      · split
        · obtain ⟨hclosed, -⟩ := h.quiet id (p := .allowed _ _) rfl
          exact ⟨hclosed.of_same hclosed.stopped hclosed.idle rfl (fun _ hc => hc) fun _ _ hc => .inl hc, rfl, rfl⟩
        · exact h.quiet id rfl
      · exact ⟨h, rfl, rfl⟩
  | result id result =>
      dsimp only [World.exec]
      split
      · exact h.quiet id rfl
      · exact ⟨h, rfl, rfl⟩

end AgentRuntime.Mcp.Host
