import AgentRuntime.Lib.Distinct
import AgentRuntime.Mcp.Host

/-!
# `Mcp.Offered` — what a session is offered is what its calls reach

The specs of the servers and the routes are rebuilt together, so they agree in every state: a name is offered once, and
leads to the tool and the server its definition was made from.
-/

namespace AgentRuntime.Mcp.Host

variable {ops : JsonOps} {shown : McpError → String} {cfgs : List ServerConfig} {w w' : World}

/-- The route leads to a tool of an allowlisted server, under the name its spec has. -/
structure Routed (ops : JsonOps) (cfgs : List ServerConfig) (r : String × Route) : Prop where
  name : r.1 = r.2.spec.name
  mapped : ∃ sc, cfgs[r.2.entry]? = some sc ∧ Mapped ops sc r.2.tool r.2.spec

/-- The specs are those of the routes, each under its own name. -/
structure Offers (ops : JsonOps) (cfgs : List ServerConfig) (w : World) : Prop where
  configured : w.entries.map Entry.cfg = cfgs
  specs : w.specs = w.routes.map fun r => r.2.spec
  names : (w.routes.map Prod.fst).Nodup
  routed : ∀ r ∈ w.routes, Routed ops cfgs r

/-! ## Rebuilding -/

theorem offerAll_added (ops : JsonOps) (sc : ServerConfig) (i : ℕ) (tools : List Listed) (next : List (String × Route)) :
    ∃ added, (offerAll ops sc i tools next).1 = next ++ added ∧
      (offerAll ops sc i tools next).2.1 = added.map (fun r => r.2.spec) ∧
      ((next.map Prod.fst).Nodup → ((next ++ added).map Prod.fst).Nodup) ∧
      ∀ r ∈ added, r.1 = r.2.spec.name ∧ r.2.entry = i ∧ Mapped ops sc r.2.tool r.2.spec := by
  induction tools generalizing next with
  | nil => exact ⟨[], by simp [offerAll], by simp [offerAll], by simp, by simp⟩
  | cons t tools ih =>
      unfold offerAll
      cases hoffer : offer ops sc t fun name => decide (name ∈ next.map Prod.fst) with
      | error why =>
          obtain ⟨added, hnext, hspecs, hnodup, hmem⟩ := ih next
          exact ⟨added, hnext, hspecs, hnodup, hmem⟩
      | ok spec =>
          obtain ⟨hmapped, hfree⟩ := offer_ok hoffer
          obtain ⟨added, hnext, hspecs, hnodup, hmem⟩ := ih (next ++ [(spec.name, { entry := i, tool := t, spec })])
          refine ⟨(spec.name, { entry := i, tool := t, spec }) :: added, ?_, ?_, ?_, ?_⟩
          · simpa using hnext
          · simpa using hspecs
          · intro hdistinct
            have hnew : ((next ++ [(spec.name, ({ entry := i, tool := t, spec } : Route))]).map Prod.fst).Nodup := by
              rw [List.map_append, List.map_singleton]
              refine hdistinct.append (List.nodup_singleton _) ?_
              exact List.disjoint_singleton.mpr (of_decide_eq_false hfree)
            simpa using hnodup hnew
          · intro r hr
            rcases List.mem_cons.mp hr with rfl | hr
            · exact ⟨rfl, rfl, hmapped⟩
            · exact hmem r hr

theorem rebuildFrom_added (ops : JsonOps) (broken : ℕ → Bool) (before : List ServerConfig) (entries : List Entry)
    (next : List (String × Route)) :
    let built := rebuildFrom ops broken before.length entries next
    built.1.map Entry.cfg = entries.map Entry.cfg ∧
      ∃ added, built.2 = next ++ added ∧
        (built.1.flatMap fun e => e.state.specs) = added.map (fun r => r.2.spec) ∧
        ((next.map Prod.fst).Nodup → ((next ++ added).map Prod.fst).Nodup) ∧
        ∀ r ∈ added, Routed ops (before ++ entries.map Entry.cfg) r := by
  induction entries generalizing before next with
  | nil => exact ⟨rfl, [], by simp [rebuildFrom], by simp [rebuildFrom], by simp, by simp⟩
  | cons e entries ih =>
      obtain ⟨added, hnext, hspecs, hnodup, hmem⟩ := offerAll_added ops e.cfg before.length
        (if connected broken e.state then e.state.listed else []) next
      obtain ⟨hcfgs, more, hrest, hmore, hrestNodup, hmoreMem⟩ := ih (before ++ [e.cfg]) (next ++ added)
      rw [List.length_append, List.length_singleton] at hcfgs hrest hmore
      simp only [rebuildFrom, hnext]
      refine ⟨by simp [hcfgs], added ++ more, ?_, ?_, ?_, ?_⟩
      · rw [hrest, List.append_assoc]
      · rw [List.flatMap_cons, List.map_append, hmore]
        exact congrArg (· ++ _) hspecs
      · intro hdistinct
        rw [← List.append_assoc]
        exact hrestNodup (hnodup hdistinct)
      · intro r hr
        rcases List.mem_append.mp hr with hr | hr
        · obtain ⟨hname, hentry, hmapped⟩ := hmem r hr
          exact ⟨hname, e.cfg, by simp [hentry], hmapped⟩
        · have hrouted := hmoreMem r hr
          rw [List.append_assoc] at hrouted
          exact hrouted

theorem rebuild_offers (ops : JsonOps) (w : World) : Offers ops (w.entries.map Entry.cfg) (w.rebuild ops) := by
  obtain ⟨hcfgs, added, hroutes, hspecs, hnodup, hmem⟩ := rebuildFrom_added ops w.broken [] w.entries []
  refine ⟨hcfgs, ?_, ?_, ?_⟩
  · show (w.rebuild ops).specs = _
    unfold World.specs World.rebuild
    rw [List.nil_append] at hroutes
    exact hspecs.trans (by rw [← hroutes]; rfl)
  · show ((rebuildFrom ops w.broken 0 w.entries []).2.map Prod.fst).Nodup
    have hdistinct := hnodup List.nodup_nil
    rw [← hroutes] at hdistinct
    exact hdistinct
  · intro r hr
    have hin : r ∈ added := by
      rw [List.nil_append] at hroutes
      rw [← hroutes]
      exact hr
    exact hmem r hin

/-! ## Steps -/

/-- What the step leaves alone: the routes, and what of the servers is behind them. -/
structure SameTable (w w' : World) : Prop where
  cfgs : w'.entries.map Entry.cfg = w.entries.map Entry.cfg
  specs : w'.specs = w.specs
  routes : w'.routes = w.routes
  rebuilds : w'.rebuilds = w.rebuilds

theorem SameTable.of_entries (hentries : w'.entries = w.entries) (hroutes : w'.routes = w.routes)
    (hrebuilds : w'.rebuilds = w.rebuilds) : SameTable w w' :=
  ⟨by rw [hentries], by unfold World.specs; rw [hentries], hroutes, hrebuilds⟩

theorem SameTable.trans {w'' : World} (h : SameTable w w') (h' : SameTable w' w'') : SameTable w w'' :=
  ⟨h'.cfgs.trans h.cfgs, h'.specs.trans h.specs, h'.routes.trans h.routes, h'.rebuilds.trans h.rebuilds⟩

theorem Offers.of_same (h : Offers ops cfgs w) (hsame : SameTable w w') : Offers ops cfgs w' := by
  refine ⟨hsame.cfgs.trans h.configured, ?_, ?_, ?_⟩
  · rw [hsame.specs, hsame.routes]
    exact h.specs
  · rw [hsame.routes]
    exact h.names
  · rw [hsame.routes]
    exact h.routed

theorem map_modify_of_eq {α β : Type} {f : α → α} {g : α → β} (h : ∀ a, g (f a) = g a) (l : List α) (i : ℕ) :
    (l.modify i f).map g = l.map g := by
  apply List.ext_getElem?
  intro k
  rw [List.getElem?_map, List.getElem?_map, List.getElem?_modify]
  cases l[k]? with
  | none => rfl
  | some a =>
      by_cases hk : i = k
      · simp [hk, h]
      · simp [hk]

theorem setState_same {i : ℕ} {f : EntryState → EntryState} (hf : ∀ st, (f st).specs = st.specs) :
    SameTable w (w.setState i f) := by
  have hcfgs : (w.setState i f).entries.map Entry.cfg = w.entries.map Entry.cfg :=
    map_modify_of_eq (f := fun e => { e with state := f e.state }) (fun _ => rfl) w.entries i
  refine ⟨hcfgs, ?_, rfl, rfl⟩
  unfold World.specs World.setState
  rw [List.flatMap_def, List.flatMap_def]
  exact congrArg List.flatten (map_modify_of_eq (fun e => hf e.state) w.entries i)

theorem relisted_specs (result : Except String (List Listed)) (st : EntryState) :
    (st.relisted result).specs = st.specs := by
  cases result with
  | ok _ => rfl
  | error _ => rfl

theorem reconnected_specs (client : ℕ) (now : Duration) (result : Except String (List Listed)) (st : EntryState) :
    (st.reconnected client now result).specs = st.specs := by
  cases result with
  | ok _ => rfl
  | error _ => rfl

theorem step_same (id : ℕ) (stopped : Bool) : SameTable w (w.step ops id stopped) := by
  unfold World.step
  split
  all_goals first
    | exact .of_entries rfl rfl rfl
    | skip
  unfold World.send
  split
  · exact .of_entries rfl rfl rfl
  · split
    · exact .of_entries rfl rfl rfl
    · split
      · exact .of_entries rfl rfl rfl
      · split
        · exact .of_entries rfl rfl rfl
        · exact .of_entries rfl rfl rfl

/-- A step leaves the routes alone or rebuilds them. -/
theorem exec_table (ops : JsonOps) (shown : McpError → String) (w : World) (l : Label) :
    SameTable w (w.exec ops shown l) ∨
      (w.exec ops shown l).rebuilds = w.rebuilds + 1 ∧
        (w.exec ops shown l).entries = (w.rebuild ops).entries ∧ (w.exec ops shown l).routes = (w.rebuild ops).routes := by
  have hsame : ∀ {w' : World}, w'.entries = w.entries → w'.routes = w.routes → w'.rebuilds = w.rebuilds →
      SameTable w w' := fun h h' h'' => .of_entries h h' h''
  cases l with
  | maintain =>
      refine .inl ?_
      dsimp only [World.exec]
      split
      · split
        · exact hsame rfl rfl rfl
        · exact hsame rfl rfl rfl
      · exact hsame rfl rfl rfl
  | visit =>
      dsimp only [World.exec]
      split
      · unfold World.visit
        split
        · split
          · exact .inr ⟨rfl, rfl, rfl⟩
          · exact .inl (hsame rfl rfl rfl)
        · split
          · split
            · exact .inl ((setState_same (f := EntryState.drop w.clock) fun _ => rfl).trans
                (.of_entries rfl rfl rfl))
            · split
              · exact .inl (hsame rfl rfl rfl)
              · exact .inl (hsame rfl rfl rfl)
          · split
            · exact .inl (hsame rfl rfl rfl)
            · exact .inl (hsame rfl rfl rfl)
      · exact .inl (hsame rfl rfl rfl)
  | listed result =>
      refine .inl ?_
      dsimp only [World.exec]
      split
      · unfold World.listed
        split
        · exact (setState_same (relisted_specs result)).trans (.of_entries rfl rfl rfl)
        · exact (setState_same (reconnected_specs w.connections w.clock result)).trans (.of_entries rfl rfl rfl)
      · exact hsame rfl rfl rfl
  | close =>
      refine .inl ?_
      dsimp only [World.exec]
      split
      · split
        · exact hsame rfl rfl rfl
        · exact hsame rfl rfl rfl
      · exact hsame rfl rfl rfl
  | step id stopped => exact .inl (step_same id stopped)
  | answer id result =>
      refine .inl ?_
      dsimp only [World.exec]
      split
      · split
        · exact hsame rfl rfl rfl
        · exact hsame rfl rfl rfl
      · exact hsame rfl rfl rfl
  | result id result =>
      refine .inl ?_
      dsimp only [World.exec]
      split
      · exact hsame rfl rfl rfl
      · exact hsame rfl rfl rfl
  | stop => exact .inl (hsame rfl rfl rfl)
  | breaks c => exact .inl (hsame rfl rfl rfl)
  | announces c => exact .inl (hsame rfl rfl rfl)
  | tick time => exact .inl (hsame rfl rfl rfl)
  | call j => exact .inl (hsame rfl rfl rfl)

theorem Offers.exec (h : Offers ops cfgs w) (l : Label) : Offers ops cfgs (w.exec ops shown l) := by
  rcases exec_table ops shown w l with hsame | ⟨-, hentries, hroutes⟩
  · exact h.of_same hsame
  · have hbuilt := rebuild_offers ops w
    rw [h.configured] at hbuilt
    refine ⟨?_, ?_, ?_, ?_⟩
    · rw [hentries]
      exact hbuilt.configured
    · unfold World.specs
      rw [hentries, hroutes]
      exact hbuilt.specs
    · rw [hroutes]
      exact hbuilt.names
    · rw [hroutes]
      exact hbuilt.routed

theorem connectAll_cfgs (i : ℕ) (servers : List (ServerConfig × Except String (List Listed))) :
    (connectAll i servers).map Entry.cfg = servers.map Prod.fst := by
  induction servers generalizing i with
  | nil => rfl
  | cons server servers ih =>
      rcases server with ⟨cfg, result⟩
      cases result with
      | ok tools => simp [connectAll, ih]
      | error e => simp [connectAll, ih]

theorem after_offers (ops : JsonOps) (shown : McpError → String) (servers : List (ServerConfig × Except String (List Listed))) (ls : List Label) :
    Offers ops (servers.map Prod.fst) (World.after ops shown servers ls) := by
  refine Machine.invariant ?_ (fun _ l h => h.exec l) ls
  have hbuilt := rebuild_offers ops
    { entries := connectAll 0 servers
      routes := []
      stopped := false
      pass := .idle
      connections := servers.length
      broken := fun _ => false
      announced := fun _ => false
      clock := 0
      rebuilds := 0
      jobs := 0
      phase := fun _ => .unborn
      allows := []
      sent := [] }
  rw [connectAll_cfgs] at hbuilt
  exact hbuilt

/-- A spec that is offered leads to the tool it was made from. -/
theorem Offers.found (h : Offers ops cfgs w) {s : Spec} (hs : s ∈ w.specs) :
    ∃ r, w.route s.name = some r ∧ r.spec = s ∧ ∃ sc, cfgs[r.entry]? = some sc ∧ Mapped ops sc r.tool s := by
  rw [h.specs] at hs
  obtain ⟨⟨name, r⟩, hr, rfl⟩ := List.mem_map.mp hs
  have hrouted := h.routed _ hr
  exact ⟨r, Distinct.lookup_of_nodup h.names (hrouted.name ▸ hr), rfl, hrouted.mapped⟩

theorem Offers.names_nodup (h : Offers ops cfgs w) : (w.specs.map fun s => s.name).Nodup := by
  have heq : (w.specs.map fun s => s.name) = w.routes.map Prod.fst := by
    rw [h.specs, List.map_map]
    exact List.map_congr_left fun r hr => (h.routed r hr).name.symm
  rw [heq]
  exact h.names

/-- **Offers.** In every state of the host each name is offered once, in the reserved name space; it leads to a tool of an
    allowlisted server, whose definition is the one offered; what the tool returns is untrusted, and it may write only
    if its server may. -/
theorem offered_tools_routed (ops : JsonOps) (shown : McpError → String)
    (servers : List (ServerConfig × Except String (List Listed))) (ls : List Label) :
    ((World.after ops shown servers ls).specs.map fun s => s.name).Nodup ∧
      ∀ s ∈ (World.after ops shown servers ls).specs,
        toolPrefix.toList <+: s.name.toList ∧ s.annotations.trust = some .untrusted ∧
          ∃ r sc, (World.after ops shown servers ls).route s.name = some r ∧ r.spec = s ∧
            (servers.map Prod.fst)[r.entry]? = some sc ∧ exposedName sc.name r.tool.name = some s.name ∧
              toSpec ops sc.name r.tool = .ok s ∧
                (s.annotations.effect ≠ some .none → sc.allowWriteTools = true) := by
  have hoffers := after_offers ops shown servers ls
  refine ⟨hoffers.names_nodup, ?_⟩
  intro s hs
  obtain ⟨r, hroute, hspec, sc, hsc, hmapped⟩ := hoffers.found hs
  refine ⟨exposedName_reserved hmapped.named, hmapped.untrusted, r, sc, hroute, hspec, hsc, hmapped.named, hmapped.mapped, ?_⟩
  exact fun heffect => hmapped.policy.resolve_right heffect

end AgentRuntime.Mcp.Host
