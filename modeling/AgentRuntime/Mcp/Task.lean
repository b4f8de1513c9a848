import AgentRuntime.Mcp.Client

/-!
# `Mcp.Task` — what becomes of a task

While a task is driven, every exit but one is matched with its clean-up: the flag and the deadline seen by the polling
loop send `tasks/cancel`, but a `tasks/get` or `tasks/update` that is itself ended by the flag or by its timeout does
not. So an abandoned task is cancelled exactly in the calls without such a request (`abandoned_iff`).

`Driven` says what each part of the drive leaves behind; it composes (`Driven.append`), and the polling loop is an
induction over it.
-/

namespace AgentRuntime.Mcp

open Json

/-! ## What is said -/

/-- The call is given up: stopped, or out of time. -/
def McpError.Abandons : McpError → Prop
  | .cancelled => True
  | .timeout _ => True
  | _ => False

/-- The result of a call that was given up. -/
def Abandoned {α : Type} (r : Except Exit α) : Prop := ∃ e : McpError, r = .error (.error e) ∧ e.Abandons

/-- The URL is an http(s) address without credentials. -/
def CheckedUrl (texts : Texts) (ask : UrlElicitation) : Prop :=
  ∃ url, texts.parseUrl ask.url = some url ∧ (url.scheme = "https" ∨ url.scheme = "http") ∧ url.username = "" ∧
    url.password = none

namespace Event

/-- A person can be asked, and is shown a checked URL. -/
def Shown (texts : Texts) (elicitor : Option Elicitor) : Event → Prop
  | .openUrl _ ask _ => elicitor.isSome = true ∧ CheckedUrl texts ask
  | _ => True

/-- A request of the drive that is itself given up. -/
def Interrupted : Event → Prop
  | .request method _ (.error e) => (method = "tasks/get" ∨ method = "tasks/update") ∧ e.Abandons
  | _ => False

def IsRequest (method : String) : Event → Prop
  | .request m _ _ => m = method
  | _ => False

/-- The task is cancelled. -/
def Cancels (taskId : String) : Event → Prop
  | .request m params _ => m = "tasks/cancel" ∧ (params.get "taskId").bind Value.asStr = some taskId
  | _ => False

/-- The key that is put to the member. -/
def key? : Event → Option String
  | .openUrl key _ _ => some key
  | _ => none

theorem Cancels.isRequest {taskId : String} {e : Event} (h : e.Cancels taskId) : e.IsRequest "tasks/cancel" := by
  cases e with
  | request m params answer => exact h.1
  | _ => exact h.elim

end Event

/-- The keys that are put to the member. -/
def askedKeys (said : List Event) : List String := said.filterMap Event.key?

/-! ## What a part of the drive leaves behind -/

section

variable (texts : Texts) (elicitor : Option Elicitor) (taskId : String)

/-- A part of the drive that starts with `answered`, ends with `r` and says `said`. -/
structure Driven {α : Type} (answered : List String) (r : Except Exit α) (said : List Event) : Prop where
  shown : ∀ e ∈ said, e.Shown texts elicitor
  noCall : ∀ e ∈ said, ¬ e.IsRequest "tools/call"
  nodup : (askedKeys said).Nodup
  fresh : ∀ k ∈ askedKeys said, k ∉ answered
  /-- The task is cancelled, or a request was interrupted. -/
  sent : Abandoned r → (∃ e ∈ said, e.Interrupted) ∨ ∃ e ∈ said, e.Cancels taskId
  /-- After an interrupted request nothing is cleaned up. -/
  interrupted : (∃ e ∈ said, e.Interrupted) → Abandoned r ∧ ∀ e ∈ said, ¬ e.IsRequest "tasks/cancel"
  /-- A part that goes on has not cancelled. -/
  quiet : ∀ a, r = .ok a → ∀ e ∈ said, ¬ e.IsRequest "tasks/cancel"

variable {texts elicitor taskId} {α β : Type} {answered answered' : List String} {said said' : List Event}

theorem not_abandoned_ok (a : α) : ¬ Abandoned (.ok a : Except Exit α) := by
  rintro ⟨e, h, -⟩
  cases h

/-- A part that only looks and asks: no request, no key, no failure that gives the call up. -/
theorem Driven.silent {r : Except Exit α} (h : ∀ e ∈ said, e.key? = none ∧ ∀ m, ¬ e.IsRequest m)
    (hr : ¬ Abandoned r) : Driven texts elicitor taskId answered r said := by
  have hkeys : askedKeys said = [] := List.filterMap_eq_nil_iff.mpr fun e he => (h e he).1
  have hnone : ∀ e ∈ said, ¬ e.Interrupted := by
    intro e he hi
    cases e with
    | request m params answer => exact (h _ he).2 m rfl
    | _ => exact hi
  refine ⟨?_, fun e he => (h e he).2 _, by simp [hkeys], by simp [hkeys], fun ha => absurd ha hr, ?_, ?_⟩
  · intro e he
    cases e with
    | openUrl key ask action => exact absurd (h _ he).1 (by simp [Event.key?])
    | _ => trivial
  · rintro ⟨e, he, hi⟩
    exact absurd hi (hnone e he)
  · intro a _ e he
    exact (h e he).2 _

/-- **One part after the other.** -/
theorem Driven.append {a : α} {r : Except Exit β} (h : Driven texts elicitor taskId answered (.ok a) said)
    (h' : Driven texts elicitor taskId answered' r said')
    (hanswered : ∀ k, k ∈ answered ∨ k ∈ askedKeys said → k ∈ answered') :
    Driven texts elicitor taskId answered r (said ++ said') := by
  have hkeys : askedKeys (said ++ said') = askedKeys said ++ askedKeys said' := List.filterMap_append
  have hquiet : ∀ e ∈ said, ¬ e.Interrupted := by
    intro e he hi
    exact not_abandoned_ok a (h.interrupted ⟨e, he, hi⟩).1
  refine ⟨?_, ?_, ?_, ?_, ?_, ?_, ?_⟩
  · intro e he
    exact (List.mem_append.mp he).elim (h.shown e) (h'.shown e)
  · intro e he
    exact (List.mem_append.mp he).elim (h.noCall e) (h'.noCall e)
  · rw [hkeys]
    apply h.nodup.append h'.nodup
    intro k hk hk'
    exact h'.fresh k hk' (hanswered k (.inr hk))
  · rw [hkeys]
    intro k hk
    rcases List.mem_append.mp hk with hk | hk
    · exact h.fresh k hk
    · exact fun hold => h'.fresh k hk (hanswered k (.inl hold))
  · intro ha
    rcases h'.sent ha with ⟨e, he, hi⟩ | ⟨e, he, hc⟩
    · exact .inl ⟨e, List.mem_append_right _ he, hi⟩
    · exact .inr ⟨e, List.mem_append_right _ he, hc⟩
  · rintro ⟨e, he, hi⟩
    rcases List.mem_append.mp he with he | he
    · exact absurd hi (hquiet e he)
    · obtain ⟨ha, hnone⟩ := h'.interrupted ⟨e, he, hi⟩
      refine ⟨ha, ?_⟩
      intro e' he'
      exact (List.mem_append.mp he').elim (h.quiet a rfl e') (hnone e')
  · intro b hb e he
    exact (List.mem_append.mp he).elim (h.quiet a rfl e) (h'.quiet b hb e)

/-- A part whose failure is the failure of the whole. -/
theorem Driven.error {x : Exit} (h : Driven texts elicitor taskId answered (.error x : Except Exit α) said) :
    Driven texts elicitor taskId answered (.error x : Except Exit β) said := by
  have hiff : Abandoned (.error x : Except Exit α) ↔ Abandoned (.error x : Except Exit β) := by
    unfold Abandoned
    simp
  refine ⟨h.shown, h.noCall, h.nodup, h.fresh, fun ha => h.sent (hiff.mpr ha), ?_, by simp⟩
  intro hi
  obtain ⟨ha, hnone⟩ := h.interrupted hi
  exact ⟨hiff.mp ha, hnone⟩

/-! ## Exchanges -/

variable {texts : Texts} {env : Env} {client : Client} {elicitor : Option Elicitor} {taskId : String}

theorem requestWithHeaders_adds {method : String} {params : Value} {timeout : Duration} {stoppable : Bool}
    {headers : List (String × String)} :
    (env.requestWithHeaders method params timeout stoppable headers).Adds fun r said =>
      ∃ answer, said = [.request method params answer] ∧ r = answer.mapError .error := by
  apply Talk.Adds.exchange
  intro log
  exact ⟨_, rfl, rfl⟩

theorem stopped_adds : env.stopped.Adds fun r said => ∃ raised, said = [.isStopped raised] ∧ r = .ok raised := by
  apply Talk.Adds.exchange
  intro log
  exact ⟨_, rfl, rfl⟩

theorem instant_adds : env.instant.Adds fun r said => ∃ time, said = [.now time] ∧ r = .ok time := by
  apply Talk.Adds.exchange
  intro log
  exact ⟨_, rfl, rfl⟩

/-- A part in which nothing is put to the member. -/
structure Waited (texts : Texts) (elicitor : Option Elicitor) (taskId : String) {α : Type} (r : Except Exit α)
    (said : List Event) : Prop where
  driven : ∀ answered, Driven texts elicitor taskId answered r said
  keys : askedKeys said = []

section

variable {α β : Type} {said said' : List Event}

theorem Waited.append {a : α} {r : Except Exit β} (h : Waited texts elicitor taskId (.ok a : Except Exit α) said)
    (h' : Waited texts elicitor taskId r said') : Waited texts elicitor taskId r (said ++ said') where
  driven answered := by
    apply (h.driven answered).append (h'.driven answered)
    rw [h.keys]
    simp
  keys := by
    have hkeys : askedKeys (said ++ said') = askedKeys said ++ askedKeys said' := List.filterMap_append
    rw [hkeys, h.keys, h'.keys]
    rfl

theorem Waited.andThen {a : α} {r : Except Exit β} {answered : List String}
    (h : Waited texts elicitor taskId (.ok a : Except Exit α) said) (h' : Driven texts elicitor taskId answered r said') :
    Driven texts elicitor taskId answered r (said ++ said') := by
  apply (h.driven answered).append h'
  rw [h.keys]
  simp

theorem Waited.error {x : Exit} (h : Waited texts elicitor taskId (.error x : Except Exit α) said) :
    Waited texts elicitor taskId (.error x : Except Exit β) said where
  driven answered := (h.driven answered).error
  keys := h.keys

theorem Waited.silent {r : Except Exit α} (h : ∀ e ∈ said, e.key? = none ∧ ∀ m, ¬ e.IsRequest m) (hr : ¬ Abandoned r) :
    Waited texts elicitor taskId r said where
  driven _ := .silent h hr
  keys := List.filterMap_eq_nil_iff.mpr fun e he => (h e he).1

/-- One request of the drive, other than the cancellation. -/
theorem Waited.asked {method : String} {params : Value} {answer : Except McpError Value} {r : Except Exit α}
    (hmethod : method = "tasks/get" ∨ method = "tasks/update")
    (hr : Abandoned r ↔ ∃ e, answer = .error e ∧ e.Abandons) :
    Waited texts elicitor taskId r [.request method params answer] where
  driven answered := by
    have hinterrupted : (Event.request method params answer).Interrupted ↔ Abandoned r := by
      rw [hr]
      cases answer with
      | error e => simp [Event.Interrupted, hmethod]
      | ok v => simp [Event.Interrupted]
    have hcancel : ¬ (Event.request method params answer).IsRequest "tasks/cancel" := by
      intro hm
      rcases hmethod with h | h
      · exact absurd (h.symm.trans hm) (by decide)
      · exact absurd (h.symm.trans hm) (by decide)
    have hkeys : askedKeys [.request method params answer] = [] := rfl
    refine ⟨?_, ?_, by simp [hkeys], by simp [hkeys], ?_, ?_, ?_⟩
    · intro e he
      rw [List.mem_singleton.mp he]
      trivial
    · intro e he
      rw [List.mem_singleton.mp he]
      intro hm
      rcases hmethod with h | h
      · exact absurd (h.symm.trans hm) (by decide)
      · exact absurd (h.symm.trans hm) (by decide)
    · intro ha
      exact .inl ⟨_, List.mem_singleton_self _, hinterrupted.mpr ha⟩
    · rintro ⟨e, he, hi⟩
      rw [List.mem_singleton.mp he] at hi
      refine ⟨hinterrupted.mp hi, ?_⟩
      intro e' he'
      rw [List.mem_singleton.mp he']
      exact hcancel
    · intro a _ e he
      rw [List.mem_singleton.mp he]
      exact hcancel
  keys := rfl

end

theorem abandoned_error {α : Type} {x : McpError} :
    Abandoned (.error (.error x) : Except Exit α) ↔ ∃ e, (.error x : Except McpError Value) = .error e ∧ e.Abandons := by
  unfold Abandoned
  simp

/-! ## The parts of the drive -/

theorem taskId_withMeta {elicit : Bool} :
    ((client.withMeta (.ofEntries [("taskId", .string taskId)]) elicit).get "taskId").bind Value.asStr = some taskId := by
  unfold Client.withMeta
  split
  · have hlt : "_meta" < "taskId" := by decide
    have hne : ("taskId" == "_meta") = false := by decide
    simp [setEntry, Value.ofEntries, SortedMap.ofEntries, SortedMap.insert, hlt, Value.get, Value.asObject, List.lookup,
      hne, Value.asStr]
  · simp [Value.ofEntries, SortedMap.ofEntries, SortedMap.insert, Value.get, Value.asObject, Value.asStr]

/-- **The clean-up.** The task is cancelled before the call ends. -/
theorem cancelTask_adds {α : Type} {why : McpError} :
    (cancelTask env client taskId why : Call α).Adds fun r said =>
      Waited texts elicitor taskId r said ∧ r = .error (.error why) := by
  apply Talk.Adds.bind
  · apply Talk.Adds.attempt (R := fun r said => ∃ params answer, said = [.request "tasks/cancel" params answer] ∧
      (params.get "taskId").bind Value.asStr = some taskId ∧ ∃ a, r = .ok a)
    apply requestWithHeaders_adds.weaken
    rintro r said ⟨answer, rfl, -⟩
    exact ⟨_, answer, rfl, taskId_withMeta, r, rfl⟩
  · rintro e said ⟨params, answer, -, -, a, ha⟩
    cases ha
  · rintro a said ⟨params, answer, rfl, hid, -⟩
    apply Talk.Adds.throw
    refine ⟨⟨?_, rfl⟩, rfl⟩
    intro answered
    have hmem : ∀ e ∈ [Event.request "tasks/cancel" params answer] ++ [], e = .request "tasks/cancel" params answer := by
      simp
    have hkeys : askedKeys ([.request "tasks/cancel" params answer] ++ []) = [] := rfl
    refine ⟨?_, ?_, by rw [hkeys]; exact List.nodup_nil, by rw [hkeys]; simp, ?_, ?_, by simp⟩
    · intro e he
      rw [hmem e he]
      trivial
    · intro e he
      rw [hmem e he]
      intro hm
      have hm : "tasks/cancel" = "tools/call" := hm
      exact absurd hm (by decide)
    · intro _
      exact .inr ⟨_, List.mem_cons_self .., rfl, hid⟩
    · rintro ⟨e, he, hi⟩
      rw [hmem e he] at hi
      cases answer with
      | ok v => exact hi.elim
      | error x =>
          rcases hi.1 with h | h
          · exact absurd h (by decide)
          · exact absurd h (by decide)

theorem checkPoll_adds {deadline : Duration} :
    (checkPoll env client taskId deadline).Adds (Waited texts elicitor taskId) := by
  apply stopped_adds.bind
  · rintro e said ⟨raised, -, h⟩
    cases h
  · rintro raised said ⟨_, rfl, h⟩
    cases h
    have hlooked : Waited texts elicitor taskId (.ok raised : Except Exit Bool) [.isStopped raised] :=
      .silent (by simp [Event.key?, Event.IsRequest]) (not_abandoned_ok _)
    split
    · exact cancelTask_adds.weaken fun r said h => hlooked.append h.1
    · apply instant_adds.bind
      · rintro e said ⟨time, -, h⟩
        cases h
      · rintro now said ⟨_, rfl, h⟩
        cases h
        have hread : Waited texts elicitor taskId (.ok now : Except Exit Duration) [.now now] :=
          .silent (by simp [Event.key?, Event.IsRequest]) (not_abandoned_ok _)
        split
        · exact cancelTask_adds.weaken fun r said h => hlooked.append (hread.append h.1)
        · apply Talk.Adds.pure
          exact hlooked.append (hread.append (.silent (by simp) (not_abandoned_ok _)))

theorem not_abandoned_unfinished {α : Type} : ¬ Abandoned (.error .unfinished : Except Exit α) := by
  rintro ⟨e, h, -⟩
  cases h

theorem waitUntil_adds {deadline wake : Duration} {fuel : ℕ} :
    (waitUntil env client taskId deadline wake fuel).Adds (Waited texts elicitor taskId) := by
  induction fuel with
  | zero =>
      apply Talk.Adds.throw
      exact .silent (by simp) not_abandoned_unfinished
  | succ fuel ih =>
      apply instant_adds.bind
      · rintro e said ⟨time, -, h⟩
        cases h
      · rintro now said ⟨_, rfl, h⟩
        cases h
        have hread : Waited texts elicitor taskId (.ok now : Except Exit Duration) [.now now] :=
          .silent (by simp [Event.key?, Event.IsRequest]) (not_abandoned_ok _)
        split
        · apply checkPoll_adds.bind
          · intro e said h
            exact hread.append h.error
          · intro a said h
            exact ih.weaken fun r said' h' => hread.append (h.append h')
        · apply Talk.Adds.pure
          exact hread.append (.silent (by simp) (not_abandoned_ok _))

/-! ## Inputs -/

theorem parseUrlElicitation_checked {server tool : String} {params : Value} {ask : UrlElicitation}
    (h : parseUrlElicitation texts server tool params = .ok ask) : CheckedUrl texts ask := by
  unfold parseUrlElicitation at h
  split at h
  · cases h
  · split at h
    · cases h
    · split at h
      · cases h
      · split at h
        · cases h
        · rename_i parsed hparsed
          split at h
          · cases h
          · rename_i hscheme
            split at h
            · cases h
            · rename_i hcredentials
              split at h
              · cases h
              · cases h
                obtain ⟨husername, hpassword⟩ := not_or.mp hcredentials
                exact ⟨parsed, hparsed, not_not.mp hscheme, not_not.mp husername, not_not.mp hpassword⟩

/-- Inputs that are answered: each key at most once, and never one that was answered before. -/
structure Asked (texts : Texts) (elicitor : Option Elicitor) {α : Type} (answered : List String)
    (r : Except Exit (α × List String)) (said : List Event) : Prop where
  shown : ∀ e ∈ said, e.Shown texts elicitor ∧ ∀ m, ¬ e.IsRequest m
  refused : ∀ x, r = .error x → ∃ msg, x = .error (.inputRequired msg)
  answered : ∀ out answered', r = .ok (out, answered') → ∀ k, k ∈ answered ∨ k ∈ askedKeys said → k ∈ answered'

theorem answerEach_adds {tool : String} {answered : List String} {reqs : List (String × Value)} :
    (answerEach texts client elicitor tool answered reqs).Adds fun r said =>
      Asked texts elicitor answered r said ∧ askedKeys said <+: reqs.map Prod.fst := by
  induction reqs generalizing answered with
  | nil =>
      apply Talk.Adds.pure
      refine ⟨⟨by simp, by simp, ?_⟩, List.prefix_refl _⟩
      intro out answered' h k hk
      cases h
      simpa [askedKeys] using hk
  | cons req reqs ih =>
      obtain ⟨key, req⟩ := req
      have hrefused : ∀ msg, (fail (.inputRequired msg) : Call (List (String × Value) × List String)).Adds fun r said =>
          Asked texts elicitor answered r said ∧ askedKeys said <+: ((key, req) :: reqs).map Prod.fst := by
        intro msg
        apply Talk.Adds.throw
        refine ⟨⟨by simp, ?_, by simp⟩, List.nil_prefix⟩
        intro x hx
        cases hx
        exact ⟨msg, rfl⟩
      unfold answerEach
      simp only
      split
      · exact hrefused _
      · split
        · exact hrefused _
        · rename_i elicitor
          split
          · exact hrefused _
          · rename_i ask hask
            have hopen : (openUrl elicitor key ask).Adds fun r said => ∃ action, said = [.openUrl key ask action] ∧
                r = .ok action := by
              apply Talk.Adds.exchange
              intro log
              exact ⟨_, rfl, rfl⟩
            apply hopen.bind
            · rintro e said ⟨action, -, h⟩
              cases h
            · rintro action said ⟨_, rfl, h⟩
              cases h
              have hfirst : (Event.openUrl key ask action).Shown texts (some elicitor) :=
                ⟨rfl, parseUrlElicitation_checked hask⟩
              have hkeys : ∀ said, askedKeys ([.openUrl key ask action] ++ said) = key :: askedKeys said :=
                fun said => rfl
              apply Talk.Adds.bind ih
              · rintro e said ⟨hasked, hstart⟩
                refine ⟨⟨?_, fun x hx => hasked.refused x (by rw [Except.error.inj hx]), by simp⟩, ?_⟩
                · intro e' he'
                  rcases List.mem_cons.mp he' with rfl | he'
                  · exact ⟨hfirst, fun m => id⟩
                  · exact hasked.shown e' he'
                · rw [hkeys]
                  exact List.cons_prefix_cons.mpr ⟨rfl, hstart⟩
              · rintro ⟨out, answered'⟩ said ⟨hasked, hstart⟩
                apply Talk.Adds.pure
                rw [List.append_nil]
                refine ⟨⟨?_, by simp, ?_⟩, ?_⟩
                · intro e' he'
                  rcases List.mem_cons.mp he' with rfl | he'
                  · exact ⟨hfirst, fun m => id⟩
                  · exact hasked.shown e' he'
                · intro out' answered'' h k hk
                  cases h
                  rw [hkeys] at hk
                  apply hasked.answered out answered' rfl k
                  simp only [List.mem_cons] at hk ⊢
                  tauto
                · rw [hkeys]
                  exact List.cons_prefix_cons.mpr ⟨rfl, hstart⟩

theorem answerInputs_adds {tool : String} {reqs : List (String × Value)} {answered : List String} :
    (answerInputs texts client elicitor tool reqs answered).Adds fun r said =>
      Asked texts elicitor answered r said ∧ (askedKeys said).Nodup ∧ ∀ k ∈ askedKeys said, k ∉ answered := by
  unfold answerInputs
  simp only
  split
  · apply Talk.Adds.throw
    refine ⟨⟨by simp, ?_, by simp⟩, List.nodup_nil, by simp [askedKeys]⟩
    intro x hx
    cases hx
    exact ⟨_, rfl⟩
  · apply answerEach_adds.weaken
    rintro r said ⟨hasked, hstart⟩
    have hsub : (((SortedMap.ofEntries reqs).filter fun r => !answered.contains r.1).map Prod.fst).Sublist
        ((SortedMap.ofEntries reqs).map Prod.fst) := List.filter_sublist.map _
    refine ⟨hasked, ?_, ?_⟩
    · exact (SortedMap.ascending_ofEntries reqs).nodup_keys.sublist (hstart.sublist.trans hsub)
    · intro k hk
      obtain ⟨req, hreq, rfl⟩ := List.mem_map.mp (hstart.subset hk)
      simpa using (List.mem_filter.mp hreq).2

theorem Asked.driven {α : Type} {answered : List String} {r : Except Exit (α × List String)} {said : List Event}
    (h : Asked texts elicitor answered r said) (hnodup : (askedKeys said).Nodup)
    (hfresh : ∀ k ∈ askedKeys said, k ∉ answered) : Driven texts elicitor taskId answered r said := by
  have hnone : ∀ e ∈ said, ¬ e.Interrupted := by
    intro e he hi
    cases e with
    | request m params answer => exact (h.shown _ he).2 m rfl
    | _ => exact hi
  refine ⟨fun e he => (h.shown e he).1, fun e he => (h.shown e he).2 _, hnodup, hfresh, ?_, ?_,
    fun _ _ e he => (h.shown e he).2 _⟩
  · rintro ⟨e, rfl, ha⟩
    obtain ⟨msg, hmsg⟩ := h.refused _ rfl
    cases hmsg
    exact ha.elim
  · rintro ⟨e, he, hi⟩
    exact absurd hi (hnone e he)

/-- Going on after the inputs, with the result at hand. -/
theorem Driven.attempted {α : Type} {answered : List String} {r : Except Exit α} {said : List Event}
    (h : Driven texts elicitor taskId answered r said) (hr : ¬ Abandoned r) (hquiet : ∀ e ∈ said, ¬ e.IsRequest "tasks/cancel") :
    Driven texts elicitor taskId answered (.ok r : Except Exit (Except Exit α)) said := by
  refine ⟨h.shown, h.noCall, h.nodup, h.fresh, fun ha => absurd ha (not_abandoned_ok _), ?_, fun _ _ => hquiet⟩
  intro hi
  exact absurd (h.interrupted hi).1 hr

theorem answerTask_adds {tool : String} {state : Value} {answered : List String} :
    (answerTask texts env client elicitor tool taskId state answered).Adds fun r said =>
      Driven texts elicitor taskId answered r said ∧
        ∀ answered', r = .ok answered' → ∀ k, k ∈ answered ∨ k ∈ askedKeys said → k ∈ answered' := by
  unfold answerTask
  split
  · apply Talk.Adds.pure
    refine ⟨.silent (by simp) (not_abandoned_ok _), ?_⟩
    intro answered' h k hk
    cases h
    simpa [askedKeys] using hk
  · rename_i reqs _
    apply Talk.Adds.bind (R := fun r said => ∃ result, r = .ok result ∧ Asked texts elicitor answered result said ∧
      (askedKeys said).Nodup ∧ ∀ k ∈ askedKeys said, k ∉ answered)
    · apply Talk.Adds.attempt
      apply answerInputs_adds.weaken
      rintro r said ⟨hasked, hnodup, hfresh⟩
      exact ⟨r, rfl, hasked, hnodup, hfresh⟩
    · rintro e said ⟨result, h, -⟩
      cases h
    · rintro result said ⟨_, h, hasked, hnodup, hfresh⟩
      cases h
      have hrefused : ¬ Abandoned result := by
        rintro ⟨e, rfl, ha⟩
        obtain ⟨msg, hmsg⟩ := hasked.refused _ rfl
        cases hmsg
        exact ha.elim
      have hdriven : Driven texts elicitor taskId answered (.ok result : Except Exit _) said :=
        (hasked.driven hnodup hfresh).attempted hrefused fun e he => (hasked.shown e he).2 _
      split
      · apply cancelTask_adds.weaken
        rintro r said' ⟨h, rfl⟩
        exact ⟨hdriven.append (h.driven (answered ++ askedKeys said)) (by simp), by simp⟩
      · obtain ⟨msg, hmsg⟩ := hasked.refused _ rfl
        cases hmsg
      · rename_i responses answered'
        have hcovers := hasked.answered responses answered' rfl
        split
        · apply Talk.Adds.pure
          rw [List.append_nil]
          refine ⟨?_, ?_⟩
          · have hnothing : Driven texts elicitor taskId answered' (.ok answered' : Except Exit (List String)) [] :=
              .silent (by simp) (not_abandoned_ok _)
            have hend := hdriven.append hnothing hcovers
            rwa [List.append_nil] at hend
          · intro answered'' h
            cases h
            exact hcovers
        · apply requestWithHeaders_adds.bind
          · rintro e said' ⟨answer, rfl, h⟩
            refine ⟨hdriven.append ((Waited.asked (.inr rfl) ?_).driven answered') hcovers, by simp⟩
            cases answer with
            | ok v => cases h
            | error x =>
                cases h
                exact abandoned_error
          · rintro v said' ⟨answer, rfl, h⟩
            apply Talk.Adds.pure
            rw [List.append_nil]
            refine ⟨hdriven.append ((Waited.asked (.inr rfl) ?_).driven answered') hcovers, ?_⟩
            · cases answer with
              | ok v => simp [not_abandoned_ok]
              | error x => cases h
            · intro answered'' h' k hk
              cases h'
              apply hcovers
              have hkeys : askedKeys (said ++ [Event.request "tasks/update" (client.withMeta
                  (.ofEntries [("taskId", .string taskId), ("inputResponses", .ofEntries responses)]) elicitor.isSome)
                  answer]) = askedKeys said := by
                simp [askedKeys, Event.key?]
              rwa [hkeys] at hk

theorem answerState_adds {tool : String} {state : Value} {answered : List String} :
    (answerState texts env client elicitor tool taskId state answered).Adds fun r said =>
      Driven texts elicitor taskId answered r said ∧
        ∀ answered', r = .ok answered' → ∀ k, k ∈ answered ∨ k ∈ askedKeys said → k ∈ answered' := by
  unfold answerState
  split
  · exact answerTask_adds
  · apply Talk.Adds.pure
    refine ⟨.silent (by simp) (not_abandoned_ok _), ?_⟩
    intro answered' h k hk
    cases h
    simpa [askedKeys] using hk

theorem kindOf_error {result : Value} {mrtr task : Bool} {e : McpError} (h : kindOf texts result mrtr task = .error e) :
    ∃ msg, e = .badResponse msg := by
  unfold kindOf at h
  split at h
  · cases h
  · split at h
    · cases h
    · split at h
      · cases h
      · split at h
        · cases h
        · cases h
          exact ⟨_, rfl⟩

theorem not_abandoned_badResponse {α : Type} {msg : String} :
    ¬ Abandoned (.error (.error (.badResponse msg)) : Except Exit α) := by
  rintro ⟨e, h, ha⟩
  cases h
  exact ha

/-- The server said that the task is in `state`. -/
def Polled (taskId : String) (state : Value) (said : List Event) : Prop :=
  (state.get "taskId").bind Value.asStr = some taskId ∧ ∃ params, .request "tasks/get" params (.ok state) ∈ said

theorem pollTask_adds : (pollTask texts env client elicitor taskId).Adds fun r said =>
    Waited texts elicitor taskId r said ∧ ∀ state, r = .ok state → Polled taskId state said := by
  apply requestWithHeaders_adds.bind
  · rintro e said ⟨answer, rfl, h⟩
    refine ⟨Waited.asked (.inl rfl) ?_, by simp⟩
    cases answer with
    | ok v => cases h
    | error x =>
        cases h
        exact abandoned_error
  · rintro state said ⟨answer, rfl, h⟩
    cases answer with
    | error x => cases h
    | ok v =>
        cases h
        have hasked {α : Type} {r : Except Exit α} (hr : ¬ Abandoned r) : Waited texts elicitor taskId r
            ([.request "tasks/get" (client.withMeta (.ofEntries [("taskId", .string taskId)]) elicitor.isSome) (.ok state)]
              ++ []) := .asked (.inl rfl) (by simp [hr])
        split
        · rename_i e he
          obtain ⟨msg, rfl⟩ := kindOf_error he
          apply Talk.Adds.throw
          exact ⟨hasked not_abandoned_badResponse, by simp⟩
        · split
          · apply Talk.Adds.throw
            exact ⟨hasked not_abandoned_badResponse, by simp⟩
          · rename_i hid
            apply Talk.Adds.pure
            refine ⟨hasked (not_abandoned_ok _), ?_⟩
            intro state' h'
            cases h'
            exact ⟨not_not.mp hid, _, List.mem_cons_self ..⟩

/-! ## The polling loop -/

/-- A completed task, with its result. -/
def Completed (texts : Texts) (state : Value) (c : CallResult) : Prop :=
  strOr (state.get "status") = "completed" ∧
    ∃ result, state.get "result" = some result ∧ isObject result = true ∧ c = callResult texts result

theorem driveLoop_adds {tool : String} {deadline : Duration} {fuel : ℕ} {state : Value} {answered : List String} :
    (driveLoop texts env client elicitor tool taskId deadline fuel state answered).Adds fun r said =>
      Driven texts elicitor taskId answered r said ∧
        ∀ c, r = .ok c → ∃ s, (s = state ∨ Polled taskId s said) ∧ Completed texts s c := by
  induction fuel generalizing state answered with
  | zero =>
      apply Talk.Adds.throw
      exact ⟨.silent (by simp) not_abandoned_unfinished, by simp⟩
  | succ fuel ih =>
      have hfail {e : McpError} (he : ¬ e.Abandons) : (fail e : Call CallResult).Adds fun r said =>
          Driven texts elicitor taskId answered r said ∧
            ∀ c, r = .ok c → ∃ s, (s = state ∨ Polled taskId s said) ∧ Completed texts s c := by
        apply Talk.Adds.throw
        refine ⟨.silent (by simp) ?_, by simp⟩
        rintro ⟨e', h, ha⟩
        cases h
        exact he ha
      unfold driveLoop
      simp only
      split
      · rename_i hcompleted
        split
        · exact hfail id
        · rename_i result hresult
          obtain ⟨hget, hobject⟩ := Option.filter_eq_some_iff.mp hresult
          apply Talk.Adds.pure
          refine ⟨.silent (by simp) (not_abandoned_ok _), ?_⟩
          intro c hc
          cases hc
          exact ⟨state, .inl rfl, hcompleted, result, hget, hobject, rfl⟩
      · split
        · exact hfail id
        · split
          · exact hfail id
          · split
            · exact hfail id
            · -- The inputs, the wait and the next state.
              apply answerState_adds.bind
              · rintro e said ⟨hdriven, -⟩
                exact ⟨hdriven.error, by simp⟩
              · rintro answered' said ⟨hdriven, hcovers⟩
                have hcovers := hcovers answered' rfl
                apply instant_adds.bind
                · rintro e said' ⟨time, -, h⟩
                  cases h
                · rintro now said' ⟨_, rfl, h⟩
                  cases h
                  have hread : Waited texts elicitor taskId (.ok now : Except Exit Duration) [.now now] :=
                    .silent (by simp [Event.key?, Event.IsRequest]) (not_abandoned_ok _)
                  apply waitUntil_adds.bind
                  · intro e waited hwaited
                    exact ⟨hdriven.append ((hread.append hwaited.error).driven answered') hcovers, by simp⟩
                  · intro _ waited hwaited
                    apply checkPoll_adds.bind
                    · intro e checked hchecked
                      exact ⟨hdriven.append ((hread.append (hwaited.append hchecked.error)).driven answered') hcovers,
                        by simp⟩
                    · intro _ checked hchecked
                      apply pollTask_adds.bind
                      · rintro e polled ⟨hpolled, -⟩
                        exact ⟨hdriven.append ((hread.append (hwaited.append (hchecked.append hpolled.error))).driven
                          answered') hcovers, by simp⟩
                      · rintro next polled ⟨hpolled, hnext⟩
                        obtain ⟨hnextId, nextParams, hnextMem⟩ := hnext next rfl
                        apply ih.weaken
                        rintro r rest ⟨hrest, hok⟩
                        have hwait := hread.append (hwaited.append (hchecked.append hpolled))
                        refine ⟨?_, ?_⟩
                        · have htail := hwait.andThen hrest
                          have hall := hdriven.append htail hcovers
                          simpa [List.append_assoc] using hall
                        · intro c hc
                          obtain ⟨s, hs, hdone⟩ := hok c hc
                          refine ⟨s, .inr ?_, hdone⟩
                          rcases hs with rfl | ⟨hid, params, hmem⟩
                          · exact ⟨hnextId, nextParams, by simp [hnextMem]⟩
                          · exact ⟨hid, params, by simp [hmem]⟩

/-- **A task.** What driving it says, and how it ends. -/
theorem driveTask_adds {fuel : ℕ} {tool : String} {created : Value} (hid : taskIdOf created = some taskId) :
    (driveTask texts env client elicitor fuel tool created).Adds fun r said =>
      Driven texts elicitor taskId [] r said ∧
        ∀ c, r = .ok c → ∃ s, (s = created ∨ Polled taskId s said) ∧ Completed texts s c := by
  unfold driveTask
  rw [hid]
  apply instant_adds.bind
  · rintro e said ⟨time, -, h⟩
    cases h
  · rintro now said ⟨_, rfl, h⟩
    cases h
    have hread : Waited texts elicitor taskId (.ok now : Except Exit Duration) [.now now] :=
      .silent (by simp [Event.key?, Event.IsRequest]) (not_abandoned_ok _)
    apply driveLoop_adds.weaken
    rintro r said ⟨hdriven, hok⟩
    refine ⟨hread.andThen hdriven, ?_⟩
    intro c hc
    obtain ⟨s, hs, hdone⟩ := hok c hc
    refine ⟨s, hs.imp_right ?_, hdone⟩
    rintro ⟨hid, params, hmem⟩
    exact ⟨hid, params, List.mem_cons_of_mem _ hmem⟩

/-! ## A whole call -/

/-- The server answers the call with a task. -/
def Event.CreatesTask (texts : Texts) (client : Client) (taskId : String) : Event → Prop
  | .request m _ (.ok created) =>
      m = "tools/call" ∧ kindOf texts created client.modernEra client.modernEra = .ok .task ∧
        taskIdOf created = some taskId
  | _ => False

/-- The rounds of a call before a task, if there is one. -/
def Rounds (texts : Texts) (client : Client) (elicitor : Option Elicitor) (said : List Event) : Prop :=
  ∀ e ∈ said, e.Shown texts elicitor ∧ (∀ id, ¬ e.CreatesTask texts client id) ∧ ¬ e.Interrupted

/-- How a call goes: without a task, or with one that is driven to the end of the call. -/
inductive Outcome (texts : Texts) (client : Client) (elicitor : Option Elicitor) (r : Except Exit CallResult)
    (said : List Event) : Prop
  | plain (hrounds : Rounds texts client elicitor said)
      (hok : ∀ c, r = .ok c → ∃ params result, .request "tools/call" params (.ok result) ∈ said ∧
        kindOf texts result client.modernEra client.modernEra = .ok .complete ∧ c = callResult texts result)
  | task (before after : List Event) (params created : Value) (taskId : String)
      (hsaid : said = before ++ .request "tools/call" params (.ok created) :: after)
      (hrounds : Rounds texts client elicitor before)
      (hkind : kindOf texts created client.modernEra client.modernEra = .ok .task)
      (hid : taskIdOf created = some taskId)
      (hdriven : Driven texts elicitor taskId [] r after)
      (hok : ∀ c, r = .ok c → ∃ s, (s = created ∨ Polled taskId s after) ∧ Completed texts s c)

theorem Rounds.append {said said' : List Event} (h : Rounds texts client elicitor said)
    (h' : Rounds texts client elicitor said') : Rounds texts client elicitor (said ++ said') := by
  intro e he
  exact (List.mem_append.mp he).elim (h e) (h' e)

theorem Outcome.prepend {said said' : List Event} {r : Except Exit CallResult} (h : Rounds texts client elicitor said)
    (h' : Outcome texts client elicitor r said') : Outcome texts client elicitor r (said ++ said') := by
  cases h' with
  | plain hrounds hok =>
      refine .plain (h.append hrounds) ?_
      intro c hc
      obtain ⟨params, result, hmem, hrest⟩ := hok c hc
      exact ⟨params, result, List.mem_append_right _ hmem, hrest⟩
  | task before after params created taskId hsaid hrounds hkind hid hdriven hok =>
      refine .task (said ++ before) after params created taskId ?_ (h.append hrounds) hkind hid hdriven hok
      rw [hsaid, List.append_assoc]

/-- A call that fails in its rounds. -/
theorem Outcome.failed {said : List Event} {x : Exit} (h : Rounds texts client elicitor said) :
    Outcome texts client elicitor (.error x) said :=
  .plain h (by simp)

theorem answerCall_adds {name : String} {result : Value} :
    (answerCall texts client elicitor name result).Adds fun _ said => Rounds texts client elicitor said := by
  unfold answerCall
  split
  · apply Talk.Adds.pure
    intro e he
    cases he
  · rename_i reqs _
    have hrounds : ∀ said, (∀ e ∈ said, e.Shown texts elicitor ∧ ∀ m, ¬ e.IsRequest m) →
        Rounds texts client elicitor said := by
      intro said h e he
      obtain ⟨hshown, hnone⟩ := h e he
      refine ⟨hshown, ?_, ?_⟩
      · intro id hcreates
        cases e with
        | request m params answer => exact hnone m rfl
        | _ => exact hcreates
      · intro hi
        cases e with
        | request m params answer => exact hnone m rfl
        | _ => exact hi
    apply answerInputs_adds.bind
    · rintro e said ⟨hasked, -⟩
      exact hrounds said hasked.shown
    · rintro ⟨out, answered⟩ said ⟨hasked, -⟩
      apply Talk.Adds.pure
      rw [List.append_nil]
      exact hrounds said hasked.shown
  · apply Talk.Adds.throw
    intro e he
    cases he

theorem callRounds_adds {fuel : ℕ} {name : String} {args : Value} {headers : List (String × String)} {rounds : ℕ}
    {retry : Option Retry} :
    (callRounds texts env client elicitor fuel name args headers rounds retry).Adds
      (Outcome texts client elicitor) := by
  induction rounds generalizing retry with
  | zero =>
      apply Talk.Adds.throw
      exact .failed fun e he => by cases he
  | succ rounds ih =>
      apply requestWithHeaders_adds.bind
      · rintro e said ⟨answer, rfl, h⟩
        apply Outcome.failed
        intro e' he'
        rw [List.mem_singleton.mp he']
        cases answer with
        | ok v => cases h
        | error x =>
            refine ⟨trivial, fun _ => id, ?_⟩
            rintro ⟨hm | hm, -⟩
            · exact absurd hm (by decide)
            · exact absurd hm (by decide)
      · rintro result said ⟨answer, rfl, h⟩
        cases answer with
        | error x => cases h
        | ok v =>
            cases h
            generalize client.withMeta (callParams name args retry) elicitor.isSome = params
            -- Unless the server answers with a task, the request is one more round.
            have hround (hno : ∀ id, ¬ (Event.request "tools/call" params (.ok result)).CreatesTask texts client id) :
                Rounds texts client elicitor [.request "tools/call" params (.ok result)] := by
              intro e he
              rw [List.mem_singleton.mp he]
              exact ⟨trivial, hno, id⟩
            have hkind {k : Kind} (hk : kindOf texts result client.modernEra client.modernEra = .ok k)
                (hne : k ≠ .task) (id : String) :
                ¬ (Event.request "tools/call" params (.ok result)).CreatesTask texts client id := by
              rintro ⟨-, htask, -⟩
              exact hne (Except.ok.inj (hk.symm.trans htask))
            split
            · rename_i hobject
              apply Talk.Adds.throw
              apply Outcome.failed
              rw [List.append_nil]
              apply hround
              rintro id ⟨-, -, hid⟩
              cases result with
              | object entries => cases hobject
              | _ => cases hid
            · split
              · rename_i e he
                apply Talk.Adds.throw
                apply Outcome.failed
                rw [List.append_nil]
                apply hround
                rintro id ⟨-, htask, -⟩
                rw [he] at htask
                cases htask
              · rename_i hk
                apply Talk.Adds.pure
                rw [List.append_nil]
                refine .plain (hround (hkind hk (by simp))) ?_
                intro c hc
                cases hc
                exact ⟨params, result, List.mem_singleton_self _, hk, rfl⟩
              · rename_i hk
                cases hid : taskIdOf result with
                | none =>
                    unfold driveTask
                    rw [hid]
                    apply Talk.Adds.throw
                    apply Outcome.failed
                    rw [List.append_nil]
                    apply hround
                    rintro id ⟨-, -, hid'⟩
                    rw [hid] at hid'
                    cases hid'
                | some taskId =>
                    apply (driveTask_adds hid).weaken
                    rintro r said ⟨hdriven, hok⟩
                    exact .task [] said params result taskId rfl (fun e he => by cases he) hk hid hdriven hok
              · rename_i hk
                have hround := hround (hkind hk (by simp))
                apply answerCall_adds.bind
                · intro e said h
                  exact .failed (hround.append h)
                · intro responses said h
                  simp only
                  split
                  · apply Talk.Adds.throw
                    apply Outcome.failed
                    rw [List.append_nil]
                    exact hround.append h
                  · apply stopped_adds.bind
                    · rintro e said' ⟨raised, -, h⟩
                      cases h
                    · rintro raised said' ⟨_, rfl, h'⟩
                      cases h'
                      have hlooked : Rounds texts client elicitor [.isStopped raised] := by
                        intro e he
                        rw [List.mem_singleton.mp he]
                        exact ⟨trivial, fun _ => id, id⟩
                      have hall := hround.append (h.append hlooked)
                      split
                      · apply Talk.Adds.throw
                        apply Outcome.failed
                        simpa using hall
                      · apply ih.weaken
                        intro r rest houtcome
                        have hwhole := houtcome.prepend hall
                        simpa [List.append_assoc] using hwhole

/-! ## Abandoned tasks -/

/-- What is asked of a call that ends with `r` and says `log`. -/
structure TaskSafe (texts : Texts) (client : Client) (elicitor : Option Elicitor) (r : Except Exit CallResult)
    (log : List Event) : Prop where
  /-- A task that is given up is cancelled before the call returns. -/
  cancelled : ∀ before e after taskId, log = before ++ e :: after → e.CreatesTask texts client taskId → Abandoned r →
    ∃ e' ∈ after, e'.Cancels taskId
  /-- A result is a complete one, or that of the same task, completed. -/
  ok : ∀ c, r = .ok c →
    (∃ params result, .request "tools/call" params (.ok result) ∈ log ∧
      kindOf texts result client.modernEra client.modernEra = .ok .complete ∧ c = callResult texts result) ∨
    ∃ before params created after taskId, log = before ++ .request "tools/call" params (.ok created) :: after ∧
      kindOf texts created client.modernEra client.modernEra = .ok .task ∧ taskIdOf created = some taskId ∧
      ∃ s, (s = created ∨ Polled taskId s after) ∧ Completed texts s c
  /-- What reaches the member. -/
  shown : ∀ e ∈ log, e.Shown texts elicitor
  /-- Within a task each key is put to the member at most once. -/
  once : ∀ before e after taskId, log = before ++ e :: after → e.CreatesTask texts client taskId →
    (askedKeys after).Nodup

/-- The only element with a property is where it is. -/
theorem split_unique {α : Type} {P : α → Prop} {b b' a a' : List α} {x x' : α} (h : b ++ x :: a = b' ++ x' :: a')
    (hb : ∀ y ∈ b, ¬ P y) (ha : ∀ y ∈ a, ¬ P y) (hx' : P x') : b = b' ∧ x = x' ∧ a = a' := by
  induction b generalizing b' with
  | nil =>
      cases b' with
      | nil =>
          obtain ⟨hx, ha⟩ := List.cons.inj h
          exact ⟨rfl, hx, ha⟩
      | cons y b' =>
          obtain ⟨-, h⟩ := List.cons.inj h
          exact absurd hx' (ha x' (by rw [h]; simp))
  | cons y b ih =>
      cases b' with
      | nil =>
          obtain ⟨rfl, -⟩ := List.cons.inj h
          exact absurd hx' (hb _ (List.mem_cons_self ..))
      | cons y' b' =>
          rw [List.cons_append, List.cons_append] at h
          obtain ⟨hy, hrest⟩ := List.cons.inj h
          obtain ⟨hbs, hx, ha⟩ := ih hrest fun z hz => hb z (List.mem_cons_of_mem _ hz)
          exact ⟨by rw [hy, hbs], hx, ha⟩

theorem Outcome.taskSafe_iff {r : Except Exit CallResult} {log : List Event} (h : Outcome texts client elicitor r log) :
    TaskSafe texts client elicitor r log ↔ ∀ e ∈ log, ¬ e.Interrupted := by
  cases h with
  | plain hrounds hok =>
      have hnone : ∀ before e after taskId, log = before ++ e :: after → ¬ e.CreatesTask texts client taskId := by
        rintro before e after taskId rfl
        exact (hrounds e (by simp)).2.1 taskId
      constructor
      · intro _ e he
        exact (hrounds e he).2.2
      · intro _
        refine ⟨?_, fun c hc => .inl (hok c hc), fun e he => (hrounds e he).1, ?_⟩
        · intro before e after taskId hlog hcreates
          exact absurd hcreates (hnone before e after taskId hlog)
        · intro before e after taskId hlog hcreates
          exact absurd hcreates (hnone before e after taskId hlog)
  | task before after params created taskId hsaid hrounds hkind hid hdriven hok =>
      subst hsaid
      have hcreated : (Event.request "tools/call" params (.ok created)).CreatesTask texts client taskId :=
        ⟨rfl, hkind, hid⟩
      -- The task is the only one.
      have honly : ∀ before' e after' taskId', before ++ .request "tools/call" params (.ok created) :: after =
          before' ++ e :: after' → e.CreatesTask texts client taskId' → after' = after ∧ taskId' = taskId := by
        intro before' e after' taskId' heq hcreates
        obtain ⟨rfl, rfl, rfl⟩ := split_unique (P := fun e => ∃ id, e.CreatesTask texts client id) heq
          (by
            rintro e he ⟨id, hc⟩
            exact (hrounds e he).2.1 id hc)
          (by
            rintro e he ⟨id, hc⟩
            cases e with
            | request m params answer =>
                cases answer with
                | ok v => exact hdriven.noCall _ he hc.1
                | error x => exact hc
            | _ => exact hc)
          ⟨taskId', hcreates⟩
        exact ⟨rfl, Option.some.inj (hcreates.2.2.symm.trans hid)⟩
      constructor
      · intro hsafe e he hi
        rcases List.mem_append.mp he with he | he
        · exact (hrounds e he).2.2 hi
        · rcases List.mem_cons.mp he with rfl | he
          · exact hi
          · obtain ⟨habandoned, hnone⟩ := hdriven.interrupted ⟨e, he, hi⟩
            obtain ⟨e', he', hcancels⟩ := hsafe.cancelled before _ after taskId rfl hcreated habandoned
            exact hnone e' he' hcancels.isRequest
      · intro hnone
        refine ⟨?_, ?_, ?_, ?_⟩
        · intro before' e after' taskId' heq hcreates habandoned
          obtain ⟨rfl, rfl⟩ := honly before' e after' taskId' heq hcreates
          rcases hdriven.sent habandoned with ⟨e', he', hi⟩ | hcancels
          · exact absurd hi (hnone e' (by simp [he']))
          · exact hcancels
        · intro c hc
          exact .inr ⟨before, params, created, after, taskId, rfl, hkind, hid, hok c hc⟩
        · intro e he
          rcases List.mem_append.mp he with he | he
          · exact (hrounds e he).1
          · rcases List.mem_cons.mp he with rfl | he
            · trivial
            · exact hdriven.shown e he
        · intro before' e after' taskId' heq hcreates
          obtain ⟨rfl, rfl⟩ := honly before' e after' taskId' heq hcreates
          exact hdriven.nodup

theorem callToolWith_adds {fuel : ℕ} {name : String} {args : Value} {opts : CallOpts} :
    (callToolWith texts env client fuel name args opts).Adds (Outcome texts client opts.elicitor) := by
  unfold callToolWith
  split
  · apply Talk.Adds.throw
    exact .failed fun e he => by cases he
  · exact callRounds_adds

/-- **Abandoned tasks.** A call keeps to all of this exactly when no `tasks/get` or `tasks/update` of it is itself ended
    by the stop flag or by its timeout. -/
theorem task_safe_iff (texts : Texts) (env : Env) (client : Client) (fuel : ℕ) (name : String) (args : Value)
    (opts : CallOpts) :
    TaskSafe texts client opts.elicitor (callToolWith texts env client fuel name args opts []).1
        (callToolWith texts env client fuel name args opts []).2 ↔
      ∀ e ∈ (callToolWith texts env client fuel name args opts []).2, ¬ e.Interrupted := by
  have hadds : (callToolWith texts env client fuel name args opts).Adds (Outcome texts client opts.elicitor) :=
    callToolWith_adds
  obtain ⟨said, hlog, houtcome⟩ := hadds []
  rw [List.nil_append] at hlog
  rw [hlog]
  exact houtcome.taskSafe_iff

/-! ## A poll that is stopped -/

/-- Texts of which nothing is shown. -/
def Texts.blank : Texts where
  json := fun _ => ""
  debug := fun s => s
  parseUrl := fun _ => none

/-- A server that answers a call with the task `t1`. The flag is raised while the first poll is in flight. -/
def stoppedInFlight : Env where
  request := fun _ method _ _ _ _ =>
    if method = "tools/call" then
      .ok (.ofEntries [("resultType", .string "task"), ("status", .string "working"), ("taskId", .string "t1")])
    else if method = "tasks/get" then .error .cancelled
    else .ok (.ofEntries [])
  isStopped := fun _ => false
  now := fun log => fromMillis (10000 * log.length)

def modernClient : Client where
  name := "files"
  timeout := fromMillis 60000
  initTimeout := fromMillis 30000
  taskTimeout := fromMillis 600000
  isHttp := false
  modernEra := true

theorem abandoned_uncancelled : ¬ ∀ (texts : Texts) (env : Env) (client : Client) (fuel : ℕ) (name : String)
    (args : Value) (opts : CallOpts), TaskSafe texts client opts.elicitor
      (callToolWith texts env client fuel name args opts []).1
      (callToolWith texts env client fuel name args opts []).2 := by
  intro h
  have hsafe := h .blank stoppedInFlight modernClient 3 "index" (.ofEntries []) ⟨none, none⟩
  have hadds : (callToolWith .blank stoppedInFlight modernClient 3 "index" (.ofEntries []) ⟨none, none⟩).Adds
      (Outcome .blank modernClient none) := callToolWith_adds
  obtain ⟨said, hlog, houtcome⟩ := hadds []
  rw [List.nil_append] at hlog
  rw [hlog] at hsafe
  have hpoll : ∃ params, .request "tasks/get" params (.error .cancelled) ∈ said := by
    rw [← hlog]
    exact ⟨_, List.mem_of_getElem? (i := 6) rfl⟩
  obtain ⟨params, hmem⟩ := hpoll
  exact houtcome.taskSafe_iff.mp hsafe _ hmem ⟨.inl rfl, trivial⟩

end

end AgentRuntime.Mcp
