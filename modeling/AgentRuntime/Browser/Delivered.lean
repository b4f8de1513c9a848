import AgentRuntime.Browser.SignIn

/-!
# `Browser.Delivered` — a sign-in answer reaches the page that asked

A request is bound to the context that raised it, as long as that context exists (`Inv.alive`); so what is handed out
goes to the context and the page of the call that raised the request (`Inv.safe`). The time a request has is only looked
at when the queue is listed: an answer comes in time exactly when none is taken for a request that is over it
(`signin_delivered_iff`).
-/

namespace AgentRuntime.Browser

open Json Machine

variable {parse : String → Option Value}

/-! ## Ids -/

theorem dash_not_mem_digits (n : ℕ) : '-' ∉ Nat.toDigits 10 n := by
  intro hmem
  have hdigit := Nat.isDigit_of_mem_toDigits (by decide) (by decide) hmem
  exact absurd hdigit (by decide)

theorem signInId_inj {n n' ms ms' : ℕ} (h : World.signInId n ms = World.signInId n' ms') : n = n' := by
  have hchars := congrArg String.toList h
  simp only [World.signInId, String.toList_append, Nat.toString_eq_repr, Nat.toList_repr, List.append_assoc] at hchars
  have hrest := List.append_cancel_left hchars
  -- the number ends at the first dash
  have hcut {m k : ℕ} : ((Nat.toDigits 10 m ++ ("-".toList ++ Nat.toDigits 10 k)).takeWhile fun c => c ≠ '-') =
      Nat.toDigits 10 m := by
    rw [List.takeWhile_append_of_pos]
    · simp
    · intro c hc
      have hne : c ≠ '-' := fun heq => dash_not_mem_digits m (heq ▸ hc)
      simpa using hne
  have hdigits := congrArg (List.takeWhile fun c => c ≠ '-') hrest
  rw [hcut, hcut] at hdigits
  rw [← Nat.ofDigitChars_ten_toDigits (n := n), hdigits, Nat.ofDigitChars_ten_toDigits]

/-! ## The invariant -/

/-- What the code makes of a binding call: where its answer goes, and what the browser says of where it came from. -/
structure Raised.Genuine (parse : String → Option Value) (r : Raised) : Prop where
  context : callContext r.event = some r.entry.contextId
  page : (callPayload parse r.event).bind pageId = some r.entry.pageId
  origin : r.entry.req.raiseOrigin = r.ctx.origin
  top : r.entry.req.topFrame = (r.ctx.isDefault && r.top == some r.ctx.frameId)

structure Inv (parse : String → Option Value) (w : World) : Prop where
  bounded : w.waiting.length ≤ maxPending
  count : w.raised.length = w.next
  ids : ∀ i r, w.raised[i]? = some r → ∃ ms, r.entry.req.id = World.signInId (i + 1) ms
  once : (w.raised.map Raised.entry).Perm (w.waiting ++ w.departed.map Prod.fst)
  genuine : ∀ r ∈ w.raised, r.Genuine parse
  alive : ∀ x ∈ w.waiting, ∃ r ∈ w.raised, r.entry = x ∧ w.contexts x.contextId = some r.ctx

/-- A context is created under an id that no context has. -/
def Fresh (w : World) : Label → Prop
  | .event ev _ _ => ∀ id ctx, created ev w.serial = some (id, ctx) → w.contexts id = none
  | _ => True

theorem Inv.init : Inv parse .init where
  bounded := Nat.zero_le _
  count := rfl
  ids i r h := by simp [World.init] at h
  once := .refl _
  genuine := by simp [World.init]
  alive := by simp [World.init]

/-- Requests leave, and those that stay have their contexts. -/
theorem Inv.leave {w : World} (h : Inv parse w) (contexts : ℤ → Option Ctx) {keep : Waiting → Bool} {why : Departure}
    (hkeep : ∀ x ∈ w.waiting, keep x = true → contexts x.contextId = w.contexts x.contextId) :
    Inv parse ({ w with contexts := contexts }.leave keep why) where
  bounded := (List.length_filter_le _ _).trans h.bounded
  count := h.count
  ids := h.ids
  once := by
    refine h.once.trans ?_
    show (w.waiting ++ w.departed.map Prod.fst).Perm (w.waiting.filter keep ++
      (w.departed ++ (w.waiting.filter fun x => !keep x).map fun x => (x, why)).map Prod.fst)
    rw [List.map_append, List.map_map]
    have hsplit : (w.waiting.filter keep ++ w.waiting.filter fun x => !keep x).Perm w.waiting :=
      List.filter_append_perm keep w.waiting
    refine (hsplit.symm.append_right _).trans ?_
    rw [List.append_assoc]
    refine List.Perm.append_left _ (List.perm_append_comm.trans ?_)
    rw [show (Prod.fst ∘ fun x : Waiting => (x, why)) = id from rfl, List.map_id]
  genuine := h.genuine
  alive x hx := by
    obtain ⟨hx, hkept⟩ := List.mem_filter.mp hx
    obtain ⟨r, hr, hentry, hctx⟩ := h.alive x hx
    exact ⟨r, hr, hentry, (hkeep x hx hkept).trans hctx⟩

theorem Inv.onBinding {w : World} (h : Inv parse w) (ev : CdpEvent) (top : Option String) (nowMs : ℕ) :
    Inv parse (w.onBinding parse ev top nowMs).1 := by
  unfold World.onBinding
  split
  · exact h
  · rename_i contextId hcontext
    split
    · exact h
    · rename_i payload hpayload
      split
      · exact h
      · rename_i page hpage
        split
        · exact h
        · rename_i kind messageHex address hasked
          split
          · exact h
          · rename_i ctx hctx
            split
            · exact h
            · rename_i hroom
              refine ⟨?_, ?_, ?_, ?_, ?_, ?_⟩
              · rw [List.length_append, List.length_singleton]
                exact not_le.mp hroom
              · rw [List.length_append, List.length_singleton, h.count]
              · intro i r hr
                rcases lt_or_ge i w.raised.length with hold | hnew
                · rw [List.getElem?_append_left hold] at hr
                  exact h.ids i r hr
                · rw [List.getElem?_append_right hnew] at hr
                  obtain ⟨hi, rfl⟩ := List.getElem?_eq_some_iff.mp hr
                  rw [List.length_singleton] at hi
                  refine ⟨nowMs, ?_⟩
                  simp only [Nat.lt_one_iff.mp hi, List.getElem_singleton, ← h.count]
                  rw [show i = w.raised.length by omega]
              · rw [List.map_append]
                refine (h.once.append_right _).trans ?_
                simp only [List.append_assoc]
                exact List.Perm.append_left _ List.perm_append_comm
              · intro r hr
                rcases List.mem_append.mp hr with hr | hr
                · exact h.genuine r hr
                · rw [List.mem_singleton.mp hr]
                  exact ⟨hcontext, by rw [hpayload]; exact hpage, rfl, rfl⟩
              · intro x hx
                rcases List.mem_append.mp hx with hx | hx
                · obtain ⟨r, hr, hentry, hctx⟩ := h.alive x hx
                  exact ⟨r, List.mem_append_left _ hr, hentry, hctx⟩
                · rw [List.mem_singleton.mp hx]
                  exact ⟨_, List.mem_append_right _ (List.mem_singleton_self _), rfl, hctx⟩

theorem Inv.onEvent {w : World} (h : Inv parse w) {ev : CdpEvent} {top : Option String} {nowMs : ℕ}
    (hfresh : Fresh w (.event ev top nowMs)) : Inv parse (w.onEvent parse ev top nowMs).1 := by
  unfold World.onEvent
  split
  · rename_i id ctx hcreated
    have hnone := hfresh id ctx hcreated
    refine ⟨h.bounded, h.count, h.ids, h.once, h.genuine, ?_⟩
    intro x hx
    obtain ⟨r, hr, hentry, hctx⟩ := h.alive x hx
    have hid : x.contextId ≠ id := by
      rintro rfl
      rw [hnone] at hctx
      cases hctx
    exact ⟨r, hr, hentry, (Function.update_of_ne hid _ _).trans hctx⟩
  · split
    · rename_i id _
      apply h.leave
      intro x _ hkept
      exact Function.update_of_ne (by simpa using hkept) _ _
    · split
      · apply h.leave
        rintro x _ ⟨⟩
      · split
        · exact h.onBinding ev top nowMs
        · exact h

theorem Inv.take {w : World} (h : Inv parse w) (id : String) (answer : SignInAnswer) :
    Inv parse (w.take id answer).1 := by
  unfold World.take
  split
  · exact h
  · rename_i x hx
    have hmem := List.mem_of_find?_eq_some hx
    split
    · refine ⟨List.erase_sublist.length_le.trans h.bounded, h.count, h.ids, ?_, h.genuine, ?_⟩
      · refine h.once.trans ?_
        rw [List.map_append, List.map_singleton]
        refine ((List.perm_cons_erase hmem).append_right _).trans ?_
        rw [List.cons_append, ← List.append_assoc]
        exact (List.perm_append_singleton _ _).symm
      · intro y hy
        exact h.alive y (List.mem_of_mem_erase hy)
    · exact h

theorem Inv.exec {w : World} (h : Inv parse w) {l : Label} (hfresh : Fresh w l) : Inv parse (w.exec parse l) := by
  cases l with
  | event ev top nowMs => exact h.onEvent hfresh
  | pending => exact h.leave w.contexts fun _ _ _ => rfl
  | take id answer => exact h.take id answer
  | tick d => exact ⟨h.bounded, h.count, h.ids, h.once, h.genuine, h.alive⟩

theorem Inv.nodup {w : World} (h : Inv parse w) : (w.raised.map fun r => r.entry.req.id).Nodup := by
  rw [List.Nodup, List.pairwise_map, List.pairwise_iff_getElem]
  intro i j hi hj hij heq
  obtain ⟨ms, hid⟩ := h.ids i _ (List.getElem?_eq_getElem hi)
  obtain ⟨ms', hid'⟩ := h.ids j _ (List.getElem?_eq_getElem hj)
  have hsame := signInId_inj (hid.symm.trans (heq.trans hid'))
  omega

/-- Two requests with one id are the same request. -/
theorem Inv.raised_inj {w : World} (h : Inv parse w) {r s : Raised} (hr : r ∈ w.raised) (hs : s ∈ w.raised)
    (hid : r.entry.req.id = s.entry.req.id) : r = s := List.inj_on_of_nodup_map h.nodup hr hs hid

/-! ## Runs -/

/-- In the run a context id is created only while no context has it. -/
def Orderly (parse : String → Option Value) (ls : List Label) : Prop :=
  ∀ before l after, ls = before ++ l :: after → Fresh (run (World.exec parse) .init before) l

theorem Orderly.before {ls ms : List Label} (h : Orderly parse (ls ++ ms)) : Orderly parse ls := by
  rintro before l after rfl
  exact h before l (after ++ ms) (by simp)

theorem Orderly.inv {ls : List Label} (h : Orderly parse ls) : Inv parse (run (World.exec parse) .init ls) := by
  induction ls using List.reverseRecOn with
  | nil => exact .init
  | append_singleton ls l ih =>
      rw [run_concat]
      exact (ih h.before).exec (h ls l [] rfl)

/-- Where the table of contexts comes from: an event of the browser. -/
theorem contexts_exec {w : World} {l : Label} {id : ℤ} {ctx : Ctx} (h : (w.exec parse l).contexts id = some ctx) :
    w.contexts id = some ctx ∨ ∃ ev top ms, l = .event ev top ms ∧ created ev w.serial = some (id, ctx) := by
  cases l with
  | event ev top ms =>
      have h : (w.onEvent parse ev top ms).1.contexts id = some ctx := h
      unfold World.onEvent at h
      split at h
      · rename_i id' ctx' hcreated
        have h : Function.update w.contexts id' (some ctx') id = some ctx := h
        by_cases hid : id = id'
        · rw [hid, Function.update_self] at h
          cases h
          exact .inr ⟨ev, top, ms, rfl, hid ▸ hcreated⟩
        · rw [Function.update_of_ne hid] at h
          exact .inl h
      · split at h
        · rename_i id' _
          have h : Function.update w.contexts id' none id = some ctx := h
          by_cases hid : id = id'
          · rw [hid, Function.update_self] at h
            cases h
          · rw [Function.update_of_ne hid] at h
            exact .inl h
        · split at h
          · cases h
          · split at h
            · refine .inl ?_
              unfold World.onBinding at h
              repeat' split at h
              all_goals exact h
            · exact .inl h
  | pending => exact .inl h
  | take id' answer =>
      have h : (w.take id' answer).1.contexts id = some ctx := h
      refine .inl ?_
      unfold World.take at h
      repeat' split at h
      all_goals exact h
  | tick d => exact .inl h

theorem raised_exec {w : World} {l : Label} {r : Raised} (h : r ∈ (w.exec parse l).raised) :
    r ∈ w.raised ∨ w.contexts r.entry.contextId = some r.ctx := by
  cases l with
  | event ev top ms =>
      have h : r ∈ (w.onEvent parse ev top ms).1.raised := h
      unfold World.onEvent at h
      split at h
      · exact .inl h
      · split at h
        · exact .inl h
        · split at h
          · exact .inl h
          · split at h
            · unfold World.onBinding at h
              -- only a call that is queued raises a request, and its context was looked up
              repeat' split at h
              iterate 6 exact .inl h
              · rename_i hctx _
                rcases List.mem_append.mp h with h | h
                · exact .inl h
                · rw [List.mem_singleton.mp h]
                  exact .inr hctx
            · exact .inl h
  | pending => exact .inl h
  | take id' answer =>
      have h : r ∈ (w.take id' answer).1.raised := h
      refine .inl ?_
      unfold World.take at h
      repeat' split at h
      all_goals exact h
  | tick d => exact .inl h

/-- The context of the request was created by an event of the run. -/
def Raised.Witnessed (ls : List Label) (r : Raised) : Prop :=
  ∃ ev top ms serial, Label.event ev top ms ∈ ls ∧ created ev serial = some (r.entry.contextId, r.ctx)

theorem witnessed (parse : String → Option Value) (ls : List Label) :
    (∀ id ctx, (run (World.exec parse) .init ls).contexts id = some ctx →
      ∃ ev top ms serial, Label.event ev top ms ∈ ls ∧ created ev serial = some (id, ctx)) ∧
    ∀ r ∈ (run (World.exec parse) .init ls).raised, r.Witnessed ls := by
  induction ls using List.reverseRecOn with
  | nil => exact ⟨by simp [World.init], by simp [World.init]⟩
  | append_singleton ls l ih =>
      rw [run_concat]
      have hearlier {id : ℤ} {ctx : Ctx} (h : (run (World.exec parse) .init ls).contexts id = some ctx) :
          ∃ ev top ms serial, Label.event ev top ms ∈ ls ++ [l] ∧ created ev serial = some (id, ctx) := by
        obtain ⟨ev, top, ms, serial, hmem, hcreated⟩ := ih.1 id ctx h
        exact ⟨ev, top, ms, serial, List.mem_append_left _ hmem, hcreated⟩
      refine ⟨?_, ?_⟩
      · intro id ctx h
        rcases contexts_exec h with h | ⟨ev, top, ms, rfl, hcreated⟩
        · exact hearlier h
        · exact ⟨ev, top, ms, _, List.mem_append_right _ (List.mem_singleton_self _), hcreated⟩
      · intro r hr
        rcases raised_exec hr with hr | hctx
        · obtain ⟨ev, top, ms, serial, hmem, hcreated⟩ := ih.2 r hr
          exact ⟨ev, top, ms, serial, List.mem_append_left _ hmem, hcreated⟩
        · exact hearlier hctx

/-! ## Departures -/

/-- Why a request may leave in a step. -/
def Leaves (parse : String → Option Value) (w : World) (l : Label) (x : Waiting) : Departure → Prop
  | .taken => ∃ answer, l = .take x.req.id answer
  | .expired => l = .pending ∧ requestTtl ≤ w.clock - x.at_
  | .ended => (w.exec parse l).contexts x.contextId = none

theorem mem_leave {w : World} {keep : Waiting → Bool} {why : Departure} {y : Waiting × Departure}
    (h : y ∈ (w.leave keep why).departed) :
    y ∈ w.departed ∨ y.1 ∈ w.waiting ∧ keep y.1 = false ∧ y.2 = why := by
  rcases List.mem_append.mp h with h | h
  · exact .inl h
  · obtain ⟨x, hx, rfl⟩ := List.mem_map.mp h
    obtain ⟨hx, hgone⟩ := List.mem_filter.mp hx
    exact .inr ⟨hx, by simpa using hgone, rfl⟩

/-- Whoever leaves in a step was waiting, and leaves for the reason that is noted. -/
theorem departed_exec {w : World} {l : Label} {y : Waiting × Departure} (h : y ∈ (w.exec parse l).departed) :
    y ∈ w.departed ∨ y.1 ∈ w.waiting ∧ Leaves parse w l y.1 y.2 := by
  cases l with
  | event ev top ms =>
      have h : y ∈ (w.onEvent parse ev top ms).1.departed := h
      have hexec : w.exec parse (.event ev top ms) = (w.onEvent parse ev top ms).1 := rfl
      unfold Leaves
      rw [hexec]
      unfold World.onEvent at h ⊢
      split at h
      · exact .inl h
      · split at h
        · rename_i id _
          rcases mem_leave h with h | ⟨hx, hgone, hwhy⟩
          · exact .inl h
          · refine .inr ⟨hx, ?_⟩
            have hid : y.1.contextId = id := by simpa using hgone
            rw [hwhy]
            show Function.update w.contexts id none y.1.contextId = none
            rw [hid, Function.update_self]
        · split at h
          · rename_i hcleared
            rcases mem_leave h with h | ⟨hx, -, hwhy⟩
            · exact .inl h
            · refine .inr ⟨hx, ?_⟩
              rw [hwhy]
              dsimp only
              rw [if_pos hcleared]
              rfl
          · split at h
            · refine .inl ?_
              unfold World.onBinding at h
              repeat' split at h
              all_goals exact h
            · exact .inl h
  | pending =>
      rcases mem_leave h with h | ⟨hx, hgone, hwhy⟩
      · exact .inl h
      · refine .inr ⟨hx, ?_⟩
        rw [hwhy]
        exact ⟨rfl, by simpa [World.live] using hgone⟩
  | take id answer =>
      have h : y ∈ (w.take id answer).1.departed := h
      unfold World.take at h
      split at h
      · exact .inl h
      · rename_i x hx
        split at h
        · rcases List.mem_append.mp h with h | h
          · exact .inl h
          · rw [List.mem_singleton.mp h]
            have hid : x.req.id = id := by simpa using List.find?_some hx
            exact .inr ⟨List.mem_of_find?_eq_some hx, answer, by rw [hid]⟩
        · exact .inl h
  | tick d => exact .inl h

/-! ## Deliveries -/

/-- What holds after a run and in its next step, whatever the times. -/
structure Safe (parse : String → Option Value) (ls : List Label) (l : Label) : Prop where
  bounded : (run (World.exec parse) .init ls).waiting.length ≤ maxPending
  ids : ((run (World.exec parse) .init ls).raised.map fun r => r.entry.req.id).Nodup
  once : ((run (World.exec parse) .init ls).raised.map Raised.entry).Perm
    ((run (World.exec parse) .init ls).waiting ++ (run (World.exec parse) .init ls).departed.map Prod.fst)
  leaves : ∀ y ∈ (run (World.exec parse) .init (ls ++ [l])).departed, y ∈ (run (World.exec parse) .init ls).departed ∨
    y.1 ∈ (run (World.exec parse) .init ls).waiting ∧ Leaves parse (run (World.exec parse) .init ls) l y.1 y.2
  genuine : ∀ r ∈ (run (World.exec parse) .init ls).raised, r.Genuine parse ∧ r.Witnessed ls
  deliveries : ∀ d answer, (d, answer) ∈ handed (run (World.exec parse) .init ls) l →
    ∃ r ∈ (run (World.exec parse) .init ls).raised, r.entry ∈ (run (World.exec parse) .init ls).waiting ∧
      d = r.entry.delivery ∧ (run (World.exec parse) .init ls).contexts d.contextId = some r.ctx ∧
      ∀ a, answer = some a → l = .take r.entry.req.id a
  errors : ∀ id answer e, ((run (World.exec parse) .init ls).take id answer).2 = .error e →
    ((run (World.exec parse) .init ls).take id answer).1 = run (World.exec parse) .init ls

/-- What a take does: nothing, or it hands out the request with that id. -/
theorem take_cases (w : World) (id : String) (answer : SignInAnswer) :
    (∃ e, (w.take id answer).2 = .error e ∧ (w.take id answer).1 = w ∧
        ∀ x, w.waiting.find? (fun x => x.req.id == id) = some x → fits x.req.kind answer = false) ∨
      ∃ x ∈ w.waiting, x.req.id = id ∧ fits x.req.kind answer = true ∧ (w.take id answer).2 = .ok x.delivery := by
  unfold World.take
  split
  · rename_i hnone
    exact .inl ⟨_, rfl, rfl, fun x hx => absurd (hnone.symm.trans hx) (by simp)⟩
  · rename_i x hx
    have hid : x.req.id = id := by simpa using List.find?_some hx
    split
    · rename_i hfits
      exact .inr ⟨x, List.mem_of_find?_eq_some hx, hid, hfits, rfl⟩
    · rename_i hnot
      refine .inl ⟨_, rfl, rfl, fun y hy => ?_⟩
      rw [hx] at hy
      cases hy
      simpa using hnot

theorem Inv.safe {ls : List Label} (h : Inv parse (run (World.exec parse) .init ls)) (l : Label) : Safe parse ls l where
  bounded := h.bounded
  ids := h.nodup
  once := h.once
  leaves y hy := by
    rw [run_concat] at hy
    exact departed_exec hy
  genuine r hr := ⟨h.genuine r hr, (witnessed parse ls).2 r hr⟩
  deliveries d answer hd := by
    have hwaiting {x : Waiting} (hx : x ∈ (run (World.exec parse) .init ls).waiting) :
        ∃ r ∈ (run (World.exec parse) .init ls).raised, r.entry ∈ (run (World.exec parse) .init ls).waiting ∧
          x.delivery = r.entry.delivery ∧ (run (World.exec parse) .init ls).contexts x.delivery.contextId = some r.ctx ∧
          r.entry = x := by
      obtain ⟨r, hr, rfl, hctx⟩ := h.alive x hx
      exact ⟨r, hr, hx, rfl, hctx, rfl⟩
    cases l with
    | event ev top ms => cases hd
    | pending =>
        obtain ⟨d', hd', hpair⟩ := List.mem_map.mp hd
        cases hpair
        obtain ⟨x, hx, rfl⟩ := List.mem_map.mp hd'
        obtain ⟨r, hr, hmem, hsame, hctx, -⟩ := hwaiting (List.mem_of_mem_filter hx)
        exact ⟨r, hr, hmem, hsame, hctx, by rintro a ⟨⟩⟩
    | take id a =>
        unfold handed at hd
        rcases take_cases (run (World.exec parse) .init ls) id a with ⟨e, he, -, -⟩ | ⟨x, hx, hid, -, hok⟩
        · simp only [he] at hd
          cases hd
        · simp only [hok, List.mem_singleton, Prod.mk.injEq] at hd
          obtain ⟨rfl, rfl⟩ := hd
          obtain ⟨r, hr, hmem, hsame, hctx, hentry⟩ := hwaiting hx
          refine ⟨r, hr, hmem, hsame, hctx, ?_⟩
          rintro _ ⟨⟩
          rw [hentry, hid]
    | tick d' => cases hd
  errors id answer e he := by
    rcases take_cases (run (World.exec parse) .init ls) id answer with ⟨_, -, hsame, -⟩ | ⟨x, -, -, -, hok⟩
    · exact hsame
    · rw [hok] at he
      cases he

/-- No answer but a refusal is handed out for a request over its time. -/
def InTime (w : World) : Label → Prop
  | .take id answer => ∀ d, (w.take id answer).2 = .ok d → answer.isRefusal = false →
      ∀ r ∈ w.raised, r.entry.req.id = id → w.clock - r.entry.at_ ≤ requestTtl
  | _ => True

/-- No request over its time is in the queue when an answer but a refusal that fits it comes. -/
def Swept (w : World) : Label → Prop
  | .take id answer => answer.isRefusal = false → ∀ x ∈ w.waiting, x.req.id = id → fits x.req.kind answer = true →
      w.clock - x.at_ ≤ requestTtl
  | _ => True

theorem Inv.inTime_iff {w : World} (h : Inv parse w) (l : Label) : InTime w l ↔ Swept w l := by
  cases l with
  | take id answer =>
      constructor
      · intro htime hanswer x hx hid hfits
        obtain ⟨r, hr, hentry, -⟩ := h.alive x hx
        rcases take_cases w id answer with ⟨e, -, -, hnot⟩ | ⟨y, -, -, -, hok⟩
        · -- the take finds a request with this id, and there is only this one
          exfalso
          cases hfind : w.waiting.find? fun x => x.req.id == id with
          | none =>
              have hnone := List.find?_eq_none.mp hfind x hx
              simp [hid] at hnone
          | some y =>
              have hy := List.mem_of_find?_eq_some hfind
              have hyid : y.req.id = id := by simpa using List.find?_some hfind
              obtain ⟨s, hs, rfl, -⟩ := h.alive y hy
              have hsame := h.raised_inj hr hs (by rw [hentry, hid, hyid])
              have hunfit := hnot _ hfind
              rw [← hsame, hentry, hfits] at hunfit
              cases hunfit
        · have hage := htime _ hok hanswer r hr (by rw [hentry, hid])
          rw [hentry] at hage
          exact hage
      · intro hswept d hok hanswer r hr hid
        rcases take_cases w id answer with ⟨e, he, -, -⟩ | ⟨x, hx, hxid, hfits, -⟩
        · rw [he] at hok
          cases hok
        · obtain ⟨s, hs, rfl, -⟩ := h.alive x hx
          rw [h.raised_inj hr hs (hid.trans hxid.symm)]
          exact hswept hanswer _ hx hxid hfits
  | _ => exact Iff.rfl

/-- **Sign-in answers.** In every run with orderly contexts requests and deliveries are safe; and no answer but a refusal
    is handed out late exactly when at every such answer the queue holds no request over its time that it fits. -/
theorem signin_delivered_iff (parse : String → Option Value) (ls : List Label) (horderly : Orderly parse ls) :
    (∀ before l after, ls = before ++ l :: after →
        Safe parse before l ∧ InTime (run (World.exec parse) .init before) l) ↔
      ∀ before l after, ls = before ++ l :: after → Swept (run (World.exec parse) .init before) l := by
  have hinv {before : List Label} {l : Label} {after : List Label} (hls : ls = before ++ l :: after) :
      Inv parse (run (World.exec parse) .init before) := Orderly.inv (Orderly.before (hls ▸ horderly))
  constructor
  · intro h before l after hls
    exact ((hinv hls).inTime_iff l).mp (h before l after hls).2
  · intro h before l after hls
    exact ⟨(hinv hls).safe l, ((hinv hls).inTime_iff l).mpr (h before l after hls)⟩

/-! ### One request -/

def payloadText : String := "\x7b\"id\":1,\"method\":\"eth_requestAccounts\"\x7d"

def parsePayload (text : String) : Option Value :=
  if text = payloadText then
    some (.object [("id", .number (.posInt 1)), ("method", .string "eth_requestAccounts")])
  else none

def contextCreated : CdpEvent where
  method := "Runtime.executionContextCreated"
  params := .object [("context", .object
    [("auxData", .object [("frameId", .string "F"), ("isDefault", .bool true)]),
      ("id", .number (.posInt 7)), ("origin", .string "https://a.example")])]
  sessionId := none

def signInCall : CdpEvent where
  method := "Runtime.bindingCalled"
  params := .object [("executionContextId", .number (.posInt 7)), ("name", .string binding),
    ("payload", .string payloadText)]
  sessionId := none

def walletAddress : String := "0x" ++ String.ofList (List.replicate 40 'a')

/-- A page asks for an address, and core answers after this time. -/
def answeredAfter (d : Duration) : List Label :=
  [.event contextCreated (some "F") 0, .event signInCall (some "F") 0, .tick d,
    .take (World.signInId 1 0) (.accounts [walletAddress])]

/-- A split of a list of four. -/
theorem split_four {α : Type} {a b c d l : α} {before after : List α} (h : [a, b, c, d] = before ++ l :: after) :
    (before, l) ∈ [([], a), ([a], b), ([a, b], c), ([a, b, c], d)] := by
  rcases before with _ | ⟨_, _ | ⟨_, _ | ⟨_, _ | ⟨_, before⟩⟩⟩⟩
  all_goals simp at h
  all_goals simp [h]

theorem answeredAfter_orderly (d : Duration) : Orderly parsePayload (answeredAfter d) := by
  intro before l after hls
  have hsplit := split_four hls
  simp only [List.mem_cons, Prod.mk.injEq, List.not_mem_nil, or_false] at hsplit
  rcases hsplit with ⟨rfl, rfl⟩ | ⟨rfl, rfl⟩ | ⟨rfl, rfl⟩ | ⟨rfl, rfl⟩
  · exact fun _ _ _ => rfl
  · rintro id ctx ⟨⟩
  · trivial
  · trivial

/-- An answer after a second is in time. -/
theorem signin_delivered_second :
    Orderly parsePayload (answeredAfter 1000000000) ∧
      ∀ before l after, answeredAfter 1000000000 = before ++ l :: after →
        Safe parsePayload before l ∧ InTime (run (World.exec parsePayload) .init before) l := by
  refine ⟨answeredAfter_orderly _, ?_⟩
  refine (signin_delivered_iff parsePayload _ (answeredAfter_orderly _)).mpr ?_
  intro before l after hls
  have hsplit := split_four hls
  simp only [List.mem_cons, Prod.mk.injEq, List.not_mem_nil, or_false] at hsplit
  rcases hsplit with ⟨rfl, rfl⟩ | ⟨rfl, rfl⟩ | ⟨rfl, rfl⟩ | ⟨rfl, rfl⟩
  · trivial
  · trivial
  · trivial
  · intro _ x hx _ _
    have hages : ((run (World.exec parsePayload) .init [.event contextCreated (some "F") 0,
        .event signInCall (some "F") 0, .tick 1000000000]).waiting.map Waiting.at_) = [0] := by decide +kernel
    have hx := List.mem_map_of_mem (f := Waiting.at_) hx
    rw [hages, List.mem_singleton] at hx
    rw [hx]
    decide +kernel

/-- The bridge two minutes and a second after a page asked. -/
def lateWorld : World :=
  run (World.exec parsePayload) .init
    [.event contextCreated (some "F") 0, .event signInCall (some "F") 0, .tick (121 * 1000000000)]

/-- An answer two minutes and a second after the question is handed out. -/
theorem late_answer_delivered :
    ¬ ∀ parse ls, Orderly parse ls → ∀ before l after, ls = before ++ l :: after →
      Safe parse before l ∧ InTime (run (World.exec parse) .init before) l := by
  intro h
  have hlate : InTime lateWorld (.take (World.signInId 1 0) (.accounts [walletAddress])) :=
    (h parsePayload _ (answeredAfter_orderly (121 * 1000000000)) [_, _, _] _ [] rfl).2
  have hraised : (World.signInId 1 0, 0) ∈ lateWorld.raised.map fun r => (r.entry.req.id, r.entry.at_) := by
    decide +kernel
  obtain ⟨r, hr, hpair⟩ := List.mem_map.mp hraised
  obtain ⟨hid, hat⟩ := Prod.mk.inj hpair
  cases htake : (lateWorld.take (World.signInId 1 0) (.accounts [walletAddress])).2 with
  | error e =>
      have hok : (lateWorld.take (World.signInId 1 0) (.accounts [walletAddress])).2.isOk = true := by decide +kernel
      rw [htake] at hok
      cases hok
  | ok d =>
      have hage := hlate d htake rfl r hr hid
      rw [hat] at hage
      exact absurd hage (by decide +kernel)

end AgentRuntime.Browser
