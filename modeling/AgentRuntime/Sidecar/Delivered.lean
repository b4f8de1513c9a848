import AgentRuntime.Sidecar.CoreCalls

/-!
# `Sidecar.Delivered` — core's answers reach their own call

`CoreInv` follows one sender from the table to the post that took it, and one outcome from its post through the channel
to the call's result. The senders are never shared: a channel is in the table, or taken by one post.

The code can lose an answer that comes between the last look of a call at its channel and its return, and it can hand an
answer for an ended call to a later call with the same id. `NotCrossed` excludes both; `crossed` shows both.
-/

namespace AgentRuntime.Sidecar

open Loop Transition

/-! ## The invariant -/

/-- The call under way, by its id and its channel. -/
def CallPc.current? : CallPc → Option (String × ℕ)
  | .idle => none
  | .registered id n => some (id, n)
  | .announced id n => some (id, n)
  | .waiting id n _ => some (id, n)
  | .checking id n _ => some (id, n)
  | .ended id n _ _ => some (id, n)
  | .cleaned id n _ _ => some (id, n)

/-- The outcome a call ends with, and the post it came from. -/
def CallPc.holds? : CallPc → Option (ToolOutcome × Option ℕ)
  | .ended _ _ o post => some (o, post)
  | .cleaned _ _ o post => some (o, post)
  | _ => none

def CallPc.isCleaned : CallPc → Bool
  | .cleaned .. => true
  | _ => false

theorem CallPc.Attends.current {n : ℕ} {pc : CallPc} (h : pc.Attends n) : ∃ id, pc.current? = some (id, n) := by
  cases pc <;> simp_all [CallPc.Attends, CallPc.current?]

/-- The post `k` arrived on the channel `n` with the outcome `o`. -/
def Arrived (w : CoreWorld) (k n : ℕ) (o : ToolOutcome) : Prop :=
  ∃ d, w.deliveries k = some d ∧ d.outcome = o ∧ d.channel = some n ∧ d.result = some true

structure CoreInv (w : CoreWorld) : Prop where
  current : ∀ id n, w.loop.current? = some (id, n) → n < w.made ∧ w.results n = none
  receiver : ∀ n, n < w.made → (w.channels n).receiver = true → ∃ id, w.loop.current? = some (id, n)
  pending : ∀ id n, w.pending id = some n → w.loop.current? = some (id, n) ∧ w.loop.isCleaned = false
  armed : ∀ id n, w.armed id = some n → w.loop = .registered id n ∨ w.loop = .announced id n
  ready : ∀ id n, w.loop = .registered id n ∨ w.loop = .announced id n → w.armed id = some n
  value : ∀ n o k, (w.channels n).value = some (o, k) → w.loop.Attends n ∧ Arrived w k n o
  posted : ∀ k d, w.deliveries k = some d → k < w.posts ∧ (d.channel = none → d.result = some false) ∧
    ∀ n, d.channel = some n → d.target = n ∧ n < w.made
  once : ∀ k k' d d' n, w.deliveries k = some d → w.deliveries k' = some d' → d.channel = some n →
    d'.channel = some n → k = k'
  free : ∀ id n k d, w.pending id = some n → w.deliveries k = some d → d.channel ≠ some n
  kept : ∀ k n o, Arrived w k n o → (w.channels n).value = some (o, k) ∨
    ((∃ id, w.loop.current? = some (id, n)) ∧ w.loop.holds? = some (o, some k)) ∨ w.results n = some (o, some k)
  held : ∀ id n o k, w.loop.current? = some (id, n) → w.loop.holds? = some (o, some k) → Arrived w k n o
  result : ∀ n o k, w.results n = some (o, some k) → Arrived w k n o
  returned : ∀ n r, w.results n = some r → n < w.made

theorem coreInv_init : CoreInv .init := by
  constructor <;> simp [CoreWorld.init, CallPc.current?, CallPc.holds?, Arrived, Channel.new]

namespace CoreInv

variable {w : CoreWorld} {deadline : ℕ}

/-- A channel with an unread outcome is the one of the call under way. -/
theorem value_current (h : CoreInv w) {id : String} {m n k : ℕ} {o : ToolOutcome}
    (hv : (w.channels m).value = some (o, k)) (hn : w.loop.current? = some (id, n)) : m = n := by
  obtain ⟨id', hm⟩ := (h.value m o k hv).1.current
  rw [hn] at hm
  exact (congrArg Prod.snd (Option.some.inj hm)).symm

/-! ### Moves of the loop -/

/-- The loop goes on in the same call. -/
theorem move (h : CoreInv w) {pc : CallPc} {armed : String → Option ℕ} (hcur : pc.current? = w.loop.current?)
    (hclean : pc.isCleaned = w.loop.isCleaned) (hholds : pc.holds? = w.loop.holds?)
    (hattends : ∀ n, w.loop.Attends n → pc.Attends n)
    (harmed : ∀ id n, armed id = some n ↔ pc = .registered id n ∨ pc = .announced id n) :
    CoreInv { w with armed, loop := pc } :=
  { h with
    current := fun id n hn => h.current id n (hcur.symm.trans hn)
    receiver := by
      intro n hlt hr
      obtain ⟨id, hid⟩ := h.receiver n hlt hr
      exact ⟨id, hcur.trans hid⟩
    pending := fun id n hp => ⟨hcur.trans (h.pending id n hp).1, hclean.trans (h.pending id n hp).2⟩
    armed := fun id n => (harmed id n).mp
    ready := fun id n => (harmed id n).mpr
    value := fun n o k hv => ⟨hattends n (h.value n o k hv).1, (h.value n o k hv).2⟩
    kept := by
      intro k n o harrived
      rcases h.kept k n o harrived with hv | ⟨⟨id, hid⟩, hh⟩ | hr
      · exact .inl hv
      · exact .inr (.inl ⟨⟨id, hcur.trans hid⟩, hholds.trans hh⟩)
      · exact .inr (.inr hr)
    held := fun id n o k hc hh => h.held id n o k (hcur.symm.trans hc) (hholds.symm.trans hh) }

/-- The wait ends without an answer, and its channel is empty. -/
theorem giveUp (h : CoreInv w) {id : String} {n : ℕ} (hcur : w.loop.current? = some (id, n))
    (hclean : w.loop.isCleaned = false) (hholds : w.loop.holds? = none) (hempty : (w.channels n).value = none)
    (harmed : ∀ id m, w.armed id ≠ some m) (o : ToolOutcome) : CoreInv { w with loop := .ended id n o none } :=
  { h with
    current := fun id' m hm => h.current id' m (hcur.trans hm)
    receiver := by
      intro m hlt hr
      obtain ⟨id', hid⟩ := h.receiver m hlt hr
      exact ⟨id', hcur.symm.trans hid⟩
    pending := fun id' m hp => ⟨hcur.symm.trans (h.pending id' m hp).1, rfl⟩
    armed := fun id' m hm => absurd hm (harmed id' m)
    ready := by
      rintro id' m (hm | hm) <;> cases hm
    value := by
      intro m o' k hv
      rw [h.value_current hv hcur, hempty] at hv
      cases hv
    kept := by
      intro k m o' harrived
      rcases h.kept k m o' harrived with hv | ⟨-, hh⟩ | hr
      · exact .inl hv
      · rw [hholds] at hh
        cases hh
      · exact .inr (.inr hr)
    held := by
      intro id' m o' k _ hh
      cases hh }

/-- The wait ends with the outcome in the channel. -/
theorem take (h : CoreInv w) {id : String} {n k : ℕ} {o : ToolOutcome} (hcur : w.loop.current? = some (id, n))
    (hholds : w.loop.holds? = none) (hvalue : (w.channels n).value = some (o, k))
    (harmed : ∀ id m, w.armed id ≠ some m) :
    CoreInv { w.setChannel n { w.channels n with value := none } with loop := .ended id n o (some k) } := by
  have harrived : Arrived w k n o := (h.value n o k hvalue).2
  have hchannel {m : ℕ} (hm : m ≠ n) :
      Function.update w.channels n { w.channels n with value := none } m = w.channels m := Function.update_of_ne hm ..
  exact { h with
    current := fun id' m hm => h.current id' m (hcur.trans hm)
    receiver := by
      intro m hlt hr
      have hr' : (w.channels m).receiver = true := by
        by_cases hm : m = n
        · subst hm
          simpa [CoreWorld.setChannel] using hr
        · simpa [CoreWorld.setChannel, hchannel hm] using hr
      obtain ⟨id', hid⟩ := h.receiver m hlt hr'
      exact ⟨id', hcur.symm.trans hid⟩
    pending := fun id' m hp => ⟨hcur.symm.trans (h.pending id' m hp).1, rfl⟩
    armed := fun id' m hm => absurd hm (harmed id' m)
    ready := by
      rintro id' m (hm | hm) <;> cases hm
    value := by
      intro m o' k' hv
      by_cases hm : m = n
      · subst hm
        simp [CoreWorld.setChannel] at hv
      · simp only [CoreWorld.setChannel, hchannel hm] at hv
        exact absurd (h.value_current hv hcur) hm
    kept := by
      intro k' m o' harrived'
      rcases h.kept k' m o' harrived' with hv | ⟨-, hh⟩ | hr
      · have hm := h.value_current hv hcur
        subst hm
        rw [hvalue] at hv
        cases hv
        exact .inr (.inl ⟨⟨id, rfl⟩, rfl⟩)
      · rw [hholds] at hh
        cases hh
      · exact .inr (.inr hr)
    held := by
      intro id' m o' k' hm hh
      cases hm
      cases hh
      exact harrived }

/-- The entry of the call is removed. -/
theorem cleanup (h : CoreInv w) {id : String} {n : ℕ} {o : ToolOutcome} {post : Option ℕ}
    (hl : w.loop = .ended id n o post) {channels : ℕ → Channel}
    (hchannels : ∀ m, (channels m).value = (w.channels m).value ∧ (channels m).receiver = (w.channels m).receiver) :
    CoreInv { w with
      channels
      pending := Function.update w.pending id none
      loop := .cleaned id n o post } := by
  have hcur : w.loop.current? = some (id, n) := by rw [hl]; rfl
  have hempty (id' : String) : Function.update w.pending id none id' = none := by
    by_cases hid : id' = id
    · rw [hid, Function.update_self]
    · rw [Function.update_of_ne hid]
      cases hp : w.pending id' with
      | none => rfl
      | some m =>
          have := (h.pending id' m hp).1
          rw [hcur] at this
          cases this
          exact absurd rfl hid
  have hattends (m : ℕ) : ¬ w.loop.Attends m := by
    rw [hl]
    exact not_false
  exact { h with
    current := fun id' m hm => h.current id' m (hcur.trans hm)
    receiver := by
      intro m hlt hr
      obtain ⟨id', hid⟩ := h.receiver m hlt ((hchannels m).2.symm.trans hr)
      exact ⟨id', hcur.symm.trans hid⟩
    pending := by
      intro id' m hp
      have := hempty id'
      rw [show Function.update w.pending id none id' = some m from hp] at this
      cases this
    armed := by
      intro id' m hm
      rcases h.armed id' m hm with hl' | hl' <;> rw [hl] at hl' <;> cases hl'
    ready := by
      rintro id' m (hm | hm) <;> cases hm
    value := fun m o' k hv => absurd (h.value m o' k ((hchannels m).1.symm.trans hv)).1 (hattends m)
    free := by
      intro id' m k d hp
      have := hempty id'
      rw [show Function.update w.pending id none id' = some m from hp] at this
      cases this
    kept := by
      intro k m o' harrived
      rcases h.kept k m o' harrived with hv | ⟨⟨id', hid⟩, hh⟩ | hr
      · exact .inl ((hchannels m).1.trans hv)
      · rw [hl] at hid hh
        exact .inr (.inl ⟨⟨id', hid⟩, hh⟩)
      · exact .inr (.inr hr)
    held := by
      intro id' m o' k hm hh
      exact h.held id' m o' k (hcur.trans hm) (by rw [hl]; exact hh) }

/-- The call returns. -/
theorem finish (h : CoreInv w) {id : String} {n : ℕ} {o : ToolOutcome} {post : Option ℕ}
    (hl : w.loop = .cleaned id n o post) :
    CoreInv { w.setChannel n { w.channels n with receiver := false } with
      loop := .idle
      results := Function.update w.results n (some (o, post)) } := by
  have hcur : w.loop.current? = some (id, n) := by rw [hl]; rfl
  have hlt := (h.current id n hcur).1
  have hvalue (m : ℕ) : (Function.update w.channels n { w.channels n with receiver := false } m).value =
      (w.channels m).value := by
    by_cases hm : m = n
    · subst hm
      simp
    · rw [Function.update_of_ne hm]
  have hattends (m : ℕ) : ¬ w.loop.Attends m := by
    rw [hl]
    exact not_false
  have hpending (id' : String) (m : ℕ) : w.pending id' ≠ some m := by
    intro hp
    have := (h.pending id' m hp).2
    rw [hl] at this
    cases this
  exact { h with
    current := by
      intro id' m hm
      cases hm
    receiver := by
      intro m hlt hr
      by_cases hm : m = n
      · subst hm
        simp [CoreWorld.setChannel] at hr
      · have hr' : (w.channels m).receiver = true := by
          simpa [CoreWorld.setChannel, Function.update_of_ne hm] using hr
        obtain ⟨id', hid⟩ := h.receiver m hlt hr'
        rw [hcur] at hid
        cases hid
        exact absurd rfl hm
    pending := fun id' m hp => absurd hp (hpending id' m)
    armed := by
      intro id' m hm
      rcases h.armed id' m hm with hl' | hl' <;> rw [hl] at hl' <;> cases hl'
    ready := by
      rintro id' m (hm | hm) <;> cases hm
    value := fun m o' k hv => absurd (h.value m o' k ((hvalue m).symm.trans hv)).1 (hattends m)
    kept := by
      intro k m o' harrived
      rcases h.kept k m o' harrived with hv | ⟨⟨id', hid⟩, hh⟩ | hr
      · exact .inl ((hvalue m).trans hv)
      · rw [hl] at hid hh
        cases hid
        cases hh
        exact .inr (.inr (Function.update_self ..))
      · refine .inr (.inr ?_)
        have hm : m ≠ n := by
          rintro rfl
          rw [(h.current id m hcur).2] at hr
          cases hr
        exact (Function.update_of_ne hm ..).trans hr
    held := by
      intro id' m o' k hm _
      cases hm
    result := by
      intro m o' k hr
      by_cases hm : m = n
      · subst hm
        have hr' : Function.update w.results m (some (o, post)) m = some (o', some k) := hr
        rw [Function.update_self] at hr'
        cases hr'
        exact h.held id m o k hcur (by rw [hl]; rfl)
      · exact h.result m o' k ((Function.update_of_ne hm ..).symm.trans hr)
    returned := by
      intro m r hr
      by_cases hm : m = n
      · rw [hm]
        exact hlt
      · exact h.returned m r ((Function.update_of_ne hm ..).symm.trans hr) }

/-- A new call is registered and armed. -/
theorem register (h : CoreInv w) (hl : w.loop = .idle) (id : String) :
    CoreInv { w.register id with
      armed := Function.update w.armed id (some w.made)
      loop := .registered id w.made } := by
  have hpending (id' : String) : w.pending id' = none := by
    cases hp : w.pending id' with
    | none => rfl
    | some m =>
        have := (h.pending id' m hp).1
        rw [hl] at this
        cases this
  have harmed (id' : String) : w.armed id' = none := by
    cases hp : w.armed id' with
    | none => rfl
    | some m => rcases h.armed id' m hp with hl' | hl' <;> rw [hl] at hl' <;> cases hl'
  have hdrop : w.dropSender id = w := by
    unfold CoreWorld.dropSender
    rw [hpending id]
  have hchannel {m : ℕ} (hm : m ≠ w.made) : Function.update w.channels w.made .new m = w.channels m :=
    Function.update_of_ne hm ..
  have hvalue (m : ℕ) (o : ToolOutcome) (k : ℕ) : (w.channels m).value ≠ some (o, k) := by
    intro hv
    have := (h.value m o k hv).1
    rw [hl] at this
    exact this
  unfold CoreWorld.register
  rw [hdrop]
  exact { h with
    current := by
      intro id' m hm
      cases hm
      refine ⟨Nat.lt_succ_self _, ?_⟩
      show w.results w.made = none
      cases hr : w.results w.made with
      | none => rfl
      | some r => exact absurd (h.returned _ r hr) (lt_irrefl _)
    receiver := by
      intro m hlt hr
      by_cases hm : m = w.made
      · exact ⟨id, by rw [hm]; rfl⟩
      · have hr' : (w.channels m).receiver = true := by
          simpa [CoreWorld.setChannel, hchannel hm] using hr
        obtain ⟨id', hid⟩ := h.receiver m (lt_of_le_of_ne (Nat.lt_succ_iff.mp hlt) hm) hr'
        rw [hl] at hid
        cases hid
    pending := by
      intro id' m hp
      have hp' : Function.update w.pending id (some w.made) id' = some m := hp
      by_cases hid : id' = id
      · rw [hid, Function.update_self] at hp'
        cases hp'
        rw [hid]
        exact ⟨rfl, rfl⟩
      · rw [Function.update_of_ne hid, hpending] at hp'
        cases hp'
    armed := by
      intro id' m hp
      have hp' : Function.update w.armed id (some w.made) id' = some m := hp
      by_cases hid : id' = id
      · rw [hid, Function.update_self] at hp'
        cases hp'
        rw [hid]
        exact .inl rfl
      · rw [Function.update_of_ne hid, harmed] at hp'
        cases hp'
    ready := by
      rintro id' m (hm | hm)
      · cases hm
        exact Function.update_self ..
      · cases hm
    value := by
      intro m o k hv
      by_cases hm : m = w.made
      · subst hm
        simp [CoreWorld.setChannel, Channel.new] at hv
      · simp only [CoreWorld.setChannel, hchannel hm] at hv
        exact absurd hv (hvalue m o k)
    posted := by
      intro k d hd
      obtain ⟨hlt, hnone, hsome⟩ := h.posted k d hd
      exact ⟨hlt, hnone, fun n hn => ⟨(hsome n hn).1, Nat.lt_succ_of_lt (hsome n hn).2⟩⟩
    free := by
      intro id' m k d hp hd hn
      have hp' : Function.update w.pending id (some w.made) id' = some m := hp
      by_cases hid : id' = id
      · rw [hid, Function.update_self] at hp'
        cases hp'
        exact absurd ((h.posted k d hd).2.2 _ hn).2 (lt_irrefl _)
      · rw [Function.update_of_ne hid, hpending] at hp'
        cases hp'
    kept := by
      intro k m o harrived
      rcases h.kept k m o harrived with hv | ⟨⟨id', hid⟩, -⟩ | hr
      · exact absurd hv (hvalue m o k)
      · rw [hl] at hid
        cases hid
      · exact .inr (.inr hr)
    held := by
      intro id' m o k _ hh
      cases hh
    returned := fun m r hr => Nat.lt_succ_of_lt (h.returned m r hr) }

/-! ### Deliveries -/

/-- Core posts: the sender of the id, if it is there, leaves the table. -/
theorem post (h : CoreInv w) {id : String} {o : ToolOutcome} {target : ℕ}
    (hnot : NotCrossed deadline w (.post id o target)) : CoreInv (w.exec deadline (.post id o target)) := by
  have hdelivery {k : ℕ} (hk : k ≠ w.posts) (d : Option Delivery) :
      Function.update w.deliveries w.posts d k = w.deliveries k := Function.update_of_ne hk ..
  have hnew (k : ℕ) (d : Delivery) (hd : w.deliveries k = some d) : k ≠ w.posts := by
    rintro rfl
    exact absurd (h.posted _ d hd).1 (lt_irrefl _)
  -- the new post has not arrived anywhere
  have hresult : (if (w.pending id).isSome then none else some false) ≠ some true := by
    split <;> simp
  have harrived (k m : ℕ) (o' : ToolOutcome) : Arrived (w.exec deadline (.post id o target)) k m o' ↔
      Arrived w k m o' := by
    constructor
    · rintro ⟨d, hd, rest⟩
      by_cases hk : k = w.posts
      · subst hk
        have hd' : Function.update w.deliveries w.posts _ w.posts = some d := hd
        rw [Function.update_self] at hd'
        cases hd'
        exact absurd rest.2.2 hresult
      · exact ⟨d, (hdelivery hk _).symm.trans hd, rest⟩
    · rintro ⟨d, hd, rest⟩
      exact ⟨d, (hdelivery (hnew k d hd) _).trans hd, rest⟩
  have hold {id' : String} {m : ℕ} (hp : Function.update w.pending id none id' = some m) :
      id' ≠ id ∧ w.pending id' = some m := by
    by_cases hid : id' = id
    · rw [hid, Function.update_self] at hp
      cases hp
    · rw [Function.update_of_ne hid] at hp
      exact ⟨hid, hp⟩
  constructor
  · exact h.current
  · exact h.receiver
  · exact fun id' m hp => h.pending id' m (hold hp).2
  · exact h.armed
  · exact h.ready
  · exact fun m o' k hv => ⟨(h.value m o' k hv).1, (harrived k m o').mpr (h.value m o' k hv).2⟩
  · intro k d hd
    by_cases hk : k = w.posts
    · subst hk
      have hd' : Function.update w.deliveries w.posts _ w.posts = some d := hd
      rw [Function.update_self] at hd'
      cases hd'
      refine ⟨Nat.lt_succ_self _, ?_, ?_⟩
      · intro hnone
        have hnone' : w.pending id = none := hnone
        simp [hnone']
      · intro m hm
        have hm' : w.pending id = some m := hm
        exact ⟨(hnot m hm').symm, (h.current id m (h.pending id m hm').1).1⟩
    · obtain ⟨hlt, hrest⟩ := h.posted k d ((hdelivery hk _).symm.trans hd)
      exact ⟨Nat.lt_succ_of_lt hlt, hrest⟩
  · intro k k' d d' m hd hd' hm hm'
    by_cases hk : k = w.posts <;> by_cases hk' : k' = w.posts
    · rw [hk, hk']
    · subst hk
      have hd₁ : Function.update w.deliveries w.posts _ w.posts = some d := hd
      rw [Function.update_self] at hd₁
      cases hd₁
      exact absurd hm' (h.free id m k' d' hm ((hdelivery hk' _).symm.trans hd'))
    · subst hk'
      have hd₁ : Function.update w.deliveries w.posts _ w.posts = some d' := hd'
      rw [Function.update_self] at hd₁
      cases hd₁
      exact absurd hm (h.free id m k d hm' ((hdelivery hk _).symm.trans hd))
    · exact h.once k k' d d' m ((hdelivery hk _).symm.trans hd) ((hdelivery hk' _).symm.trans hd') hm hm'
  · intro id' m k d hp hd hm
    obtain ⟨hid, hp'⟩ := hold hp
    by_cases hk : k = w.posts
    · subst hk
      have hd₁ : Function.update w.deliveries w.posts _ w.posts = some d := hd
      rw [Function.update_self] at hd₁
      cases hd₁
      have hm' : w.pending id = some m := hm
      -- one channel is in the table once
      have h₁ := (h.pending id' m hp').1
      have h₂ := (h.pending id m hm').1
      rw [h₁] at h₂
      cases h₂
      exact hid rfl
    · exact h.free id' m k d hp' ((hdelivery hk _).symm.trans hd) hm
  · exact fun k m o' ha => h.kept k m o' ((harrived k m o').mp ha)
  · exact fun id' m o' k hc hh => (harrived k m o').mpr (h.held id' m o' k hc hh)
  · exact fun m o' k hr => (harrived k m o').mpr (h.result m o' k hr)
  · exact h.returned

/-- Core's `deliver` sends what it took the sender for. -/
theorem send (h : CoreInv w) {k : ℕ} (hnot : NotCrossed deadline w (.send k)) {d : Delivery} {n : ℕ}
    (hd : w.deliveries k = some d) (hn : d.channel = some n) (hr : d.result = none) :
    CoreInv (w.sendTo k d n) := by
  have hreceiver := hnot d n hd hn hr
  have hdelivery {k' : ℕ} (hk : k' ≠ k) (x : Option Delivery) :
      Function.update w.deliveries k x k' = w.deliveries k' := Function.update_of_ne hk ..
  have hself : (w.sendTo k d n).deliveries k = some { d with result := some (w.channels n).receiver } :=
    Function.update_self ..
  -- nothing else was ever sent to this channel
  have hempty (o : ToolOutcome) (k' : ℕ) : (w.channels n).value ≠ some (o, k') := by
    intro hv
    obtain ⟨d', hd', -, hn', hr'⟩ := (h.value n o k' hv).2
    have := h.once k k' d d' n hd hd' hn hn'
    subst this
    rw [hd] at hd'
    cases hd'
    rw [hr] at hr'
    cases hr'
  have harrived (k' m : ℕ) (o : ToolOutcome) : Arrived (w.sendTo k d n) k' m o ↔
      Arrived w k' m o ∨ (k' = k ∧ m = n ∧ o = d.outcome ∧ (w.channels n).receiver = true) := by
    constructor
    · rintro ⟨d', hd', ho, hm, hr'⟩
      by_cases hk : k' = k
      · rw [hk, hself] at hd'
        cases hd'
        right
        exact ⟨hk, Option.some.inj (hm.symm.trans hn), ho.symm, Option.some.inj hr'⟩
      · exact .inl ⟨d', (hdelivery hk _).symm.trans hd', ho, hm, hr'⟩
    · rintro (⟨d', hd', ho, hm, hr'⟩ | ⟨rfl, rfl, rfl, hr'⟩)
      · have hk : k' ≠ k := by
          rintro rfl
          rw [hd] at hd'
          cases hd'
          rw [hr] at hr'
          cases hr'
        exact ⟨d', (hdelivery hk _).trans hd', ho, hm, hr'⟩
      · exact ⟨_, hself, rfl, hn, by rw [hr']⟩
  have hvalue (m : ℕ) (o : ToolOutcome) (k' : ℕ) : ((w.sendTo k d n).channels m).value = some (o, k') ↔
      (w.channels m).value = some (o, k') ∨
        (k' = k ∧ m = n ∧ o = d.outcome ∧ (w.channels n).receiver = true) := by
    show (Function.update w.channels n _ m).value = _ ↔ _
    by_cases hm : m = n
    · subst hm
      rw [Function.update_self]
      simp only
      cases hlive : (w.channels m).receiver with
      | true =>
          rw [if_pos rfl]
          constructor
          · intro heq
            cases heq
            exact .inr ⟨rfl, trivial, rfl, rfl⟩
          · rintro (hv | ⟨rfl, -, rfl, -⟩)
            · exact absurd hv (hempty o k')
            · rfl
      | false =>
          rw [if_neg (by simp)]
          constructor
          · exact .inl
          · rintro (hv | ⟨-, -, -, hfalse⟩)
            · exact hv
            · cases hfalse
    · rw [Function.update_of_ne hm]
      constructor
      · exact .inl
      · rintro (hv | ⟨-, hmn, -⟩)
        · exact hv
        · exact absurd hmn hm
  have hfields (k' : ℕ) (d' : Delivery) (hd' : (w.sendTo k d n).deliveries k' = some d') :
      ∃ d₀, w.deliveries k' = some d₀ ∧ d'.channel = d₀.channel ∧ d'.target = d₀.target := by
    by_cases hk : k' = k
    · rw [hk, hself] at hd'
      cases hd'
      exact ⟨d, by rw [hk]; exact hd, rfl, rfl⟩
    · exact ⟨d', (hdelivery hk _).symm.trans hd', rfl, rfl⟩
  constructor
  · exact h.current
  · intro m hlt hlive
    have hlive' : (Function.update w.channels n _ m).receiver = true := hlive
    by_cases hm : m = n
    · subst hm
      rw [Function.update_self] at hlive'
      exact h.receiver m hlt hlive'
    · rw [Function.update_of_ne hm] at hlive'
      exact h.receiver m hlt hlive'
  · exact h.pending
  · exact h.armed
  · exact h.ready
  · intro m o k' hv
    rcases (hvalue m o k').mp hv with hv | ⟨rfl, rfl, rfl, hlive⟩
    · exact ⟨(h.value m o k' hv).1, (harrived k' m o).mpr (.inl (h.value m o k' hv).2)⟩
    · exact ⟨hreceiver hlive, (harrived _ _ _).mpr (.inr ⟨rfl, rfl, rfl, hlive⟩)⟩
  · intro k' d' hd'
    by_cases hk : k' = k
    · rw [hk, hself] at hd'
      cases hd'
      obtain ⟨hlt, -, hsome⟩ := h.posted k d hd
      refine ⟨by rw [hk]; exact hlt, ?_, hsome⟩
      intro hnone
      have hnone' : d.channel = none := hnone
      rw [hn] at hnone'
      cases hnone'
    · exact h.posted k' d' ((hdelivery hk _).symm.trans hd')
  · intro k₁ k₂ d₁ d₂ m hd₁ hd₂ hm₁ hm₂
    obtain ⟨e₁, he₁, hc₁, -⟩ := hfields k₁ d₁ hd₁
    obtain ⟨e₂, he₂, hc₂, -⟩ := hfields k₂ d₂ hd₂
    exact h.once k₁ k₂ e₁ e₂ m he₁ he₂ (hc₁.symm.trans hm₁) (hc₂.symm.trans hm₂)
  · intro id m k' d' hp hd' hm
    obtain ⟨e, he, hc, -⟩ := hfields k' d' hd'
    exact h.free id m k' e hp he (hc.symm.trans hm)
  · intro k' m o ha
    rcases (harrived k' m o).mp ha with ha | hnew
    · rcases h.kept k' m o ha with hv | hrest
      · exact .inl ((hvalue m o k').mpr (.inl hv))
      · exact .inr hrest
    · exact .inl ((hvalue m o k').mpr (.inr hnew))
  · exact fun id m o k' hc hh => (harrived k' m o).mpr (.inl (h.held id m o k' hc hh))
  · exact fun m o k' hr => (harrived k' m o).mpr (.inl (h.result m o k' hr))
  · exact h.returned

/-- A call that is waiting is not armed any more. -/
theorem not_armed (h : CoreInv w) (hl : ∀ id n, w.loop ≠ .registered id n ∧ w.loop ≠ .announced id n) (id : String)
    (m : ℕ) : w.armed id ≠ some m := by
  intro hm
  rcases h.armed id m hm with hl' | hl'
  · exact (hl id m).1 hl'
  · exact (hl id m).2 hl'

/-- **One access** keeps the invariant. -/
theorem exec (h : CoreInv w) {l : CoreLabel} (hnot : NotCrossed deadline w l) : CoreInv (w.exec deadline l) := by
  cases l with
  | register id =>
      dsimp only [CoreWorld.exec]
      split
      · rename_i hl
        exact h.register hl id
      · exact h
  | announce =>
      dsimp only [CoreWorld.exec]
      split
      · rename_i id n hl
        apply h.move
        · rw [hl]
          rfl
        · rw [hl]
          rfl
        · rw [hl]
          rfl
        · intro m hm
          rw [hl] at hm
          exact hm
        · intro id' m
          constructor
          · intro hm
            rcases h.armed id' m hm with hl' | hl' <;> rw [hl] at hl' <;> cases hl'
            exact .inr rfl
          · rintro (hl' | hl') <;> cases hl'
            exact h.ready id n (.inl hl)
      · exact h
  | execute =>
      dsimp only [CoreWorld.exec]
      split
      · rename_i id n hl
        unfold CoreWorld.startWait
        rw [h.ready id n (.inr hl)]
        apply h.move
        · rw [hl]
          rfl
        · rw [hl]
          rfl
        · rw [hl]
          rfl
        · intro m hm
          rw [hl] at hm
          exact hm
        · intro id' m
          refine iff_of_false ?_ (by simp)
          intro hm
          by_cases hid : id' = id
          · rw [hid, Function.update_self] at hm
            cases hm
          · rw [Function.update_of_ne hid] at hm
            rcases h.armed id' m hm with hl' | hl' <;> rw [hl] at hl' <;> cases hl'
            exact hid rfl
      · exact h
  | poll =>
      dsimp only [CoreWorld.exec]
      split
      · rename_i id n started hl
        have hcur : w.loop.current? = some (id, n) := by rw [hl]; rfl
        have harmed := h.not_armed (by rw [hl]; simp)
        unfold CoreWorld.recv
        split
        · rename_i o k hvalue
          exact h.take hcur (by rw [hl]; rfl) hvalue harmed
        · rename_i hempty
          split
          · apply h.move
            · rw [hl]
              rfl
            · rw [hl]
              rfl
            · rw [hl]
              rfl
            · intro m hm
              rw [hl] at hm
              exact hm
            · exact fun id' m => iff_of_false (harmed id' m) (by simp)
          · exact h.giveUp hcur (by rw [hl]; rfl) (by rw [hl]; rfl) hempty harmed _
      · exact h
  | check =>
      dsimp only [CoreWorld.exec]
      split
      · rename_i id n started hl
        have hcur : w.loop.current? = some (id, n) := by rw [hl]; rfl
        have harmed := h.not_armed (by rw [hl]; simp)
        unfold CoreWorld.lookAround
        split
        · rename_i hstop
          exact h.giveUp hcur (by rw [hl]; rfl) (by rw [hl]; rfl) (hnot id n started hl (.inl hstop)) harmed _
        · split
          · rename_i hlate
            exact h.giveUp hcur (by rw [hl]; rfl) (by rw [hl]; rfl) (hnot id n started hl (.inr hlate)) harmed _
          · apply h.move
            · rw [hl]
              rfl
            · rw [hl]
              rfl
            · rw [hl]
              rfl
            · intro m hm
              rw [hl] at hm
              exact hm
            · exact fun id' m => iff_of_false (harmed id' m) (by simp)
      · exact h
  | cleanup =>
      dsimp only [CoreWorld.exec]
      split
      · rename_i id n o post hl
        unfold CoreWorld.dropSender
        split
        · rename_i m _
          apply h.cleanup hl
          intro m'
          by_cases hm : m' = m
          · subst hm
            simp [CoreWorld.setChannel]
          · simp [CoreWorld.setChannel, Function.update_of_ne hm]
        · exact h.cleanup hl fun _ => ⟨rfl, rfl⟩
      · exact h
  | finish =>
      dsimp only [CoreWorld.exec]
      split
      · rename_i id n o post hl
        exact h.finish hl
      · exact h
  | post id outcome target => exact h.post hnot
  | send k =>
      dsimp only [CoreWorld.exec]
      split
      · rename_i d hd
        split
        · rename_i n hn hr
          exact h.send hnot hd hn hr
        · exact h
      · exact h
  | stop => exact { h with }
  | tick ms => exact { h with }

end CoreInv

theorem CoreWorld.Reachable.inv {deadline : ℕ} {w : CoreWorld} (h : CoreWorld.Reachable deadline w) : CoreInv w := by
  apply Reach.invariant _ _ h
  · rintro w rfl
    exact coreInv_init
  · rintro w l w' hinv ⟨hnot, rfl⟩
    exact hinv.exec hnot

/-! ## Answers reach their call -/

/-- **Core's answers reach their own call**, in one world. -/
structure AnswersReach (w : CoreWorld) : Prop where
  /-- When `deliver` returned true, the call it answers returned that outcome, or is about to take it. -/
  taken : ∀ k d, w.deliveries k = some d → d.result = some true →
    w.results d.target = some (d.outcome, some k) ∨
      ((∃ id, w.loop.current? = some (id, d.target)) ∧ w.loop.holds? = some (d.outcome, some k)) ∨
      (w.loop.Attends d.target ∧ (w.channels d.target).value = some (d.outcome, k))
  /-- No call takes two. -/
  single : ∀ k k' d d', w.deliveries k = some d → w.deliveries k' = some d' → d.result = some true →
    d'.result = some true → d.target = d'.target → k = k'
  /-- What a call returned from a post was posted for it. -/
  own : ∀ n o k, w.results n = some (o, some k) → ∃ d, w.deliveries k = some d ∧ d.target = n ∧ d.outcome = o ∧
    d.result = some true
  /-- Only the call under way has an entry in the table. -/
  clean : ∀ id n, w.pending id = some n → w.loop.current? = some (id, n) ∧ w.results n = none

/-- **Answers reach their call** in every world that a run reaches whose answers do not cross the end of a call. -/
theorem answers_reach (deadline : ℕ) {w : CoreWorld} (h : CoreWorld.Reachable deadline w) : AnswersReach w := by
  have hinv := h.inv
  have harrived (k : ℕ) (d : Delivery) (hd : w.deliveries k = some d) (hr : d.result = some true) :
      d.channel = some d.target := by
    obtain ⟨-, hnone, hsome⟩ := hinv.posted k d hd
    cases hn : d.channel with
    | none =>
        rw [hnone hn] at hr
        cases hr
    | some n => rw [(hsome n hn).1]
  constructor
  · intro k d hd hr
    rcases hinv.kept k d.target d.outcome ⟨d, hd, rfl, harrived k d hd hr, hr⟩ with hv | hheld | hres
    · exact .inr (.inr ⟨(hinv.value _ _ _ hv).1, hv⟩)
    · exact .inr (.inl hheld)
    · exact .inl hres
  · intro k k' d d' hd hd' hr hr' htarget
    have hn := harrived k d hd hr
    rw [htarget] at hn
    exact hinv.once k k' d d' d'.target hd hd' hn (harrived k' d' hd' hr')
  · intro n o k hres
    obtain ⟨d, hd, ho, hn, hr⟩ := hinv.result n o k hres
    exact ⟨d, hd, ((hinv.posted k d hd).2.2 n hn).1, ho, hr⟩
  · intro id n hp
    have hcur := (hinv.pending id n hp).1
    exact ⟨hcur, (hinv.current id n hcur).2⟩

/-! ### Runs -/

/-- The world after some accesses. -/
def afterAccesses (deadline : ℕ) (ls : List CoreLabel) : CoreWorld := ls.foldl (CoreWorld.exec deadline) .init

theorem CoreWorld.Reachable.start (deadline : ℕ) : CoreWorld.Reachable deadline .init := Reach.start rfl

theorem CoreWorld.Reachable.step {deadline : ℕ} {w : CoreWorld} (h : CoreWorld.Reachable deadline w) {l : CoreLabel}
    (hnot : NotCrossed deadline w l) : CoreWorld.Reachable deadline (w.exec deadline l) := Reach.next h ⟨hnot, rfl⟩

/-- A call is announced and answered, and returns the answer. -/
theorem answers_reach_once :
    AnswersReach (afterAccesses 100 [.register "c1", .announce, .post "c1" (.ok "done") 0, .send 0, .execute, .poll,
      .cleanup, .finish]) := by
  apply answers_reach 100
  have h₁ := (CoreWorld.Reachable.start 100).step (l := .register "c1") trivial
  have h₂ := h₁.step (l := .announce) trivial
  have hpost : NotCrossed 100 (((CoreWorld.init.exec 100 (.register "c1")).exec 100 .announce))
      (.post "c1" (.ok "done") 0) := by
    intro n hn
    exact (Option.some.inj hn).symm
  have h₃ := h₂.step (l := .post "c1" (.ok "done") 0) hpost
  have hsend : NotCrossed 100 ((((CoreWorld.init.exec 100 (.register "c1")).exec 100 .announce)).exec 100
      (.post "c1" (.ok "done") 0)) (.send 0) := by
    intro d n hd hn _ _
    cases hd
    exact Option.some.inj hn
  have h₄ := h₃.step (l := .send 0) hsend
  exact (((h₄.step (l := .execute) trivial).step (l := .poll) trivial).step (l := .cleanup) trivial).step
    (l := .finish) trivial

/-- An answer that comes after the last look of a call at its channel is lost, though `deliver` returned true; and an
    answer for the first call `c1`, posted after that call ended, is returned by the second call `c1`. -/
theorem crossed :
    (let w := afterAccesses 100 [.register "c1", .announce, .execute, .poll, .tick 100, .check,
        .post "c1" (.ok "done") 0, .send 0, .cleanup, .finish];
      (w.deliveries 0).bind Delivery.result = some true ∧
        w.results 0 = some (.error "the app did not answer within 0s", none)) ∧
    (let w := afterAccesses 100 [.register "c1", .announce, .execute, .poll, .tick 100, .check, .cleanup, .finish,
        .register "c1", .announce, .post "c1" (.ok "late") 0, .send 0, .execute, .poll, .cleanup, .finish];
      (w.results 0).isSome = true ∧ (w.deliveries 0).map Delivery.target = some 0 ∧
        w.results 1 = some (.ok "late", some 0)) := by
  exact ⟨⟨rfl, rfl⟩, rfl, rfl, rfl⟩

end AgentRuntime.Sidecar
