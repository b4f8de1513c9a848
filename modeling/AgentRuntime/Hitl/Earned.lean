import AgentRuntime.Hitl.RoleTrack

/-!
# `Hitl.Earned` — quorum approvals are earned

`RoleOk` is what every interleaving keeps on the role-aware track: the entry under a key belongs to one
submission, carries that submission's own arguments, and holds exactly the signatures that were accepted for
it, while nothing was sent to it yet. An approval is sent only when those signatures satisfy the quorum, and
the send takes the entry away.

Entries are keyed by a call id that can be used again at once; submissions are numbered, so what belongs to
one is never confused with what belongs to another that reused its id.
-/

namespace AgentRuntime.Hitl

/-! ## What was accepted and sent -/

/-- What is addressed to submission `i`, in order. -/
def pick {α : Type} (i : ℕ) (xs : List (ℕ × α)) : List α :=
  xs.filterMap fun x => if x.1 = i then some x.2 else none

section pick

variable {α : Type} {i j : ℕ} {x : α}

@[simp] theorem pick_nil : pick i ([] : List (ℕ × α)) = [] := rfl

@[simp] theorem pick_self : pick i [(i, x)] = [x] := by
  unfold pick
  simp

theorem pick_of_ne (h : j ≠ i) : pick i [(j, x)] = [] := by
  unfold pick
  simp [h]

theorem pick_append (xs ys : List (ℕ × α)) : pick i (xs ++ ys) = pick i xs ++ pick i ys :=
  List.filterMap_append

end pick

/-- The role-aware submissions: the `i`-th one is submission `i`'s. -/
def roleSubmissions (ls : List Label) : List RoleSubmission :=
  ls.filterMap fun
    | .submitForAction sub => some sub
    | _ => none

/-- The signatures accepted for submission `i`, while its entry was pending. -/
def accepted (ctx : SigningContext) (ls : List Label) (i : ℕ) : List Signature :=
  pick i (Machine.outputs (World.exec ctx) (signs ctx) .init ls)

/-- The outcomes sent to submission `i`. -/
def delivered (ctx : SigningContext) (ls : List Label) (i : ℕ) : List ApprovalOutcome :=
  pick i (Machine.outputs (World.exec ctx) (sends ctx) .init ls)

/-- Signatures that count towards a submission: from distinct people who did not propose it and may approve,
    valid over its own payload and enrolled for their roles. -/
structure Vetted (ctx : SigningContext) (sub : RoleSubmission) (sigs : List Signature) : Prop where
  distinct : (sigs.map fun s => s.signer.id).Nodup
  notProposer : ∀ s ∈ sigs, s.signer.id ≠ sub.proposer.id
  approves : ∀ s ∈ sigs, canApprove s.signer.role = true
  attested : ∀ s ∈ sigs, verifyAttestation ctx.ed ctx.fingerprint sub.payload s = .ok ()
  rostered : ∀ s ∈ sigs, signerIsAuthorized ctx.roster s.pubkey s.signer.role ctx.devAllowed = true

namespace Vetted

variable {ctx : SigningContext} {sub : RoleSubmission} {sigs : List Signature} {sig : Signature}

theorem nil : Vetted ctx sub [] where
  distinct := List.nodup_nil
  notProposer _ hs := nomatch hs
  approves _ hs := nomatch hs
  attested _ hs := nomatch hs
  rostered _ hs := nomatch hs

/-- A signature that passes the checks of the entry is one more. -/
theorem concat (h : Vetted ctx sub sigs) {entry : RoleAwareEntry} (hsignatures : entry.signatures = sigs)
    (hproposer : entry.proposer = sub.proposer) (hpayload : entry.payload = sub.payload)
    (hchecked : checkSignature ctx entry sig = .ok ()) (happroves : canApprove sig.signer.role = true) :
    Vetted ctx sub (sigs ++ [sig]) := by
  obtain ⟨hverify, hroster, hne, hdup⟩ := checkSignature_ok hchecked
  rw [hpayload] at hverify
  rw [hproposer] at hne
  rw [hsignatures] at hdup
  have hall : ∀ {P : Signature → Prop}, (∀ s ∈ sigs, P s) → P sig → ∀ s ∈ sigs ++ [sig], P s := by
    intro P hsigs hsig s hs
    rcases List.mem_append.mp hs with hs | hs
    · exact hsigs s hs
    · rw [List.mem_singleton.mp hs]
      exact hsig
  refine ⟨?_, hall h.notProposer hne, hall h.approves happroves, hall h.attested hverify,
    hall h.rostered hroster⟩
  rw [List.map_append, List.map_singleton]
  apply h.distinct.append (List.nodup_singleton _)
  rw [List.disjoint_singleton]
  intro hmem
  obtain ⟨s, hs, hid⟩ := List.mem_map.mp hmem
  exact hdup s hs hid

end Vetted

/-! ## The table of pending entries -/

section table

variable {q : ApprovalQueue} {callId : String} {e : String × RoleAwareEntry}

theorem mem_removeRole : e ∈ (q.removeRole callId).rolePending ↔ e ∈ q.rolePending ∧ e.1 ≠ callId := by
  unfold ApprovalQueue.removeRole
  simp only [List.mem_filter, bne_iff_ne]

theorem mem_evictRole {nonce : ℕ} (he : e ∈ (q.evictRole callId nonce).rolePending) :
    e ∈ q.rolePending := by
  unfold ApprovalQueue.evictRole at he
  split at he
  · exact (mem_removeRole.mp he).1
  · exact he

theorem lookup_eq_some (hkeys : (q.rolePending.map Prod.fst).Nodup) {entry : RoleAwareEntry} :
    q.rolePending.lookup callId = some entry ↔ (callId, entry) ∈ q.rolePending := by
  generalize q.rolePending = es at hkeys ⊢
  induction es with
  | nil => simp
  | cons x xs ih =>
      obtain ⟨key, value⟩ := x
      rw [List.map_cons, List.nodup_cons] at hkeys
      rw [List.lookup_cons, List.mem_cons]
      by_cases hkey : callId = key
      · subst hkey
        rw [beq_self_eq_true]
        constructor
        · intro h
          exact .inl (by rw [Option.some.inj h])
        · rintro (h | h)
          · cases h
            rfl
          · exact absurd (List.mem_map_of_mem (f := Prod.fst) h) hkeys.1
      · rw [beq_false_of_ne hkey]
        constructor
        · intro h
          exact .inr ((ih hkeys.2).mp h)
        · rintro (h | h)
          · exact absurd (congrArg Prod.fst h) hkey
          · exact (ih hkeys.2).mpr h

end table

/-! ## The invariant -/

/-- The entry of a submission that was inserted and signed. -/
def RoleSubmission.signedEntry (sub : RoleSubmission) (i draw : ℕ) (sigs : List Signature) : RoleAwareEntry :=
  { sub.entry i draw with signatures := sigs }

/-- Entry `e` is that of one submission under way, with what was accepted for it and nothing sent to it. -/
def Owned (w : World) (acc : ℕ → List Signature) (sent : ℕ → List ApprovalOutcome)
    (e : String × RoleAwareEntry) : Prop :=
  ∃ sub draw, (w.role e.2.resolver).Holds sub draw ∧
    e = (sub.call.callId, sub.signedEntry e.2.resolver draw (acc e.2.resolver)) ∧ sent e.2.resolver = []

/-- What every interleaving keeps on the role-aware track. `subs`, `acc` and `sent` are what was submitted,
    accepted and sent so far. -/
structure RoleOk (ctx : SigningContext) (w : World) (subs : List RoleSubmission)
    (acc : ℕ → List Signature) (sent : ℕ → List ApprovalOutcome) : Prop where
  next : w.roleNext = subs.length
  fresh : ∀ i, w.roleNext ≤ i → w.role i = .absent
  made : ∀ i sub, (w.role i).sub? = some sub → subs[i]? = some sub
  keys : (w.queue.rolePending.map Prod.fst).Nodup
  owned : ∀ e ∈ w.queue.rolePending, Owned w acc sent e
  early : ∀ i, (w.role i).early = true → acc i = [] ∧ sent i = []
  vetted : ∀ i sub, subs[i]? = some sub → Vetted ctx sub (acc i)
  once : ∀ i, (sent i).length ≤ 1
  earned : ∀ i sub, subs[i]? = some sub → .approved ∈ sent i →
    sub.quorum.satisfiedBy ((acc i).map fun s => s.signer.role) = true
  value : ∀ i o, (w.roleChan i).value = some o → o ∈ sent i
  result : ∀ i, (w.role i).result? = some (.resolved .approved) → .approved ∈ sent i

theorem RolePc.Holds.sub? {pc : RolePc} {sub : RoleSubmission} {draw : ℕ} (h : pc.Holds sub draw) :
    pc.sub? = some sub := by
  rcases h with rfl | ⟨result, rfl⟩
  · rfl
  · rfl

theorem RolePc.Holds.not_early {pc : RolePc} {sub : RoleSubmission} {draw : ℕ} (h : pc.Holds sub draw) :
    pc.early = false := by
  rcases h with rfl | ⟨result, rfl⟩
  · rfl
  · rfl

/-- The submissions a label adds. -/
theorem roleSubmissions_quiet {l : Label} (h : ∀ sub, l ≠ .submitForAction sub) : roleSubmissions [l] = [] := by
  cases l with
  | submitForAction sub => exact absurd rfl (h sub)
  | _ => rfl

namespace RoleOk

variable {ctx : SigningContext} {w w' : World} {l : Label} {subs : List RoleSubmission}
  {acc : ℕ → List Signature} {sent : ℕ → List ApprovalOutcome}

theorem init (ctx : SigningContext) : RoleOk ctx .init [] (fun _ => []) (fun _ => []) where
  next := rfl
  fresh _ _ := rfl
  made _ _ h := nomatch h
  keys := List.nodup_nil
  owned _ he := nomatch he
  early _ _ := ⟨rfl, rfl⟩
  vetted _ _ h := nomatch h
  once _ := Nat.zero_le _
  earned _ _ h := nomatch h
  value _ _ h := nomatch h
  result _ h := nomatch h

theorem fresh_next (h : RoleOk ctx w subs acc sent) : w.role w.roleNext = .absent := h.fresh _ (le_refl _)

/-- Two entries of one submission are one entry. -/
theorem eq_of_resolver (h : RoleOk ctx w subs acc sent) {e e' : String × RoleAwareEntry}
    (he : e ∈ w.queue.rolePending) (he' : e' ∈ w.queue.rolePending)
    (hresolver : e.2.resolver = e'.2.resolver) : e = e' := by
  obtain ⟨sub, draw, hholds, hentry, -⟩ := h.owned e he
  obtain ⟨sub', draw', hholds', hentry', -⟩ := h.owned e' he'
  have hsub : sub = sub' := by
    have hsub' := hholds'.sub?
    rw [← hresolver, hholds.sub?] at hsub'
    exact Option.some.inj hsub'
  apply List.inj_on_of_nodup_map h.keys he he'
  rw [hentry, hentry', hsub]

/-- The entry found under a call id, its submission and what was accepted for it. -/
theorem found (h : RoleOk ctx w subs acc sent) {callId : String} {entry : RoleAwareEntry}
    (hfound : w.queue.rolePending.lookup callId = some entry) :
    (callId, entry) ∈ w.queue.rolePending ∧
      ∃ sub draw, (w.role entry.resolver).Holds sub draw ∧ subs[entry.resolver]? = some sub ∧
        callId = sub.call.callId ∧ entry = sub.signedEntry entry.resolver draw (acc entry.resolver) ∧
        sent entry.resolver = [] := by
  have hmem := (lookup_eq_some h.keys).mp hfound
  obtain ⟨sub, draw, hholds, hentry, hsent⟩ := h.owned _ hmem
  obtain ⟨hid, hentry⟩ := Prod.mk.inj hentry
  exact ⟨hmem, sub, draw, hholds, h.made _ _ hholds.sub?, hid, hentry, hsent⟩

/-- The counters, the program points and the keys. -/
theorem step_calls (h : RoleOk ctx w subs acc sent) (hstep : RoleStep ctx w w' l) :
    w'.roleNext = (subs ++ roleSubmissions [l]).length ∧ (∀ i, w'.roleNext ≤ i → w'.role i = .absent) := by
  have hsame : w'.roleNext = w.roleNext → (∀ sub, l ≠ .submitForAction sub) →
      w'.roleNext = (subs ++ roleSubmissions [l]).length ∧ (∀ i, w'.roleNext ≤ i → w'.role i = .absent) := by
    intro hnext hl
    refine ⟨?_, ?_⟩
    · rw [roleSubmissions_quiet hl, List.append_nil, hnext, h.next]
    · intro i hi
      rw [hnext] at hi
      have hbefore := h.fresh i hi
      cases hstep.move i with
      | stays role => rw [role, hbefore]
      | enters sub label => exact absurd label (hl sub)
      | moves sub _ _ subBefore =>
          rw [hbefore] at subBefore
          cases subBefore
      | inserts sub draw before =>
          rw [hbefore] at before
          cases before
      | leaves sub draw result before =>
          rw [hbefore] at before
          cases before
      | cleans sub draw result before =>
          rw [hbefore] at before
          cases before
  cases hstep with
  | elsewhere same label => exact hsame same.next label
  | @submitted sub _ role _ next =>
      refine ⟨?_, ?_⟩
      · rw [next, h.next, List.length_append]
        rfl
      · intro i hi
        rw [next] at hi
        rw [role, Function.update_of_ne (by omega)]
        exact h.fresh i (by omega)
  | moved _ _ _ _ _ _ _ _ next => exact hsame next nofun
  | inserted _ _ _ _ _ _ next => exact hsame next nofun
  | left _ _ _ _ _ next label => exact hsame next label
  | cleaned _ _ _ _ next => exact hsame next nofun
  | kept _ _ _ _ _ _ next => exact hsame next (fun _ h => by cases h)
  | satisfied _ _ _ _ _ _ _ next => exact hsame next (fun _ h => by cases h)
  | rejected _ _ _ _ next => exact hsame next nofun
  | drained _ _ _ _ next => exact hsame next nofun

theorem step_subs (h : RoleOk ctx w subs acc sent) (hstep : RoleStep ctx w w' l) {i : ℕ} {sub : RoleSubmission}
    (hsub : (w'.role i).sub? = some sub) : (subs ++ roleSubmissions [l])[i]? = some sub := by
  rcases (hstep.move i).sub?_eq hsub with hbefore | ⟨rfl, rfl⟩
  · have hi := h.made i sub hbefore
    rw [List.getElem?_append_left (List.getElem?_eq_some_iff.mp hi).1]
    exact hi
  · rw [h.next, List.getElem?_append_right (le_refl _), Nat.sub_self]
    rfl

/-- Only a free call id is inserted. -/
theorem step_keys (h : RoleOk ctx w subs acc sent) (hstep : RoleStep ctx w w' l) :
    (w'.queue.rolePending.map Prod.fst).Nodup := by
  have hfilter : ∀ callId, ((w.queue.removeRole callId).rolePending.map Prod.fst).Nodup := by
    intro callId
    exact h.keys.sublist (List.filter_sublist.map _)
  cases hstep with
  | elsewhere same =>
      rw [same.pending]
      exact h.keys
  | submitted pending =>
      rw [pending]
      exact h.keys
  | moved _ _ _ _ _ pending =>
      rw [pending]
      exact h.keys
  | @inserted i draw sub _ _ unused pending =>
      rw [pending, List.map_cons, List.nodup_cons]
      refine ⟨?_, h.keys⟩
      intro hmem
      obtain ⟨⟨key, entry⟩, he, hkey⟩ := List.mem_map.mp hmem
      have hkey' : key = sub.call.callId := hkey
      rw [hkey', ← lookup_eq_some h.keys, unused] at he
      cases he
  | left _ _ pending =>
      rw [pending]
      exact h.keys
  | @cleaned i draw sub result _ pending =>
      rw [pending]
      unfold ApprovalQueue.evictRole
      split
      · exact hfilter _
      · exact h.keys
  | @kept callId sig entry _ _ _ pending =>
      rw [pending]
      unfold ApprovalQueue.setSignatures
      rw [List.map_map]
      have hfst : (Prod.fst ∘ fun e : String × RoleAwareEntry =>
          if e.1 = callId then (e.1, { e.2 with signatures := entry.signatures ++ [sig] }) else e) = Prod.fst := by
        funext e
        show (if e.1 = callId then (e.1, { e.2 with signatures := entry.signatures ++ [sig] }) else e).1 = e.1
        split
        · rfl
        · rfl
      rw [hfst]
      exact h.keys
  | satisfied _ _ _ _ pending =>
      rw [pending]
      exact hfilter _
  | rejected _ pending =>
      rw [pending]
      exact hfilter _
  | drained _ pending =>
      rw [pending]
      exact List.nodup_nil

/-- A submission that is cleaned up has no entry left. -/
theorem not_mem_evictRole (h : RoleOk ctx w subs acc sent) {e : String × RoleAwareEntry} {sub : RoleSubmission}
    {draw : ℕ} (hentry : e = (sub.call.callId, sub.signedEntry e.2.resolver draw (acc e.2.resolver))) :
    e ∉ (w.queue.evictRole sub.call.callId (nonceOf draw)).rolePending := by
  intro hmem
  have hfound : w.queue.rolePending.lookup sub.call.callId = some e.2 := by
    rw [lookup_eq_some h.keys]
    have hbefore := mem_evictRole hmem
    rw [hentry] at hbefore ⊢
    exact hbefore
  have hnonce : e.2.nonce = nonceOf draw := by
    rw [hentry]
    rfl
  have hkey : e.1 = sub.call.callId := by rw [hentry]
  unfold ApprovalQueue.evictRole at hmem
  rw [hfound, Option.any_some, hnonce, beq_self_eq_true, if_pos rfl] at hmem
  exact (mem_removeRole.mp hmem).2 hkey

/-- An entry that stays, and for which nothing was accepted or sent, is still owned. -/
theorem still_owned (h : RoleOk ctx w subs acc sent) (hstep : RoleStep ctx w w' l)
    {e : String × RoleAwareEntry} (he : e ∈ w.queue.rolePending) (he' : e ∈ w'.queue.rolePending)
    (hsigns : pick e.2.resolver (signs ctx w l) = []) (hsends : pick e.2.resolver (sends ctx w l) = []) :
    Owned w' (fun i => acc i ++ pick i (signs ctx w l)) (fun i => sent i ++ pick i (sends ctx w l)) e := by
  obtain ⟨sub, draw, hholds, hentry, hsent⟩ := h.owned e he
  refine ⟨sub, draw, ?_, ?_, ?_⟩
  · apply ((hstep.move _).holds h.fresh_next hholds).resolve_right
    intro hevict
    apply h.not_mem_evictRole hentry
    rw [← hevict]
    exact he'
  · simp only [hsigns, List.append_nil]
    exact hentry
  · simp only [hsends, List.append_nil]
    exact hsent

theorem mem_setSignatures {q : ApprovalQueue} {callId : String} {sigs : List Signature}
    {e : String × RoleAwareEntry} (he : e ∈ (q.setSignatures callId sigs).rolePending) :
    (e ∈ q.rolePending ∧ e.1 ≠ callId) ∨
      ∃ entry, (callId, entry) ∈ q.rolePending ∧ e = (callId, { entry with signatures := sigs }) := by
  obtain ⟨⟨key, entry⟩, hmem, rfl⟩ := List.mem_map.mp he
  by_cases hkey : key = callId
  · subst hkey
    exact .inr ⟨entry, hmem, if_pos rfl⟩
  · rw [if_neg hkey]
    exact .inl ⟨hmem, hkey⟩

theorem step_owned (h : RoleOk ctx w subs acc sent) (hstep : RoleStep ctx w w' l) :
    ∀ e ∈ w'.queue.rolePending,
      Owned w' (fun i => acc i ++ pick i (signs ctx w l)) (fun i => sent i ++ pick i (sends ctx w l)) e := by
  intro e he'
  -- An entry under another call id belongs to another submission.
  have hother : ∀ {callId : String} {entry : RoleAwareEntry},
      w.queue.rolePending.lookup callId = some entry → e ∈ w.queue.rolePending → e.1 ≠ callId →
      entry.resolver ≠ e.2.resolver := by
    intro callId entry hfound he hkey hresolver
    have heq := h.eq_of_resolver he (h.found hfound).1 hresolver.symm
    exact hkey (by rw [heq])
  have he := he'
  cases hstep with
  | elsewhere same label hsigns hsends =>
      rw [same.pending] at he
      exact h.still_owned (.elsewhere same label hsigns hsends) he he' (by rw [hsigns, pick_nil])
        (by rw [hsends, pick_nil])
  | submitted pending role chan next =>
      rw [pending] at he
      exact h.still_owned (.submitted pending role chan next) he he' rfl rfl
  | moved before subBefore subAfter unguarded result pending role chan next =>
      rw [pending] at he
      exact h.still_owned (.moved before subBefore subAfter unguarded result pending role chan next) he he'
        rfl rfl
  | @inserted i draw sub before thawed unused pending role chan next =>
      rw [pending, List.mem_cons] at he
      rcases he with rfl | he
      · obtain ⟨hacc, hsent⟩ := h.early i (by rw [before]; rfl)
        refine ⟨sub, draw, .inl ?_, ?_, ?_⟩
        · show w'.role i = _
          rw [role, Function.update_self]
        · show (sub.call.callId, sub.entry i draw) = (sub.call.callId, sub.signedEntry i draw (acc i ++ []))
          rw [hacc]
          rfl
        · show sent i ++ [] = []
          rw [hsent]
          rfl
      · exact h.still_owned (.inserted before thawed unused pending role chan next) he he' rfl rfl
  | left before approved pending role chan next label hsigns hsends =>
      rw [pending] at he
      exact h.still_owned (.left before approved pending role chan next label hsigns hsends) he he'
        (by rw [hsigns, pick_nil]) (by rw [hsends, pick_nil])
  | cleaned before pending role chan next =>
      rw [pending] at he
      exact h.still_owned (.cleaned before pending role chan next) (mem_evictRole he) he' rfl rfl
  | @kept callId sig entry found approves checked pending role chan next hsigns hsends =>
      rw [pending] at he
      rcases mem_setSignatures he with ⟨he, hkey⟩ | ⟨entry', hentry', rfl⟩
      · have hresolver := hother found he hkey
        exact h.still_owned (.kept found approves checked pending role chan next hsigns hsends) he he'
          (by rw [hsigns, pick_of_ne hresolver]) (by rw [hsends, pick_nil])
      · -- The signed entry itself.
        rw [← lookup_eq_some h.keys, found] at hentry'
        cases hentry'
        obtain ⟨-, sub, draw, hholds, -, hid, hentry, hsent⟩ := h.found found
        refine ⟨sub, draw, ?_, ?_, ?_⟩
        · show (w'.role entry.resolver).Holds sub draw
          rw [role]
          exact hholds
        · show (callId, { entry with signatures := entry.signatures ++ [sig] }) = (sub.call.callId,
            sub.signedEntry entry.resolver draw (acc entry.resolver ++ pick entry.resolver _))
          rw [hsigns, pick_self, hid]
          generalize acc entry.resolver = sigs at hentry
          rw [hentry]
          rfl
        · show sent entry.resolver ++ pick entry.resolver _ = []
          rw [hsends, hsent]
          rfl
  | @satisfied callId sig entry found approves checked quorum pending role chan next hsigns hsends =>
      rw [pending] at he
      obtain ⟨he, hkey⟩ := mem_removeRole.mp he
      have hresolver := hother found he hkey
      exact h.still_owned (.satisfied found approves checked quorum pending role chan next hsigns hsends) he he'
        (by rw [hsigns, pick_of_ne hresolver]) (by rw [hsends, pick_of_ne hresolver])
  | @rejected callId entry found pending role chan next hsends =>
      rw [pending] at he
      obtain ⟨he, hkey⟩ := mem_removeRole.mp he
      exact h.still_owned (.rejected found pending role chan next hsends) he he' rfl
        (by rw [hsends, pick_of_ne (hother found he hkey)])
  | drained _ pending =>
      rw [pending] at he
      cases he

/-- The signature a step accepts for submission `i` passed the checks of `i`'s own entry. -/
theorem signs_cases (hstep : RoleStep ctx w w' l) (i : ℕ) :
    pick i (signs ctx w l) = [] ∨ ∃ callId entry sig, w.queue.rolePending.lookup callId = some entry ∧
      entry.resolver = i ∧ pick i (signs ctx w l) = [sig] ∧ canApprove sig.signer.role = true ∧
      checkSignature ctx entry sig = .ok () := by
  have hone : ∀ {callId : String} {entry : RoleAwareEntry} {sig : Signature},
      w.queue.rolePending.lookup callId = some entry → canApprove sig.signer.role = true →
      checkSignature ctx entry sig = .ok () → signs ctx w l = [(entry.resolver, sig)] →
      pick i (signs ctx w l) = [] ∨ ∃ callId entry sig, w.queue.rolePending.lookup callId = some entry ∧
        entry.resolver = i ∧ pick i (signs ctx w l) = [sig] ∧ canApprove sig.signer.role = true ∧
        checkSignature ctx entry sig = .ok () := by
    intro callId entry sig found approves checked hsigns
    by_cases hi : entry.resolver = i
    · exact .inr ⟨callId, entry, sig, found, hi, by rw [hsigns, hi, pick_self], approves, checked⟩
    · exact .inl (by rw [hsigns, pick_of_ne hi])
  cases hstep with
  | elsewhere _ _ hsigns => exact .inl (by rw [hsigns, pick_nil])
  | left _ _ _ _ _ _ _ hsigns => exact .inl (by rw [hsigns, pick_nil])
  | kept found approves checked _ _ _ _ hsigns => exact hone found approves checked hsigns
  | satisfied found approves checked _ _ _ _ _ hsigns => exact hone found approves checked hsigns
  | submitted => exact .inl rfl
  | moved => exact .inl rfl
  | inserted => exact .inl rfl
  | cleaned => exact .inl rfl
  | rejected => exact .inl rfl
  | drained => exact .inl rfl

/-- At most one outcome is sent to `i`, whose entry is pending; an approval when the signatures suffice. -/
theorem sends_cases (h : RoleOk ctx w subs acc sent) (hstep : RoleStep ctx w w' l) (i : ℕ) :
    pick i (sends ctx w l) = [] ∨ ∃ callId entry o, w.queue.rolePending.lookup callId = some entry ∧
      entry.resolver = i ∧ pick i (sends ctx w l) = [o] ∧
      (o = .approved → entry.quorum.satisfiedBy
        ((entry.signatures ++ pick i (signs ctx w l)).map fun s => s.signer.role) = true) := by
  cases hstep with
  | elsewhere _ _ _ hsends => exact .inl (by rw [hsends, pick_nil])
  | left _ _ _ _ _ _ _ _ hsends => exact .inl (by rw [hsends, pick_nil])
  | kept _ _ _ _ _ _ _ _ hsends => exact .inl (by rw [hsends, pick_nil])
  | @satisfied callId sig entry found approves checked quorum _ _ _ _ hsigns hsends =>
      by_cases hi : entry.resolver = i
      · refine .inr ⟨callId, entry, .approved, found, hi, by rw [hsends, hi, pick_self], ?_⟩
        intro _
        rw [hsigns, hi, pick_self]
        exact quorum
      · exact .inl (by rw [hsends, pick_of_ne hi])
  | @rejected callId entry found _ _ _ _ hsends =>
      by_cases hi : entry.resolver = i
      · exact .inr ⟨callId, entry, .rejected, found, hi, by rw [hsends, hi, pick_self], nofun⟩
      · exact .inl (by rw [hsends, pick_of_ne hi])
  | @drained f drained before =>
      have hsends : sends ctx w (.advanceFreeze f)
          = w.queue.rolePending.map fun e => (e.2.resolver, .rejected) := by
        unfold sends
        simp only [before]
      by_cases hi : ∃ e ∈ w.queue.rolePending, e.2.resolver = i
      · obtain ⟨e, he, hi⟩ := hi
        refine .inr ⟨e.1, e.2, .rejected, (lookup_eq_some h.keys).mpr he, hi, ?_, nofun⟩
        -- No other entry is `i`'s.
        obtain ⟨before, after, hsplit⟩ := List.append_of_mem he
        have hnodup : w.queue.rolePending.Nodup := List.Nodup.of_map _ h.keys
        have hnone : ∀ es : List (String × RoleAwareEntry), (∀ e' ∈ es, e' ∈ w.queue.rolePending ∧ e' ≠ e) →
            pick i (es.map fun e => (e.2.resolver, ApprovalOutcome.rejected)) = [] := by
          intro es hes
          unfold pick
          rw [List.filterMap_map, List.filterMap_eq_nil_iff]
          intro e' he'
          obtain ⟨hmem, hne⟩ := hes e' he'
          apply if_neg
          intro hresolver
          exact hne (h.eq_of_resolver hmem he (hresolver.trans hi.symm))
        rw [hsplit] at hnodup
        have hnotMem := List.nodup_cons.mp (List.nodup_middle.mp hnodup)
        rw [hsends, hsplit, List.map_append, List.map_cons, pick_append, ← List.singleton_append, pick_append,
          hi, pick_self, hnone before, hnone after]
        · rfl
        · intro e' he'
          refine ⟨by rw [hsplit]; simp [he'], ?_⟩
          rintro rfl
          exact hnotMem.1 (List.mem_append_right _ he')
        · intro e' he'
          refine ⟨by rw [hsplit]; simp [he'], ?_⟩
          rintro rfl
          exact hnotMem.1 (List.mem_append_left _ he')
      · refine .inl ?_
        rw [hsends]
        unfold pick
        rw [List.filterMap_map, List.filterMap_eq_nil_iff]
        intro e he
        apply if_neg
        intro hresolver
        exact hi ⟨e, he, hresolver⟩
  | submitted => exact .inl rfl
  | moved => exact .inl rfl
  | inserted => exact .inl rfl
  | cleaned => exact .inl rfl

/-- A channel holds what was sent into it. -/
theorem value_cases (hstep : RoleStep ctx w w' l) {i : ℕ} {o : ApprovalOutcome}
    (hvalue : (w'.roleChan i).value = some o) :
    (w.roleChan i).value = some o ∨ o ∈ pick i (sends ctx w l) := by
  have hsend : ∀ {c : Oneshot} {o' : ApprovalOutcome}, (c.send o').value = some o → c.value = some o ∨ o = o' := by
    intro c o' hc
    unfold Oneshot.send at hc
    split at hc
    · exact .inr (Option.some.inj hc).symm
    · exact .inl hc
  have hone : ∀ {j : ℕ} {o' : ApprovalOutcome},
      w'.roleChan = Function.update w.roleChan j ((w.roleChan j).send o') → sends ctx w l = [(j, o')] →
      (w.roleChan i).value = some o ∨ o ∈ pick i (sends ctx w l) := by
    intro j o' hchan hsends
    rw [hchan] at hvalue
    by_cases hi : i = j
    · subst hi
      rw [Function.update_self] at hvalue
      rw [hsends, pick_self, List.mem_singleton]
      exact hsend hvalue
    · rw [Function.update_of_ne hi] at hvalue
      exact .inl hvalue
  cases hstep with
  | elsewhere same =>
      rw [same.chan] at hvalue
      exact .inl hvalue
  | submitted _ _ chan =>
      rw [chan] at hvalue
      exact .inl hvalue
  | moved _ _ _ _ _ _ _ chan =>
      rw [chan] at hvalue
      exact .inl hvalue
  | inserted _ _ _ _ _ chan =>
      rw [chan] at hvalue
      exact .inl hvalue
  | left _ _ _ _ chan =>
      rw [chan] at hvalue
      exact .inl hvalue
  | cleaned _ _ _ chan =>
      rw [chan] at hvalue
      exact .inl hvalue
  | kept _ _ _ _ _ chan =>
      rw [chan] at hvalue
      exact .inl hvalue
  | satisfied _ _ _ _ _ _ chan _ _ hsends => exact hone chan hsends
  | rejected _ _ _ chan _ hsends => exact hone chan hsends
  | @drained f drained before _ _ chan =>
      rw [chan] at hvalue
      simp only at hvalue
      split at hvalue
      · rename_i hany
        obtain ⟨e, he, hi⟩ := List.any_eq_true.mp hany
        rcases hsend hvalue with hbefore | rfl
        · exact .inl hbefore
        · refine .inr ?_
          unfold sends
          simp only [before]
          unfold pick
          rw [List.mem_filterMap]
          exact ⟨_, List.mem_map_of_mem he, if_pos (beq_iff_eq.mp hi)⟩
      · exact .inl hvalue

/-- What is accepted for a submission or sent to it goes through its entry, so it was inserted. -/
theorem quiet_of_early (h : RoleOk ctx w subs acc sent) (hstep : RoleStep ctx w w' l) {i : ℕ}
    (hearly : (w.role i).early = true) :
    acc i ++ pick i (signs ctx w l) = [] ∧ sent i ++ pick i (sends ctx w l) = [] := by
  obtain ⟨hacc, hsent⟩ := h.early i hearly
  have hnone : ∀ {callId : String} {entry : RoleAwareEntry},
      w.queue.rolePending.lookup callId = some entry → entry.resolver ≠ i := by
    intro callId entry hfound hi
    obtain ⟨-, sub, draw, hholds, -⟩ := h.found hfound
    have hlate := hholds.not_early
    rw [hi, hearly] at hlate
    cases hlate
  refine ⟨?_, ?_⟩
  · rcases signs_cases hstep i with hsigns | ⟨callId, entry, sig, hfound, hi, -⟩
    · rw [hacc, hsigns]
      rfl
    · exact absurd hi (hnone hfound)
  · rcases h.sends_cases hstep i with hsends | ⟨callId, entry, o, hfound, hi, -⟩
    · rw [hsent, hsends]
      rfl
    · exact absurd hi (hnone hfound)

/-- A submission is an old one, or it was not made before this step. -/
theorem made_or_early (h : RoleOk ctx w subs acc sent) {new : List RoleSubmission} {i : ℕ}
    {sub : RoleSubmission} (hsub : (subs ++ new)[i]? = some sub) :
    subs[i]? = some sub ∨ (w.role i).early = true := by
  by_cases hi : i < subs.length
  · rw [List.getElem?_append_left hi] at hsub
    exact .inl hsub
  · right
    rw [h.fresh i (by rw [h.next]; exact not_lt.mp hi)]
    rfl

/-- **Every access keeps the invariant.** -/
theorem step (h : RoleOk ctx w subs acc sent) (hstep : RoleStep ctx w w' l) :
    RoleOk ctx w' (subs ++ roleSubmissions [l]) (fun i => acc i ++ pick i (signs ctx w l))
      (fun i => sent i ++ pick i (sends ctx w l)) where
  next := (h.step_calls hstep).1
  fresh := (h.step_calls hstep).2
  made _ _ hsub := h.step_subs hstep hsub
  keys := h.step_keys hstep
  owned := h.step_owned hstep
  early _ hearly := h.quiet_of_early hstep ((hstep.move _).early_before h.fresh_next hearly)
  vetted := by
    intro i sub hsub
    rcases h.made_or_early hsub with hsub | hearly
    · have hbefore := h.vetted i sub hsub
      rcases signs_cases hstep i with hsigns | ⟨callId, entry, sig, hfound, rfl, hsigns, happroves, hchecked⟩
      · rw [hsigns, List.append_nil]
        exact hbefore
      · obtain ⟨-, sub', draw, -, hsub', -, hentry, -⟩ := h.found hfound
        have heq : sub' = sub := Option.some.inj (hsub'.symm.trans hsub)
        subst heq
        rw [hsigns]
        generalize hresolver : entry.resolver = i at *
        subst hentry
        exact hbefore.concat rfl rfl rfl hchecked happroves
    · rw [(h.quiet_of_early hstep hearly).1]
      exact .nil
  once := by
    intro i
    rcases h.sends_cases hstep i with hsends | ⟨callId, entry, o, hfound, rfl, hsends, -⟩
    · rw [hsends, List.append_nil]
      exact h.once i
    · obtain ⟨-, sub, draw, -, -, -, -, hsent⟩ := h.found hfound
      rw [hsent, hsends]
      exact le_refl 1
  earned := by
    intro i sub hsub happroved
    rcases h.made_or_early hsub with hsub | hearly
    · rcases h.sends_cases hstep i with hsends | ⟨callId, entry, o, hfound, rfl, hsends, hquorum⟩
      · -- Approved before: no entry of `i` is left to take another signature.
        rw [hsends, List.append_nil] at happroved
        rcases signs_cases hstep i with hsigns | ⟨callId, entry, sig, hfound, rfl, -⟩
        · rw [hsigns, List.append_nil]
          exact h.earned i sub hsub happroved
        · obtain ⟨-, sub', draw, -, -, -, -, hsent⟩ := h.found hfound
          rw [hsent] at happroved
          cases happroved
      · obtain ⟨-, sub', draw, -, hsub', -, hentry, hsent⟩ := h.found hfound
        have heq : sub' = sub := Option.some.inj (hsub'.symm.trans hsub)
        subst heq
        rw [hsent, hsends, List.nil_append, List.mem_singleton] at happroved
        have hnow := hquorum happroved.symm
        generalize entry.resolver = i at *
        subst hentry
        exact hnow
    · rw [(h.quiet_of_early hstep hearly).2] at happroved
      cases happroved
  value := by
    intro i o hvalue
    rcases value_cases hstep hvalue with hbefore | hnow
    · exact List.mem_append_left _ (h.value i o hbefore)
    · exact List.mem_append_right _ hnow
  result := by
    intro i hresult
    rcases (hstep.move i).approved hresult with hbefore | hvalue
    · exact List.mem_append_left _ (h.result i hbefore)
    · exact List.mem_append_left _ (h.value i _ hvalue)

end RoleOk

/-- The invariant holds after every interleaving. -/
theorem roleOk (ctx : SigningContext) (ls : List Label) :
    RoleOk ctx (World.run ctx ls) (roleSubmissions ls) (accepted ctx ls) (delivered ctx ls) := by
  induction ls using List.reverseRecOn with
  | nil => exact .init ctx
  | append_singleton ls l ih =>
      have hsubs : roleSubmissions (ls ++ [l]) = roleSubmissions ls ++ roleSubmissions [l] := List.filterMap_append
      have hacc : accepted ctx (ls ++ [l])
          = fun i => accepted ctx ls i ++ pick i (signs ctx (World.run ctx ls) l) := by
        funext i
        unfold accepted
        rw [Machine.outputs_concat, pick_append]
      have hsent : delivered ctx (ls ++ [l])
          = fun i => delivered ctx ls i ++ pick i (sends ctx (World.run ctx ls) l) := by
        funext i
        unfold delivered
        rw [Machine.outputs_concat, pick_append]
      rw [hsubs, hacc, hsent, World.run, Machine.run_concat]
      exact ih.step (role_step ctx _ l)

/-! ## The result -/

/-- **Quorum approvals are earned.** In every interleaving at most one outcome is sent to a submission; one that
    resolved Approved was sent that approval after signatures were accepted for it, while its own entry was
    pending, from distinct people other than its proposer and no auditor, each valid over its own payload and
    enrolled for the role it claims, whose roles satisfy its quorum. -/
theorem approvals_earned (ctx : SigningContext) (isAuthorized : SignerRoster)
    (hroster : ctx.roster = some isAuthorized) (ls : List Label) (i : ℕ) :
    (delivered ctx ls i).length ≤ 1 ∧
      (((World.run ctx ls).role i).result? = some (.resolved .approved) →
        ∃ sub, (roleSubmissions ls)[i]? = some sub ∧ (sub.quorum ≠ .autoApprove →
          delivered ctx ls i = [.approved] ∧
          ((accepted ctx ls i).map fun s => s.signer.id).Nodup ∧
          (∀ s ∈ accepted ctx ls i, s.signer.id ≠ sub.proposer.id ∧ s.signer.role ≠ .auditor ∧
            verifyAttestation ctx.ed ctx.fingerprint sub.payload s = .ok () ∧
            isAuthorized s.pubkey s.signer.role = true) ∧
          sub.quorum.satisfiedBy ((accepted ctx ls i).map fun s => s.signer.role) = true)) := by
  have hok := roleOk ctx ls
  refine ⟨hok.once i, ?_⟩
  intro hresult
  have hi : i < (roleSubmissions ls).length := by
    by_contra hi
    rw [hok.fresh i (by rw [hok.next]; exact not_lt.mp hi)] at hresult
    cases hresult
  refine ⟨(roleSubmissions ls)[i], List.getElem?_eq_getElem hi, ?_⟩
  intro _
  generalize hsub' : (roleSubmissions ls)[i] = sub
  have hsub : (roleSubmissions ls)[i]? = some sub := by rw [List.getElem?_eq_getElem hi, hsub']
  have happroved := hok.result i hresult
  have hvetted := hok.vetted i sub hsub
  refine ⟨?_, hvetted.distinct, ?_, hok.earned i sub hsub happroved⟩
  · obtain ⟨o, ho⟩ := List.length_eq_one_iff.mp
      (le_antisymm (hok.once i) (List.length_pos_of_mem happroved))
    rw [ho, List.mem_singleton] at happroved
    rw [ho, happroved]
  · intro s hs
    refine ⟨hvetted.notProposer s hs, ?_, hvetted.attested s hs, ?_⟩
    · intro hauditor
      have happroves := hvetted.approves s hs
      rw [hauditor] at happroves
      cases happroves
    · have hrostered := hvetted.rostered s hs
      rw [hroster] at hrostered
      exact hrostered

/-! ### An approval

The first Ed25519 test vector signs the empty message: it is the one signature the scheme below accepts. -/

/-- The key of the test vector. -/
def vectorKey : PublicKey :=
  ⟨#[215, 90, 152, 1, 130, 177, 10, 183, 213, 75, 254, 211, 201, 100, 7, 58, 14, 225, 114, 243, 218,
      166, 35, 37, 175, 2, 26, 104, 247, 7, 81, 26], by rfl⟩

def vectorSignatureBytes : List UInt8 :=
  [229, 86, 67, 0, 195, 96, 172, 114, 144, 134, 226, 204, 128, 110, 130, 138, 132, 135, 127, 30,
      184, 229, 217, 116, 216, 115, 224, 101, 34, 73, 1, 85, 95, 184, 130, 21, 144, 163, 59, 172,
      198, 30, 57, 112, 28, 249, 180, 107, 210, 91, 245, 240, 89, 91, 190, 36, 101, 81, 65, 67, 142,
      122, 16, 11]

/-- The SHA-256 fingerprint of the key. -/
def vectorSignerId : String := "21fe31dfa154a261626bf854046fd2271b7bed4b6abe45aa58877ef47f9721b9"

def vectorScheme : Ed25519 where
  Key := PublicKey
  fromBytes k := if k = vectorKey then .ok k else .error "signature error"
  verify k m s :=
    if k = vectorKey ∧ m = [] ∧ s = vectorSignatureBytes then .ok () else .error "signature error"

/-- A roster on which the test key is enrolled as a reviewer. -/
def vectorContext : SigningContext where
  ed := vectorScheme
  fingerprint k := if k = vectorKey then vectorSignerId else ""
  roster := some fun k r => k == vectorKey && r == .reviewer
  devAllowed := false

def vectorSignature : Signature where
  signer := { id := vectorSignerId, role := .reviewer }
  signatureBytes := vectorSignatureBytes
  pubkey := vectorKey

/-- A submission that any reviewer may approve, with the empty payload. -/
def vectorSubmission : RoleSubmission where
  call := { callId := "c1", name := "transfer" }
  payload := []
  quorum := .oneOf {.reviewer}
  proposer := { id := "alice", role := .operator }

/-- Submitted, inserted, signed by the reviewer, and polled. -/
def vectorRun : List Label :=
  [.submitForAction vectorSubmission, .advanceRole 0, .advanceRole 0, .advanceRole 0,
    .addSignature "c1" vectorSignature, .pollRole 0, .cleanupRole 0]

theorem approvals_earned_vector :
    accepted vectorContext vectorRun 0 = [vectorSignature] ∧ delivered vectorContext vectorRun 0 = [.approved] := by
  have hresult : ((World.run vectorContext vectorRun).role 0).result? = some (.resolved .approved) := by decide
  obtain ⟨sub, hsub, hearned⟩ :=
    (approvals_earned vectorContext (fun k r => k == vectorKey && r == .reviewer) rfl vectorRun 0).2 hresult
  have hquorum : sub.quorum ≠ .autoApprove := by
    have heq : vectorSubmission = sub := Option.some.inj hsub
    rw [← heq]
    decide
  exact ⟨by decide, (hearned hquorum).1⟩

end AgentRuntime.Hitl
