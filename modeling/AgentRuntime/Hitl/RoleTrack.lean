import AgentRuntime.Hitl.World

/-!
# `Hitl.RoleTrack` — what one access does to the role-aware track

`role_step` says once what an access can do to the role-aware track, which signature it accepts (`signs`) and
which outcomes it sends (`sends`). `RoleStep.move` is the same seen from one submission.
-/

namespace AgentRuntime.Hitl

/-! ## What a step accepts and sends -/

/-- The signature an `add_signature` accepts, with the submission whose entry keeps it. -/
def signs (ctx : SigningContext) (w : World) : Label → List (ℕ × Signature)
  | .addSignature callId sig =>
      match w.queue.rolePending.lookup callId, (w.addSignature ctx callId sig).1 with
      | some entry, .ok () => [(entry.resolver, sig)]
      | _, _ => []
  | _ => []

/-- The outcomes a step sends, each with the submission it is sent to. -/
def sends (ctx : SigningContext) (w : World) : Label → List (ℕ × ApprovalOutcome)
  | .addSignature callId sig =>
      match w.queue.addSignature ctx callId sig with
      | .ok (.satisfied resolver _) => [(resolver, .approved)]
      | _ => []
  | .rejectAction callId =>
      match w.queue.rolePending.lookup callId with
      | some entry => [(entry.resolver, .rejected)]
      | none => []
  | .advanceFreeze f =>
      match w.freezes f with
      | .drainingRole _ => w.queue.rolePending.map fun e => (e.2.resolver, .rejected)
      | _ => []
  | _ => []

/-! ## Program points -/

namespace RolePc

def sub? : RolePc → Option RoleSubmission
  | .entered sub | .drawing sub | .inserting sub _ | .waiting sub _ | .leaving sub _ _ => some sub
  | _ => none

def draw? : RolePc → Option ℕ
  | .inserting _ draw | .waiting _ draw | .leaving _ draw _ => some draw
  | _ => none

def result? : RolePc → Option (Ending ApprovalOutcomePublic)
  | .leaving _ _ result | .done result => some result
  | _ => none

/-- Before its entry is inserted. -/
def early : RolePc → Bool
  | .absent | .entered _ | .drawing _ | .inserting _ _ => true
  | _ => false

/-- Its entry was inserted and its guard has not run. -/
def guarded : RolePc → Bool
  | .waiting _ _ | .leaving _ _ _ => true
  | _ => false

end RolePc

/-- The entry a submission inserts. -/
def RoleSubmission.entry (sub : RoleSubmission) (i draw : ℕ) : RoleAwareEntry where
  quorum := sub.quorum
  proposer := sub.proposer
  payload := sub.payload
  signatures := []
  resolver := i
  nonce := nonceOf draw

/-! ## The cases of a step -/

/-- An access that leaves the role-aware track alone. -/
structure SameRole (w w' : World) : Prop where
  pending : w'.queue.rolePending = w.queue.rolePending
  role : w'.role = w.role
  chan : w'.roleChan = w.roleChan
  next : w'.roleNext = w.roleNext

theorem SameRole.refl (w : World) : SameRole w w := ⟨rfl, rfl, rfl, rfl⟩

/-- Everything an access can do to the role-aware track. -/
inductive RoleStep (ctx : SigningContext) (w w' : World) : Label → Prop where
  | elsewhere {l : Label} (same : SameRole w w') (label : ∀ sub, l ≠ .submitForAction sub)
      (signs : signs ctx w l = []) (sends : sends ctx w l = []) : RoleStep ctx w w' l
  | submitted {sub : RoleSubmission} (pending : w'.queue.rolePending = w.queue.rolePending)
      (role : w'.role = Function.update w.role w.roleNext (.entered sub)) (chan : w'.roleChan = w.roleChan)
      (next : w'.roleNext = w.roleNext + 1) : RoleStep ctx w w' (.submitForAction sub)
  /-- A step before the insertion, or a way out that inserts nothing and approves nothing. -/
  | moved {i : ℕ} {sub : RoleSubmission} {pc : RolePc} (before : (w.role i).early = true)
      (subBefore : (w.role i).sub? = some sub) (subAfter : ∀ s, pc.sub? = some s → s = sub)
      (unguarded : pc.guarded = false) (result : pc.result? ≠ some (.resolved .approved))
      (pending : w'.queue.rolePending = w.queue.rolePending) (role : w'.role = Function.update w.role i pc)
      (chan : w'.roleChan = w.roleChan) (next : w'.roleNext = w.roleNext) :
      RoleStep ctx w w' (.advanceRole i)
  | inserted {i draw : ℕ} {sub : RoleSubmission}
      (before : w.role i = .inserting sub draw) (thawed : w.queue.frozen = false)
      (unused : w.queue.rolePending.lookup sub.call.callId = none)
      (pending : w'.queue.rolePending = (sub.call.callId, sub.entry i draw) :: w.queue.rolePending)
      (role : w'.role = Function.update w.role i (.waiting sub draw)) (chan : w'.roleChan = w.roleChan)
      (next : w'.roleNext = w.roleNext) : RoleStep ctx w w' (.advanceRole i)
  | left {l : Label} {i draw : ℕ} {sub : RoleSubmission} {result : Ending ApprovalOutcomePublic}
      (before : w.role i = .waiting sub draw)
      (approved : result = .resolved .approved → (w.roleChan i).value = some .approved)
      (pending : w'.queue.rolePending = w.queue.rolePending)
      (role : w'.role = Function.update w.role i (.leaving sub draw result))
      (chan : ∀ j, (w'.roleChan j).value = (w.roleChan j).value) (next : w'.roleNext = w.roleNext)
      (label : ∀ sub, l ≠ .submitForAction sub) (signs : signs ctx w l = []) (sends : sends ctx w l = []) :
      RoleStep ctx w w' l
  | cleaned {i draw : ℕ} {sub : RoleSubmission} {result : Ending ApprovalOutcomePublic}
      (before : w.role i = .leaving sub draw result)
      (pending : w'.queue.rolePending
        = (w.queue.evictRole sub.call.callId (nonceOf draw)).rolePending)
      (role : w'.role = Function.update w.role i (.done result))
      (chan : ∀ j, (w'.roleChan j).value = (w.roleChan j).value) (next : w'.roleNext = w.roleNext) :
      RoleStep ctx w w' (.cleanupRole i)
  | kept {callId : String} {sig : Signature} {entry : RoleAwareEntry}
      (found : w.queue.rolePending.lookup callId = some entry) (approves : canApprove sig.signer.role = true)
      (checked : checkSignature ctx entry sig = .ok ())
      (pending : w'.queue.rolePending
        = (w.queue.setSignatures callId (entry.signatures ++ [sig])).rolePending)
      (role : w'.role = w.role) (chan : w'.roleChan = w.roleChan) (next : w'.roleNext = w.roleNext)
      (signs : signs ctx w (.addSignature callId sig) = [(entry.resolver, sig)])
      (sends : sends ctx w (.addSignature callId sig) = []) : RoleStep ctx w w' (.addSignature callId sig)
  | satisfied {callId : String} {sig : Signature} {entry : RoleAwareEntry}
      (found : w.queue.rolePending.lookup callId = some entry) (approves : canApprove sig.signer.role = true)
      (checked : checkSignature ctx entry sig = .ok ())
      (quorum : entry.quorum.satisfiedBy ((entry.signatures ++ [sig]).map fun s => s.signer.role) = true)
      (pending : w'.queue.rolePending = (w.queue.removeRole callId).rolePending) (role : w'.role = w.role)
      (chan : w'.roleChan
        = Function.update w.roleChan entry.resolver ((w.roleChan entry.resolver).send .approved))
      (next : w'.roleNext = w.roleNext)
      (signs : signs ctx w (.addSignature callId sig) = [(entry.resolver, sig)])
      (sends : sends ctx w (.addSignature callId sig) = [(entry.resolver, .approved)]) :
      RoleStep ctx w w' (.addSignature callId sig)
  | rejected {callId : String} {entry : RoleAwareEntry}
      (found : w.queue.rolePending.lookup callId = some entry)
      (pending : w'.queue.rolePending = (w.queue.removeRole callId).rolePending) (role : w'.role = w.role)
      (chan : w'.roleChan
        = Function.update w.roleChan entry.resolver ((w.roleChan entry.resolver).send .rejected))
      (next : w'.roleNext = w.roleNext)
      (sends : sends ctx w (.rejectAction callId) = [(entry.resolver, .rejected)]) :
      RoleStep ctx w w' (.rejectAction callId)
  | drained {f drained : ℕ} (before : w.freezes f = .drainingRole drained)
      (pending : w'.queue.rolePending = []) (role : w'.role = w.role)
      (chan : w'.roleChan = fun i =>
        if w.queue.rolePending.any fun e => e.2.resolver == i then (w.roleChan i).send .rejected
        else w.roleChan i)
      (next : w'.roleNext = w.roleNext) : RoleStep ctx w w' (.advanceFreeze f)

namespace RoleStep

variable {ctx : SigningContext} {w w' : World} {i : ℕ} {sub : RoleSubmission}

/-- The submission goes on with its arguments. -/
theorem goesOn {pc : RolePc} (before : (w.role i).early = true) (subBefore : (w.role i).sub? = some sub)
    (subAfter : pc.sub? = some sub) (early : pc.early = true)
    (pending : w'.queue.rolePending = w.queue.rolePending) (role : w'.role = Function.update w.role i pc)
    (chan : w'.roleChan = w.roleChan) (next : w'.roleNext = w.roleNext) :
    RoleStep ctx w w' (.advanceRole i) := by
  have hunguarded : pc.guarded = false := by
    cases pc with
    | waiting _ _ => cases early
    | leaving _ _ _ => cases early
    | _ => rfl
  have hresult : pc.result? = none := by
    cases pc with
    | leaving _ _ _ => cases early
    | done _ => cases early
    | _ => rfl
  refine .moved before subBefore ?_ hunguarded ?_ pending role chan next
  · intro s hs
    rw [subAfter] at hs
    exact (Option.some.inj hs).symm
  · rw [hresult]
    exact nofun

/-- The submission ends before it is inserted. -/
theorem ends {result : Ending ApprovalOutcomePublic} (before : (w.role i).early = true)
    (subBefore : (w.role i).sub? = some sub) (hresult : result ≠ .resolved .approved)
    (pending : w'.queue.rolePending = w.queue.rolePending)
    (role : w'.role = Function.update w.role i (.done result)) (chan : w'.roleChan = w.roleChan)
    (next : w'.roleNext = w.roleNext) : RoleStep ctx w w' (.advanceRole i) := by
  refine .moved before subBefore ?_ rfl ?_ pending role chan next
  · intro s hs
    cases hs
  · intro h
    exact hresult (Option.some.inj h)

end RoleStep

section

variable {ctx : SigningContext} {w : World}

theorem advanceRole_step (w : World) (i : ℕ) : RoleStep ctx w (w.advanceRole i) (.advanceRole i) := by
  unfold World.advanceRole
  split
  · rename_i sub hpc
    have hearly : (w.role i).early = true := by rw [hpc]; rfl
    have hsub : (w.role i).sub? = some sub := by rw [hpc]; rfl
    split
    · exact .ends hearly hsub (by decide) rfl rfl rfl rfl
    · split
      · exact .ends hearly hsub (by decide) rfl rfl rfl rfl
      · exact .goesOn hearly hsub rfl rfl rfl rfl rfl rfl
  · rename_i sub hpc
    have hearly : (w.role i).early = true := by rw [hpc]; rfl
    have hsub : (w.role i).sub? = some sub := by rw [hpc]; rfl
    exact .goesOn hearly hsub rfl rfl rfl rfl rfl rfl
  · rename_i sub draw hpc
    have hearly : (w.role i).early = true := by rw [hpc]; rfl
    have hsub : (w.role i).sub? = some sub := by rw [hpc]; rfl
    simp only
    cases hinsert : w.queue.insertRole sub.call.callId _ with
    | none => exact .ends hearly hsub (by decide) rfl rfl rfl rfl
    | some q =>
        obtain ⟨hthawed, hunused, rfl⟩ := insertRole_eq_some hinsert
        exact .inserted hpc hthawed hunused rfl rfl rfl rfl
  · exact .elsewhere (.refl w) nofun rfl rfl

theorem leaveRole_step (w : World) (i : ℕ) {result : Ending ApprovalOutcomePublic} {l : Label}
    (happroved : result = .resolved .approved → (w.roleChan i).value = some .approved)
    (hlabel : ∀ sub, l ≠ .submitForAction sub) (hsigns : signs ctx w l = []) (hsends : sends ctx w l = []) :
    RoleStep ctx w (w.leaveRole i result) l := by
  unfold World.leaveRole
  split
  · rename_i sub draw hpc
    refine .left hpc happroved rfl rfl ?_ rfl hlabel hsigns hsends
    intro j
    show (Function.update w.roleChan i { w.roleChan i with receiverAlive := false } j).value = _
    by_cases hj : j = i
    · rw [hj, Function.update_self]
    · rw [Function.update_of_ne hj]
  · exact .elsewhere (.refl w) hlabel hsigns hsends

theorem pollRole_step (w : World) (i : ℕ) : RoleStep ctx w (w.pollRole i) (.pollRole i) := by
  unfold World.pollRole
  split
  · rename_i o hvalue
    refine leaveRole_step w i ?_ nofun rfl rfl
    intro happroved
    cases o with
    | approved => exact hvalue
    | rejected => cases happroved
    | submittedOutcomeUnknown u => cases happroved
  · split
    · exact .elsewhere (.refl w) nofun rfl rfl
    · exact leaveRole_step w i nofun nofun rfl rfl

/-- A dropped sender changes no value. -/
theorem dropRoleSender_eq (w : World) (callId : String) (nonce : ℕ) :
    ∃ chan, w.dropRoleSender callId nonce = { w with roleChan := chan } ∧
      ∀ j, (chan j).value = (w.roleChan j).value := by
  unfold World.dropRoleSender
  split
  · rename_i e _
    split
    · refine ⟨_, rfl, ?_⟩
      intro j
      by_cases hj : j = e.resolver
      · rw [hj, Function.update_self]
      · rw [Function.update_of_ne hj]
    · exact ⟨w.roleChan, rfl, fun _ => rfl⟩
  · exact ⟨w.roleChan, rfl, fun _ => rfl⟩

theorem cleanupRole_step (w : World) (i : ℕ) : RoleStep ctx w (w.cleanupRole i) (.cleanupRole i) := by
  unfold World.cleanupRole
  split
  · rename_i sub draw result hpc
    obtain ⟨chan, hdrop, hvalue⟩ := dropRoleSender_eq w sub.call.callId (nonceOf draw)
    rw [hdrop]
    exact .cleaned hpc rfl rfl hvalue rfl
  · exact .elsewhere (.refl w) nofun rfl rfl

theorem addSignature_step (w : World) (callId : String) (sig : Signature) :
    RoleStep ctx w (w.addSignature ctx callId sig).2 (.addSignature callId sig) := by
  have hlabel : ∀ sub, Label.addSignature callId sig ≠ .submitForAction sub := fun _ h => by cases h
  cases hadd : w.queue.addSignature ctx callId sig with
  | error e =>
      have hresult : w.addSignature ctx callId sig = (.error e, w) := by
        unfold World.addSignature
        rw [hadd]
      have hsigns : signs ctx w (.addSignature callId sig) = [] := by
        unfold signs
        simp only [hresult]
        cases w.queue.rolePending.lookup callId with
        | none => rfl
        | some entry => rfl
      have hsends : sends ctx w (.addSignature callId sig) = [] := by
        unfold sends
        simp only [hadd]
      rw [hresult]
      exact .elsewhere (.refl w) hlabel hsigns hsends
  | ok out =>
      obtain ⟨happroves, entry, hfound, hchecked, ⟨hquorum, rfl⟩ | ⟨-, rfl⟩⟩ := addSignature_eq_ok hadd
      · have hresult : w.addSignature ctx callId sig = (.ok (), (w.setQueue (w.queue.removeRole callId)).setRoleChan
            entry.resolver ((w.roleChan entry.resolver).send .approved)) := by
          unfold World.addSignature
          rw [hadd]
        have hsigns : signs ctx w (.addSignature callId sig) = [(entry.resolver, sig)] := by
          unfold signs
          simp only [hresult, hfound]
        have hsends : sends ctx w (.addSignature callId sig) = [(entry.resolver, .approved)] := by
          unfold sends
          simp only [hadd]
        rw [hresult]
        exact .satisfied hfound happroves hchecked hquorum rfl rfl rfl rfl hsigns hsends
      · have hresult : w.addSignature ctx callId sig
            = (.ok (), w.setQueue (w.queue.setSignatures callId (entry.signatures ++ [sig]))) := by
          unfold World.addSignature
          rw [hadd]
        have hsigns : signs ctx w (.addSignature callId sig) = [(entry.resolver, sig)] := by
          unfold signs
          simp only [hresult, hfound]
        have hsends : sends ctx w (.addSignature callId sig) = [] := by
          unfold sends
          simp only [hadd]
        rw [hresult]
        exact .kept hfound happroves hchecked rfl rfl rfl rfl hsigns hsends

theorem rejectAction_step (w : World) (callId : String) :
    RoleStep ctx w (w.rejectAction callId).2 (.rejectAction callId) := by
  unfold World.rejectAction
  cases hfound : w.queue.rolePending.lookup callId with
  | none =>
      refine .elsewhere (.refl w) nofun rfl ?_
      unfold sends
      simp only [hfound]
  | some entry =>
      refine .rejected hfound rfl rfl rfl rfl ?_
      unfold sends
      simp only [hfound]

theorem advanceFreeze_role_step (w : World) (f : ℕ) :
    RoleStep ctx w (w.advanceFreeze f) (.advanceFreeze f) := by
  unfold World.advanceFreeze
  cases hpc : w.freezes f with
  | drainingRole drained => exact .drained hpc rfl rfl rfl rfl
  | drainingFifo =>
      refine .elsewhere ⟨rfl, rfl, rfl, rfl⟩ nofun rfl ?_
      unfold sends
      simp only [hpc]
  | absent =>
      refine .elsewhere (.refl w) nofun rfl ?_
      unfold sends
      simp only [hpc]
  | returned drained =>
      refine .elsewhere (.refl w) nofun rfl ?_
      unfold sends
      simp only [hpc]

/-! ### The FIFO track's accesses -/

theorem advanceFifo_sameRole (w : World) (i : ℕ) : SameRole w (w.advanceFifo i) := by
  unfold World.advanceFifo
  split
  · split
    · exact ⟨rfl, rfl, rfl, rfl⟩
    · exact ⟨rfl, rfl, rfl, rfl⟩
  · exact ⟨rfl, rfl, rfl, rfl⟩
  · split
    · exact ⟨rfl, rfl, rfl, rfl⟩
    · exact ⟨rfl, rfl, rfl, rfl⟩
  · exact ⟨rfl, rfl, rfl, rfl⟩
  · rename_i call draw _
    cases henqueue : w.queue.enqueue call i (nonceOf draw) with
    | none => exact ⟨rfl, rfl, rfl, rfl⟩
    | some q =>
        obtain ⟨-, -, rfl⟩ := enqueue_eq_some henqueue
        exact ⟨rfl, rfl, rfl, rfl⟩
  · exact .refl w

theorem leaveFifo_sameRole (w : World) (i : ℕ) (result : Ending Resolution) :
    SameRole w (w.leaveFifo i result) := by
  unfold World.leaveFifo
  split
  · exact ⟨rfl, rfl, rfl, rfl⟩
  · exact .refl w

theorem pollFifo_sameRole (w : World) (i : ℕ) : SameRole w (w.pollFifo i) := by
  unfold World.pollFifo
  split
  · exact leaveFifo_sameRole w i _
  · split
    · exact .refl w
    · exact leaveFifo_sameRole w i _

theorem cleanupFifo_sameRole (w : World) (i : ℕ) : SameRole w (w.cleanupFifo i) := by
  unfold World.cleanupFifo
  split
  · simp only
    split
    · exact ⟨rfl, rfl, rfl, rfl⟩
    · exact ⟨rfl, rfl, rfl, rfl⟩
  · exact .refl w

theorem resolveHeadById_sameRole {w v : World} (hv : SameRole w v) (callId : String)
    (outcome : ApprovalOutcome) : SameRole w (v.resolveHeadById callId outcome).2 := by
  unfold World.resolveHeadById
  cases hpop : v.queue.popHead callId with
  | none => exact hv
  | some popped =>
      obtain ⟨e, q⟩ := popped
      obtain ⟨-, -, hq⟩ := popHead_eq_some hpop
      exact ⟨(congrArg ApprovalQueue.rolePending hq).trans hv.pending, hv.role, hv.chan, hv.next⟩

/-- **What an access does to the role-aware track.** -/
theorem role_step (ctx : SigningContext) (w : World) (l : Label) : RoleStep ctx w (w.exec ctx l) l := by
  cases l with
  | submitForAction sub => exact .submitted rfl rfl rfl rfl
  | advanceRole i => exact advanceRole_step w i
  | pollRole i => exact pollRole_step w i
  | timeOutRole i => exact leaveRole_step w i nofun nofun rfl rfl
  | cancelRole i => exact leaveRole_step w i nofun nofun rfl rfl
  | cleanupRole i => exact cleanupRole_step w i
  | addSignature callId sig => exact addSignature_step w callId sig
  | rejectAction callId => exact rejectAction_step w callId
  | advanceFreeze f => exact advanceFreeze_role_step w f
  | advance i => exact .elsewhere (advanceFifo_sameRole w i) nofun rfl rfl
  | poll i => exact .elsewhere (pollFifo_sameRole w i) nofun rfl rfl
  | timeOut i => exact .elsewhere (leaveFifo_sameRole w i _) nofun rfl rfl
  | cancel i => exact .elsewhere (leaveFifo_sameRole w i _) nofun rfl rfl
  | cleanup i => exact .elsewhere (cleanupFifo_sameRole w i) nofun rfl rfl
  | approveById callId => exact .elsewhere (resolveHeadById_sameRole (.refl w) callId _) nofun rfl rfl
  | rejectById callId => exact .elsewhere (resolveHeadById_sameRole (.refl w) callId _) nofun rfl rfl
  | approveUnknown k =>
      refine .elsewhere ?_ nofun rfl rfl
      unfold World.exec
      simp only
      split
      · rename_i callId u _
        exact resolveHeadById_sameRole (w := w) (v := { w with unknowns := w.unknowns.eraseIdx k })
          ⟨rfl, rfl, rfl, rfl⟩ callId (.submittedOutcomeUnknown u)
      · exact .refl w
  | rememberUnknown callId outcome =>
      unfold World.exec World.setQueue
      refine .elsewhere ⟨?_, rfl, rfl, rfl⟩ nofun rfl rfl
      dsimp only [ApprovalQueue.rememberUnknownOutcome]
  | addGrant toolName => exact .elsewhere ⟨rfl, rfl, rfl, rfl⟩ nofun rfl rfl
  | tick seconds => exact .elsewhere ⟨rfl, rfl, rfl, rfl⟩ nofun rfl rfl
  | submit call => exact .elsewhere ⟨rfl, rfl, rfl, rfl⟩ nofun rfl rfl
  | freeze => exact .elsewhere ⟨rfl, rfl, rfl, rfl⟩ nofun rfl rfl
  | thaw => exact .elsewhere ⟨rfl, rfl, rfl, rfl⟩ nofun rfl rfl

end

/-! ## What a step does to one submission -/

/-- Inserted with these arguments and this draw, and not cleaned up. -/
def RolePc.Holds (pc : RolePc) (sub : RoleSubmission) (draw : ℕ) : Prop :=
  pc = .waiting sub draw ∨ ∃ result, pc = .leaving sub draw result

/-- The same steps, seen from submission `i`. -/
inductive RoleMove (w w' : World) (l : Label) (i : ℕ) : Prop where
  | stays (role : w'.role i = w.role i)
  | enters (sub : RoleSubmission) (label : l = .submitForAction sub) (index : i = w.roleNext)
      (role : w'.role i = .entered sub)
  | moves (sub : RoleSubmission) (label : l = .advanceRole i) (before : (w.role i).early = true)
      (subBefore : (w.role i).sub? = some sub) (subAfter : ∀ s, (w'.role i).sub? = some s → s = sub)
      (unguarded : (w'.role i).guarded = false) (result : (w'.role i).result? ≠ some (.resolved .approved))
  | inserts (sub : RoleSubmission) (draw : ℕ) (before : w.role i = .inserting sub draw)
      (role : w'.role i = .waiting sub draw)
  | leaves (sub : RoleSubmission) (draw : ℕ) (result : Ending ApprovalOutcomePublic)
      (before : w.role i = .waiting sub draw)
      (approved : result = .resolved .approved → (w.roleChan i).value = some .approved)
      (role : w'.role i = .leaving sub draw result)
  | cleans (sub : RoleSubmission) (draw : ℕ) (result : Ending ApprovalOutcomePublic)
      (before : w.role i = .leaving sub draw result) (role : w'.role i = .done result)
      (pending : w'.queue.rolePending = (w.queue.evictRole sub.call.callId (nonceOf draw)).rolePending)

section

variable {ctx : SigningContext} {w w' : World} {l : Label}

theorem RoleStep.move (h : RoleStep ctx w w' l) (i : ℕ) : RoleMove w w' l i := by
  -- A step of another submission leaves this one where it is.
  have hother : ∀ {j : ℕ} {pc : RolePc}, w'.role = Function.update w.role j pc → i ≠ j →
      w'.role i = w.role i := by
    intro j pc hrole hi
    rw [hrole, Function.update_of_ne hi]
  have hself : ∀ {pc : RolePc}, w'.role = Function.update w.role i pc → w'.role i = pc := by
    intro pc hrole
    rw [hrole, Function.update_self]
  cases h with
  | elsewhere same => exact .stays (congrFun same.role i)
  | kept _ _ _ _ role => exact .stays (congrFun role i)
  | satisfied _ _ _ _ _ role => exact .stays (congrFun role i)
  | rejected _ _ role => exact .stays (congrFun role i)
  | drained _ _ role => exact .stays (congrFun role i)
  | @submitted sub _ role =>
      by_cases hi : i = w.roleNext
      · subst hi
        exact .enters sub rfl rfl (hself role)
      · exact .stays (hother role hi)
  | @moved j sub pc before subBefore subAfter unguarded result _ role =>
      by_cases hi : i = j
      · subst hi
        have hpc := hself role
        subst hpc
        exact .moves sub rfl before subBefore subAfter unguarded result
      · exact .stays (hother role hi)
  | @inserted j draw sub before _ _ _ role =>
      by_cases hi : i = j
      · subst hi
        exact .inserts sub draw before (hself role)
      · exact .stays (hother role hi)
  | @left _ j draw sub result before approved _ role =>
      by_cases hi : i = j
      · subst hi
        exact .leaves sub draw result before approved (hself role)
      · exact .stays (hother role hi)
  | @cleaned j draw sub result before pending role =>
      by_cases hi : i = j
      · subst hi
        exact .cleans sub draw result before (hself role) pending
      · exact .stays (hother role hi)

namespace RoleMove

variable {i : ℕ}

/-- A submission keeps its arguments; a new one gets those it was made with. -/
theorem sub?_eq (h : RoleMove w w' l i) {sub : RoleSubmission} (hsub : (w'.role i).sub? = some sub) :
    (w.role i).sub? = some sub ∨ l = .submitForAction sub ∧ i = w.roleNext := by
  cases h with
  | stays role =>
      rw [role] at hsub
      exact .inl hsub
  | enters sub' label index role =>
      rw [role] at hsub
      cases hsub
      exact .inr ⟨label, index⟩
  | moves sub' _ _ subBefore subAfter =>
      rw [subAfter sub hsub]
      exact .inl subBefore
  | inserts sub' draw before role =>
      rw [role] at hsub
      rw [before]
      exact .inl hsub
  | leaves sub' draw result before _ role =>
      rw [role] at hsub
      rw [before]
      exact .inl hsub
  | cleans sub' draw result _ role =>
      rw [role] at hsub
      cases hsub

/-- Whoever is before its insertion was so before the step. -/
theorem early_before (h : RoleMove w w' l i) (hfresh : w.role w.roleNext = .absent)
    (hearly : (w'.role i).early = true) : (w.role i).early = true := by
  cases h with
  | stays role =>
      rw [role] at hearly
      exact hearly
  | enters sub label index =>
      rw [index, hfresh]
      rfl
  | moves sub _ before => exact before
  | inserts sub draw before role =>
      rw [role] at hearly
      cases hearly
  | leaves sub draw result _ _ role =>
      rw [role] at hearly
      cases hearly
  | cleans sub draw result _ role =>
      rw [role] at hearly
      cases hearly

/-- Whoever was inserted stays so until its own cleanup. -/
theorem holds (h : RoleMove w w' l i) (hfresh : w.role w.roleNext = .absent) {sub : RoleSubmission} {draw : ℕ}
    (hholds : (w.role i).Holds sub draw) :
    (w'.role i).Holds sub draw ∨
      w'.queue.rolePending = (w.queue.evictRole sub.call.callId (nonceOf draw)).rolePending := by
  have hlate : (w.role i).early = false := by
    rcases hholds with hpc | ⟨result, hpc⟩
    · rw [hpc]
      rfl
    · rw [hpc]
      rfl
  cases h with
  | stays role =>
      rw [role]
      exact .inl hholds
  | enters sub' label index =>
      rw [index, hfresh] at hlate
      cases hlate
  | moves sub' _ before =>
      rw [hlate] at before
      cases before
  | inserts sub' draw' before =>
      rw [before] at hlate
      cases hlate
  | leaves sub' draw' result before _ role =>
      rcases hholds with hpc | ⟨result', hpc⟩
      · rw [before] at hpc
        cases hpc
        exact .inl (.inr ⟨result, role⟩)
      · rw [before] at hpc
        cases hpc
  | cleans sub' draw' result before _ pending =>
      rcases hholds with hpc | ⟨result', hpc⟩
      · rw [before] at hpc
        cases hpc
      · rw [before] at hpc
        cases hpc
        exact .inr pending

/-- An approval that ends a wait was in the channel. -/
theorem approved (h : RoleMove w w' l i) (hresult : (w'.role i).result? = some (.resolved .approved)) :
    (w.role i).result? = some (.resolved .approved) ∨ (w.roleChan i).value = some .approved := by
  cases h with
  | stays role =>
      rw [role] at hresult
      exact .inl hresult
  | enters sub label index role =>
      rw [role] at hresult
      cases hresult
  | moves sub _ _ _ _ _ result => exact absurd hresult result
  | inserts sub draw _ role =>
      rw [role] at hresult
      cases hresult
  | leaves sub draw result _ approved role =>
      rw [role] at hresult
      exact .inr (approved (Option.some.inj hresult))
  | cleans sub draw result before role =>
      rw [role] at hresult
      rw [before]
      exact .inl hresult

end RoleMove

end

end AgentRuntime.Hitl
