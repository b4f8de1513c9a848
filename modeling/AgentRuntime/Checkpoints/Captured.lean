import AgentRuntime.Checkpoints.Located
import AgentRuntime.Lib.Related

/-!
# `Checkpoints.Captured` — what a snapshot holds (`agent-checkpoints/src/paths.rs`, `store.rs`)

Resolving and capturing only look (`Still`). A path that is accepted has no link on the way, so what is captured is what
stands at the path (`Holds`), and no path of a step is below another one that is there (`Sound`).
-/

namespace AgentRuntime.Checkpoints

open FileTree
open AgentRuntime.Guard (route hasRoot components)

/-! ## What only looks -/

/-- Only the clock went on. -/
structure Still (w w' : World) : Prop where
  files : w'.files = w.files
  disk : w'.disk = w.disk
  inner : w'.inner = w.inner

theorem Still.refl (w : World) : Still w w := ⟨rfl, rfl, rfl⟩

theorem Still.trans (w w' w'' : World) (h : Still w w') (h' : Still w' w'') : Still w w'' :=
  ⟨h'.files.trans h.files, h'.disk.trans h.disk, h'.inner.trans h.inner⟩

/-- A program that only looks. -/
abbrev Looks {ε α : Type} (x : Prog World ε α) : Prop := Prog.Moves Still x

section

variable {ε α β : Type}

theorem Looks.pure (a : α) : Looks (Pure.pure a : Prog World ε α) := Prog.Moves.pure Still.refl a

theorem Looks.throw (e : ε) : Looks (Prog.throw e : Prog World ε α) := Prog.Moves.throw Still.refl e

theorem Looks.read (g : World → α) : Looks (Prog.read g : Prog World ε α) := Prog.Moves.read Still.refl g

theorem Looks.ofExcept (r : Except ε α) : Looks (Prog.ofExcept r) := Prog.Moves.ofExcept Still.refl r

theorem Looks.bind {x : Prog World ε α} {f : α → Prog World ε β} (hx : Looks x) (hf : ∀ a, Looks (f a)) :
    Looks (x >>= f) :=
  Prog.Moves.bind Still.trans hx hf

theorem Looks.run {x : Prog World ε α} (h : Looks x) {w w' : World} {r : Except ε α} (hrun : x w = (r, w')) :
    Still w w' := by
  have := h w
  rwa [hrun] at this

end

section

variable (env : Env)

theorem look_looks {α : Type} (f : World → Except IoError α) : Looks (look env f) := by
  intro w
  unfold look io Prog.act
  dsimp only
  split
  · exact ⟨rfl, rfl, rfl⟩
  · exact ⟨rfl, rfl, rfl⟩

theorem call_looks (path : List String) : Looks (call env path) := (look_looks env _).mapError

theorem lstat_looks (loc : List String) : Looks (lstat env loc) := look_looks env _

/-- What a look that succeeds has seen. -/
theorem look_ok {α : Type} {f : World → Except IoError α} {a : α} {w w' : World} (h : look env f w = (.ok a, w')) :
    f { w with clock := w.clock + 1 } = .ok a := by
  unfold look io Prog.act at h
  dsimp only at h
  split at h
  · cases h
  · exact congrArg Prod.fst h

/-- A disk that fails does not say that there is nothing. -/
def Honest (fault : ℕ → Option IoError) : Prop := ∀ n, fault n ≠ some .notFound

/-- What a look that finds nothing has seen. -/
theorem look_notFound {α : Type} {f : World → Except IoError α} {w w' : World} (hfault : Honest env.fault)
    (h : look env f w = (.error .notFound, w')) : f { w with clock := w.clock + 1 } = .error .notFound := by
  unfold look io Prog.act at h
  dsimp only at h
  split at h
  · rename_i e he
    have heq : e = .notFound := Except.error.inj (congrArg Prod.fst h)
    exact absurd (heq ▸ he) (hfault _)
  · exact congrArg Prod.fst h

theorem lstat_found {loc : List String} {node : Node} {w w' : World} (hground : Grounded w.files.view)
    (hloc : Unlinked w.files.view loc.dropLast) (h : lstat env loc w = (.ok node, w')) :
    w.files.at? loc = some node :=
  Files.lstat_ok hground hloc (look_ok env h)

theorem lstat_nothing {loc : List String} {w w' : World} (hfault : Honest env.fault) (hground : Grounded w.files.view)
    (hloc : Unlinked w.files.view loc.dropLast) (h : lstat env loc w = (.error .notFound, w')) :
    w.files.at? loc = none :=
  Files.lstat_error hground hloc (look_notFound env hfault h)

theorem canonicalRoot_looks (shown : String) (rooted : Bool) (comps : List (Comp String)) :
    Looks (canonicalRoot env shown rooted comps) := by
  refine Looks.bind (look_looks env _).mapError fun loc => ?_
  refine Looks.bind (lstat_looks env loc).attempt fun found => ?_
  split
  · exact .pure _
  · exact .throw _

theorem walkParents_looks (p : String) (root seen rest : List String) : Looks (walkParents env p root seen rest) := by
  induction rest generalizing seen with
  | nil => exact .pure _
  | cons part rest ih =>
      refine Looks.bind (lstat_looks env _).attempt fun found => ?_
      split
      · exact .throw _
      · exact ih _
      · exact .throw _
      · exact .pure _
      · exact .throw _

theorem resolvePath_looks (rootCanon : List String) (root p : String) : Looks (resolvePath env rootCanon root p) :=
  Looks.bind (.ofExcept _) fun _ => Looks.bind (.ofExcept _) fun _ => Looks.bind (.ofExcept _) fun _ =>
    Looks.bind (walkParents_looks env _ _ _ _) fun _ => .pure _

theorem planOne_looks (rootCanon : List String) (root : String) (done : List Plan) (c : Change) :
    Looks (planOne env rootCanon root done c) := by
  cases c with
  | write path sha256 => exact Looks.bind (resolvePath_looks env _ _ _) fun _ => .pure _
  | delete path => exact Looks.bind (resolvePath_looks env _ _ _) fun _ => .pure _
  | rename source target =>
      exact Looks.bind (resolvePath_looks env _ _ _) fun _ => Looks.bind (resolvePath_looks env _ _ _) fun _ => .pure _

theorem planAll_looks (rootCanon : List String) (root : String) (changes : List Change) (done : List Plan) :
    Looks (planAll env rootCanon root changes done) := by
  induction changes generalizing done with
  | nil => exact .pure _
  | cons c changes ih => exact Looks.bind (planOne_looks env _ _ _ _) fun _ => ih _

theorem stage_looks (abs rel : List String) : Looks (stage env abs rel) := by
  refine Looks.bind (call_looks env _) fun _ => Looks.bind (call_looks env _) fun _ => ?_
  refine Looks.bind (lstat_looks env abs).mapError fun node => ?_
  refine Looks.bind (call_looks env _) fun _ => Looks.bind (call_looks env _) fun _ => ?_
  split
  · exact .throw _
  · exact .pure _

theorem captureLink_looks (p : Plan) (target : String) (utf8 : Bool) : Looks (captureLink env p target utf8) := by
  unfold captureLink
  split
  · exact .throw _
  · refine Looks.bind (call_looks env _) fun _ => ?_
    split
    · exact .pure _
    · exact .throw _

theorem captureFile_looks (p : Plan) (size mode : ℕ) : Looks (captureFile env p size mode) := by
  unfold captureFile
  split
  · exact .throw _
  · exact Looks.bind (stage_looks env _ _) fun _ => .pure _

theorem capture_looks (p : Plan) : Looks (capture env p) := by
  refine Looks.bind (lstat_looks env _).attempt fun found => ?_
  split
  · split
    · exact .throw _
    · exact .pure _
  · exact .throw _
  · exact captureLink_looks env p _ _
  · exact .throw _
  · exact .throw _
  · exact captureFile_looks env p _ _

theorem captureAll_looks (plans : List Plan) (entries : List Entry) (staged : List Staged) :
    Looks (captureAll env plans entries staged) := by
  induction plans generalizing entries staged with
  | nil => exact .pure _
  | cons p plans ih => exact Looks.bind (capture_looks env p) fun _ => ih _ _

/-! ## Paths that are accepted -/

/-- The tree as the kernel keeps it: every entry is in a folder, and the current folder's own path has no link in it. -/
structure Settled (files : Files) : Prop where
  ground : Grounded files.view
  cwd : Unlinked files.view env.cwd

/-- The folders on the way below the root: each is there, or nothing is. -/
def Way (files : Files) (root rel : List String) : Prop :=
  ∀ q, q <+: rel → files.at? (root ++ q) = some .folder ∨ files.at? (root ++ q) = none

variable {files : Files} {root rel : List String}

theorem Way.of_prefix {q : List String} (h : Way files root rel) (hq : q <+: rel) : Way files root q :=
  fun q' hq' => h q' (hq'.trans hq)

theorem Way.unlinked (hroot : Unlinked files.view root) (h : Way files root rel) : Unlinked files.view (root ++ rel) := by
  rw [Files.unlinked_iff] at hroot ⊢
  intro p target utf8 hp hlink
  rcases List.prefix_or_prefix_of_prefix hp (List.prefix_append root rel) with hpr | hrp
  · exact hroot p target utf8 hpr hlink
  · obtain ⟨q, rfl⟩ := hrp
    rcases h q ((List.prefix_append_right_inj root).mp hp) with hfolder | hnone
    · rw [hfolder] at hlink
      cases hlink
    · rw [hnone] at hlink
      cases hlink

theorem canonicalRoot_ok {shown : String} {rooted : Bool} {comps : List (Comp String)} {loc : List String} {w w' : World}
    (hground : Grounded w.files.view) (hcwd : rooted = true ∨ Unlinked w.files.view env.cwd)
    (h : canonicalRoot env shown rooted comps w = (.ok loc, w')) :
    Unlinked w.files.view loc ∧ w.files.at? loc = some .folder := by
  obtain ⟨loc', t, hres, h⟩ := Prog.bind_ok h
  have hstill : Still w t := Looks.run (Prog.Moves.mapError (look_looks env _)) hres
  have hwalk : w.files.resolve (if rooted then [] else env.cwd) comps = .ok loc' := look_ok env (Prog.mapError_ok hres)
  have hunlinked : Unlinked w.files.view loc' := by
    have hstart : Unlinked w.files.view (if rooted then [] else env.cwd) := by
      split
      · intro p target hp hlink
        rw [List.prefix_nil.mp hp] at hlink
        obtain ⟨utf8, hlink⟩ := Files.view_link.mp hlink
        simp [Files.at?] at hlink
      · rename_i hrooted
        exact hcwd.resolve_left fun heq => hrooted heq
    unfold Files.resolve at hwalk
    split at hwalk
    · rename_i l hl
      cases hwalk
      exact resolve_unlinked hstart hl
    · cases hwalk
    · cases hwalk
    · cases hwalk
  obtain ⟨found, u, hfound, h⟩ := Prog.bind_ok h
  split at h
  · cases h
    have hlstat := lstat_found env (hstill.files ▸ hground)
      (hstill.files ▸ hunlinked.of_prefix (List.dropLast_prefix _)) (Prog.attempt_ok hfound)
    rw [hstill.files] at hlstat
    exact ⟨hunlinked, hlstat⟩
  · cases h

section

variable (hfault : Honest env.fault) (hground : Grounded files.view) (hroot : Unlinked files.view root)

include hfault hground hroot

/-- Behind the walk every folder on the way is there, or nothing is; what is missing is on the way. -/
theorem walkParents_ok {p : String} {seen rest : List String} {dirs : List (List String)} {w w' : World}
    (hw : w.files = files) (hseen : Way files root seen) (h : walkParents env p root seen rest w = (.ok dirs, w')) :
    Way files root (seen ++ rest) ∧ ∀ d ∈ dirs, d ≠ [] ∧ d <+: seen ++ rest := by
  induction rest generalizing seen w with
  | nil =>
      cases h
      rw [List.append_nil]
      exact ⟨hseen, fun d hd => absurd hd List.not_mem_nil⟩
  | cons part rest ih =>
      have happend : seen ++ part :: rest = seen ++ [part] ++ rest := by simp
      obtain ⟨found, t, hfound, h⟩ := Prog.bind_ok h
      have hstill : Still w t := Looks.run (Prog.Moves.attempt (lstat_looks env _)) hfound
      have hparent : Unlinked w.files.view (root ++ seen ++ [part]).dropLast := by
        rw [List.dropLast_concat, hw]
        exact hseen.unlinked hroot
      have hlstat := Prog.attempt_ok hfound
      split at h
      · cases h
      · have hfolder := lstat_found env (hw ▸ hground) hparent hlstat
        rw [hw, List.append_assoc] at hfolder
        have hnext : Way files root (seen ++ [part]) := by
          intro q hq
          rcases List.prefix_concat_iff.mp hq with rfl | hq
          · exact .inl hfolder
          · exact hseen q hq
        rw [happend]
        exact ih (hstill.files.trans hw) hnext h
      · cases h
      · cases h
        have hnothing := lstat_nothing env hfault (hw ▸ hground) hparent hlstat
        rw [hw] at hnothing
        constructor
        · intro q hq
          rcases List.prefix_or_prefix_of_prefix hq (List.prefix_append seen _) with hqs | hsq
          · exact hseen q hqs
          · obtain ⟨more, rfl⟩ := hsq
            cases more with
            | nil => exact hseen _ (by simp)
            | cons n more =>
                have hn := (List.prefix_append_right_inj seen).mp hq
                obtain ⟨rfl, -⟩ := List.cons_prefix_cons.mp hn
                right
                have := Files.nothing_under hground hnothing more
                simpa using this
        · intro d hd
          obtain ⟨more, hmore, rfl⟩ := List.mem_map.mp hd
          rw [happend]
          exact ⟨by simp, (List.prefix_append_right_inj _).mpr ((List.mem_inits _ _).mp hmore)⟩
      · cases h

end

/-- `p` names a path below the folder. -/
def Names (root : List String) (given p : String) (rel : List String) : Prop :=
  ∃ comps, belowRoot root given p = .ok comps ∧ plainParts p comps = .ok rel

/-- Where a path was found to be. -/
structure Placed (files : Files) (root : List String) (given p : String) (r : Resolved) : Prop where
  names : Names root given p r.rel
  abs : r.abs = root ++ r.rel
  nonempty : r.rel ≠ []
  way : Way files root r.rel.dropLast
  missing : ∀ d ∈ r.missingDirs, d ≠ [] ∧ d <+: r.rel.dropLast

/-- The paths a change names. -/
def Change.paths : Change → List String
  | .write path _ => [path]
  | .delete path => [path]
  | .rename source target => [source, target]

section

variable (hfault : Honest env.fault) (hground : Grounded files.view) (hroot : Unlinked files.view root)
  (hfolder : files.at? root = some .folder)

include hfault hground hroot hfolder

theorem resolvePath_ok {given p : String} {r : Resolved} {w w' : World} (hw : w.files = files)
    (h : resolvePath env root given p w = (.ok r, w')) : Placed files root given p r := by
  obtain ⟨comps, t, hcomps, h⟩ := Prog.bind_ok h
  obtain ⟨hbelow, rfl⟩ := Prog.ofExcept_ok hcomps
  obtain ⟨parts, u, hparts, h⟩ := Prog.bind_ok h
  obtain ⟨hplain, rfl⟩ := Prog.ofExcept_ok hparts
  obtain ⟨parts', v, hnonempty, h⟩ := Prog.bind_ok h
  obtain ⟨hparts', rfl⟩ := Prog.ofExcept_ok hnonempty
  obtain ⟨dirs, x, hwalk, h⟩ := Prog.bind_ok h
  cases h
  unfold nonemptyParts at hparts'
  split at hparts'
  · cases hparts'
  · rename_i hne
    cases hparts'
    have hhere : Way files root [] := by
      intro q hq
      rw [List.prefix_nil.mp hq, List.append_nil]
      exact .inl hfolder
    obtain ⟨hway, hmissing⟩ := walkParents_ok env hfault hground hroot hw hhere hwalk
    exact ⟨⟨comps, hbelow, hplain⟩, rfl, hne, by simpa using hway, by simpa using hmissing⟩

theorem planOne_ok {given : String} {old plans : List Plan} {c : Change} {w w' : World} (hw : w.files = files)
    (h : planOne env root given old c w = (.ok plans, w')) :
    ∃ new, plans = old ++ new ∧ List.Forall₂ (fun p (pl : Plan) => Placed files root given p pl.res) c.paths new := by
  cases c with
  | write path sha256 =>
      obtain ⟨r, t, hr, h⟩ := Prog.bind_ok h
      cases h
      exact ⟨_, rfl, .cons (resolvePath_ok env hfault hground hroot hfolder hw hr) .nil⟩
  | delete path =>
      obtain ⟨r, t, hr, h⟩ := Prog.bind_ok h
      cases h
      exact ⟨_, rfl, .cons (resolvePath_ok env hfault hground hroot hfolder hw hr) .nil⟩
  | rename source target =>
      obtain ⟨r, t, hr, h⟩ := Prog.bind_ok h
      obtain ⟨r', u, hr', h⟩ := Prog.bind_ok h
      cases h
      have ht : t.files = files := (Looks.run (resolvePath_looks env _ _ _) hr).files.trans hw
      exact ⟨_, rfl, .cons (resolvePath_ok env hfault hground hroot hfolder hw hr)
        (.cons (resolvePath_ok env hfault hground hroot hfolder ht hr') .nil)⟩

theorem planAll_ok {given : String} {changes : List Change} {old plans : List Plan} {w w' : World} (hw : w.files = files)
    (h : planAll env root given changes old w = (.ok plans, w')) :
    ∃ new, plans = old ++ new ∧
      List.Forall₂ (fun p (pl : Plan) => Placed files root given p pl.res) (changes.flatMap Change.paths) new := by
  induction changes generalizing old w with
  | nil =>
      cases h
      exact ⟨[], by simp, .nil⟩
  | cons c changes ih =>
      obtain ⟨mid, t, hmid, h⟩ := Prog.bind_ok h
      have ht : t.files = files := (Looks.run (planOne_looks env _ _ _ _) hmid).files.trans hw
      obtain ⟨new, rfl, hnew⟩ := planOne_ok env hfault hground hroot hfolder hw hmid
      obtain ⟨more, rfl, hmore⟩ := ih ht h
      refine ⟨new ++ more, by simp, ?_⟩
      rw [List.flatMap_cons]
      exact List.rel_append hnew hmore

end

/-! ## What is captured -/

/-- The path holds what the snapshot says. -/
def Holds (files : Files) (loc : List String) : Prior → Prop
  | .absent => files.at? loc = none
  | .file blob _ mode => ∃ bytes, files.at? loc = some (.file bytes mode) ∧ env.sha256Hex bytes = blob
  | .symlink target => files.at? loc = some (.link target true)

/-- One capture: it is true, and its content is staged under its hash. -/
structure Snapped (files : Files) (loc : List String) (got : Prior × Option Staged) : Prop where
  holds : Holds env files loc got.1
  stored : ∀ blob size mode, got.1 = .file blob size mode → ∃ s, got.2 = some s ∧ s.hex = blob
  hashed : ∀ s, got.2 = some s → env.sha256Hex s.bytes = s.hex

section

variable (hfault : Honest env.fault) (hground : Grounded files.view)

include hground

theorem stage_ok {abs rel : List String} {s : Staged} {w w' : World} (hw : w.files = files)
    (hparent : Unlinked files.view abs.dropLast) (h : stage env abs rel w = (.ok s, w')) :
    ∃ node, files.at? abs = some node ∧ s.bytes = node.bytes ∧ s.hex = env.sha256Hex node.bytes := by
  obtain ⟨_, t₁, h₁, h⟩ := Prog.bind_ok h
  obtain ⟨_, t₂, h₂, h⟩ := Prog.bind_ok h
  obtain ⟨node, t₃, h₃, h⟩ := Prog.bind_ok h
  have ht₂ : t₂.files = files :=
    ((Looks.run (call_looks env _) h₂).files.trans (Looks.run (call_looks env _) h₁).files).trans hw
  have hnode := lstat_found env (ht₂ ▸ hground) (ht₂ ▸ hparent) (Prog.mapError_ok h₃)
  rw [ht₂] at hnode
  obtain ⟨_, t₄, -, h⟩ := Prog.bind_ok h
  obtain ⟨_, t₅, -, h⟩ := Prog.bind_ok h
  split at h
  · cases h
  · cases h
    exact ⟨node, hnode, rfl, rfl⟩

include hfault

theorem capture_ok {p : Plan} {got : Prior × Option Staged} {w w' : World} (hw : w.files = files)
    (hparent : Unlinked files.view p.res.abs.dropLast) (h : capture env p w = (.ok got, w')) :
    Snapped env files p.res.abs got := by
  obtain ⟨found, t, hfound, h⟩ := Prog.bind_ok h
  have ht : t.files = files := (Looks.run (Prog.Moves.attempt (lstat_looks env _)) hfound).files.trans hw
  have hlstat := Prog.attempt_ok hfound
  split at h
  · have hnothing := lstat_nothing env hfault (hw ▸ hground) (hw ▸ hparent) hlstat
    rw [hw] at hnothing
    split at h
    · cases h
    · cases h
      exact ⟨hnothing, fun _ _ _ => nofun, fun _ => nofun⟩
  · cases h
  · rename_i target utf8
    have hlink := lstat_found env (hw ▸ hground) (hw ▸ hparent) hlstat
    rw [hw] at hlink
    unfold captureLink at h
    split at h
    · cases h
    · obtain ⟨_, u, -, h⟩ := Prog.bind_ok h
      split at h
      · rename_i hutf8
        cases h
        rw [hutf8] at hlink
        exact ⟨hlink, fun _ _ _ => nofun, fun _ => nofun⟩
      · cases h
  · cases h
  · cases h
  · rename_i bytes mode
    have hfile := lstat_found env (hw ▸ hground) (hw ▸ hparent) hlstat
    rw [hw] at hfile
    unfold captureFile at h
    split at h
    · cases h
    · obtain ⟨s, u, hs, h⟩ := Prog.bind_ok h
      cases h
      obtain ⟨node, hnode, hbytes, hhex⟩ := stage_ok env hground ht hparent hs
      rw [hfile] at hnode
      cases hnode
      refine ⟨⟨bytes, hfile, hhex.symm⟩, ?_, ?_⟩
      · rintro blob size mode' ⟨⟩
        exact ⟨s, rfl, rfl⟩
      · rintro s' ⟨⟩
        rw [hbytes, hhex]

/-- What is captured for one plan. -/
structure CapturedAs (files : Files) (staged : List Staged) (p : Plan) (e : Entry) : Prop where
  path : e.path = p.res.rel
  holds : Holds env files p.res.abs e.before
  stored : ∀ blob size mode, e.before = .file blob size mode → ∃ s ∈ staged, s.hex = blob

theorem captureAll_ok {plans : List Plan} {entries entries' : List Entry} {staged staged' : List Staged} {w w' : World}
    (hw : w.files = files) (hparents : ∀ p ∈ plans, Unlinked files.view p.res.abs.dropLast)
    (h : captureAll env plans entries staged w = (.ok (entries', staged'), w')) :
    ∃ es ss, entries' = entries ++ es ∧ staged' = staged ++ ss ∧ List.Forall₂ (CapturedAs env files ss) plans es ∧
      ∀ s ∈ ss, env.sha256Hex s.bytes = s.hex := by
  induction plans generalizing entries staged w with
  | nil =>
      cases h
      exact ⟨[], [], by simp, by simp, .nil, by simp⟩
  | cons p plans ih =>
      obtain ⟨got, t, hgot, h⟩ := Prog.bind_ok h
      have ht : t.files = files := (Looks.run (capture_looks env p) hgot).files.trans hw
      have hsnap := capture_ok env hfault hground hw (hparents p List.mem_cons_self) hgot
      obtain ⟨es, ss, hes, hss, hall, hhashed⟩ := ih ht (fun p hp => hparents p (List.mem_cons_of_mem _ hp)) h
      refine ⟨_ :: es, got.2.toList ++ ss, by rw [hes]; simp; rfl, by rw [hss]; simp, .cons ⟨rfl, hsnap.holds, ?_⟩ ?_, ?_⟩
      · intro blob size mode heq
        obtain ⟨s, hs, hhex⟩ := hsnap.stored blob size mode heq
        exact ⟨s, List.mem_append_left _ (by rw [hs]; simp), hhex⟩
      · refine hall.imp fun p e he => ⟨he.path, he.holds, ?_⟩
        intro blob size mode heq
        obtain ⟨s, hs, hhex⟩ := he.stored blob size mode heq
        exact ⟨s, List.mem_append_right _ hs, hhex⟩
      · intro s hs
        rcases List.mem_append.mp hs with hs | hs
        · exact hsnap.hashed s (Option.mem_toList.mp hs)
        · exact hhashed s hs

end

/-! ## The paths of a step -/

/-- No path of a step is listed twice; where one is below another, neither was there; and the folders the step makes are
    on the way to its paths. -/
structure Sound (entries : List Entry) (dirs : List (List String)) : Prop where
  nonempty : ∀ e ∈ entries, e.path ≠ []
  distinct : (entries.map Entry.path).Nodup
  apart : ∀ e ∈ entries, ∀ e' ∈ entries, e.path <+: e'.path → e.path ≠ e'.path →
    e.before = .absent ∧ e'.before = .absent
  dirs : ∀ d ∈ dirs, d ≠ [] ∧ ∃ e ∈ entries, d <+: e.path.dropLast

theorem prefix_dropLast {q l : List String} (h : q <+: l) (hne : q ≠ l) : q <+: l.dropLast := by
  obtain ⟨more, rfl⟩ := h
  have hmore : more ≠ [] := by
    rintro rfl
    simp at hne
  rw [List.dropLast_append_of_ne_nil hmore]
  exact List.prefix_append _ _

theorem listedTwice_none {plans : List Plan} {seen : List (List String)} (h : listedTwice plans seen = none) :
    (plans.map fun p => p.res.rel).Nodup ∧ ∀ p ∈ plans, p.res.rel ∉ seen := by
  induction plans generalizing seen with
  | nil => exact ⟨List.nodup_nil, by simp⟩
  | cons p plans ih =>
      unfold listedTwice at h
      split at h
      · cases h
      · rename_i hnew
        obtain ⟨hnodup, hseen⟩ := ih h
        refine ⟨List.nodup_cons.mpr ⟨?_, hnodup⟩, ?_⟩
        · intro hmem
          obtain ⟨p', hp', heq⟩ := List.mem_map.mp hmem
          exact hseen p' hp' (by rw [heq]; simp)
        · intro p' hp'
          rcases List.mem_cons.mp hp' with rfl | hp'
          · exact hnew
          · exact fun hmem => hseen p' hp' (List.mem_append_left _ hmem)

theorem mem_createdDirs {plans : List Plan} {d : List String} (h : d ∈ createdDirs plans) :
    ∃ p ∈ plans, d ∈ p.res.missingDirs := by
  have hfold : ∀ (l acc : List (List String)) (x : List String),
      x ∈ l.foldl (fun dirs d => if d ∈ dirs then dirs else dirs ++ [d]) acc → x ∈ acc ∨ x ∈ l := by
    intro l
    induction l with
    | nil => exact fun acc x hx => .inl hx
    | cons y l ih =>
        intro acc x hx
        rw [List.foldl_cons] at hx
        rcases ih _ x hx with hx | hx
        · split at hx
          · exact .inl hx
          · rcases List.mem_append.mp hx with hx | hx
            · exact .inl hx
            · exact .inr (by rw [List.mem_singleton.mp hx]; simp)
        · exact .inr (List.mem_cons_of_mem _ hx)
  unfold createdDirs at h
  dsimp only at h
  rw [List.mem_mergeSort] at h
  rcases hfold _ _ _ h with h | h
  · exact absurd h List.not_mem_nil
  · obtain ⟨p, hp, hd⟩ := List.mem_flatMap.mp h
    exact ⟨p, (List.mem_filter.mp hp).1, hd⟩

/-- What is below a path that is not a folder is not there. -/
theorem Holds.apart (hground : Grounded files.view) {q q' : List String} {prior prior' : Prior}
    (hway : Way files root q'.dropLast) (hq : Holds env files (root ++ q) prior) (hq' : Holds env files (root ++ q') prior')
    (hpre : q <+: q') (hne : q ≠ q') : prior = .absent ∧ prior' = .absent := by
  have hbelow := hway q (prefix_dropLast hpre hne)
  have hprior : prior = .absent := by
    cases prior with
    | absent => rfl
    | file blob size mode =>
        obtain ⟨bytes, hat, -⟩ := hq
        rcases hbelow with h | h
        · rw [h] at hat
          cases hat
        · rw [h] at hat
          cases hat
    | symlink target =>
        have hat : files.at? (root ++ q) = some (.link target true) := hq
        rcases hbelow with h | h
        · rw [h] at hat
          cases hat
        · rw [h] at hat
          cases hat
  subst hprior
  have hnone : files.at? (root ++ q') = none := by
    obtain ⟨more, rfl⟩ := hpre
    rw [← List.append_assoc]
    exact Files.nothing_under hground hq more
  refine ⟨rfl, ?_⟩
  cases prior' with
  | absent => rfl
  | file blob size mode =>
      obtain ⟨bytes, hat, -⟩ := hq'
      rw [hnone] at hat
      cases hat
  | symlink target =>
      have hat : files.at? (root ++ q') = some (.link target true) := hq'
      rw [hnone] at hat
      cases hat

/-- A step as it is admitted: its entries are the paths of its changes, in their order, with what they hold. -/
structure Prepared (files : Files) (given : String) (changes : List Change) (staged : List Staged) (a : Admitted) : Prop where
  names : List.Forall₂ (fun p (e : Entry) => Names a.root given p e.path) (changes.flatMap Change.paths) a.entries
  holds : ∀ e ∈ a.entries, Holds env files (a.root ++ e.path) e.before
  sound : Sound a.entries (createdDirs a.plans)
  stored : ∀ e ∈ a.entries, ∀ blob size mode, e.before = .file blob size mode → ∃ s ∈ staged, s.hex = blob
  hashed : ∀ s ∈ staged, env.sha256Hex s.bytes = s.hex

/-- What is looked at, before room is made and the snapshots are installed. -/
theorem prepare_ok (hfault : Honest env.fault) {w w' : World} (hsettled : Settled env w.files) {given : String}
    {changes : List Change} {a : Admitted} (h : prepare env given changes w = (.ok a, w')) :
    ∃ staged needed u v, Still w u ∧ pruneToFit env needed u = (.ok (), v) ∧ installAll env staged v = (.ok (), w') ∧
      Prepared env w.files given changes staged a := by
  obtain ⟨root, t₁, hroot, h⟩ := Prog.bind_ok h
  obtain ⟨plans, t₂, hplans, h⟩ := Prog.bind_ok h
  obtain ⟨_, _, htwice, h⟩ := Prog.bind_ok h
  obtain ⟨hnone, rfl⟩ := Prog.ofExcept_ok htwice
  obtain ⟨_, _, hg, h⟩ := Prog.bind_ok h
  obtain ⟨rfl, rfl⟩ := Prog.read_ok hg
  obtain ⟨_, _, hbusy, h⟩ := Prog.bind_ok h
  obtain ⟨-, rfl⟩ := Prog.ofExcept_ok hbusy
  obtain ⟨⟨entries, staged⟩, t₃, hcaptured, h⟩ := Prog.bind_ok h
  obtain ⟨_, _, hg, h⟩ := Prog.bind_ok h
  obtain ⟨rfl, rfl⟩ := Prog.read_ok hg
  obtain ⟨_, _, hlarge, h⟩ := Prog.bind_ok h
  obtain ⟨-, rfl⟩ := Prog.ofExcept_ok hlarge
  obtain ⟨_, v, hprune, h⟩ := Prog.bind_ok h
  obtain ⟨_, x, hinstall, h⟩ := Prog.bind_ok h
  cases h
  have h₁ : Still w t₁ := Looks.run (canonicalRoot_looks env _ _ _) hroot
  have h₂ : Still t₁ t₂ := Looks.run (planAll_looks env _ _ _ _) hplans
  have h₃ : Still t₂ t₃ := Looks.run (captureAll_looks env _ _ _) hcaptured
  obtain ⟨hunlinked, hfolder⟩ := canonicalRoot_ok env hsettled.ground (.inr hsettled.cwd) hroot
  obtain ⟨new, hnew, hplaced⟩ := planAll_ok env hfault hsettled.ground hunlinked hfolder h₁.files hplans
  rw [List.nil_append] at hnew
  subst hnew
  have hplaced' : ∀ p ∈ plans, ∃ q, Placed w.files root given q p.res := by
    intro p hp
    obtain ⟨q, -, hq⟩ := Related.right hplaced hp
    exact ⟨q, hq⟩
  have hparents : ∀ p ∈ plans, Unlinked w.files.view p.res.abs.dropLast := by
    intro p hp
    obtain ⟨q, hq⟩ := hplaced' p hp
    rw [hq.abs, List.dropLast_append_of_ne_nil hq.nonempty]
    exact hq.way.unlinked hunlinked
  obtain ⟨es, ss, hes, hss, hall, hhashed⟩ := captureAll_ok env hfault hsettled.ground (h₂.files.trans h₁.files) hparents hcaptured
  rw [List.nil_append] at hes hss
  subst hes hss
  -- each entry is the path of its plan
  have hentry : ∀ e ∈ entries, ∃ p ∈ plans, ∃ q, CapturedAs env w.files staged p e ∧ Placed w.files root given q p.res := by
    intro e he
    obtain ⟨p, hp, hpe⟩ := Related.right hall he
    obtain ⟨q, hq⟩ := hplaced' p hp
    exact ⟨p, hp, q, hpe, hq⟩
  have hholds : ∀ e ∈ entries, Holds env w.files (root ++ e.path) e.before := by
    intro e he
    obtain ⟨p, -, q, hpe, hq⟩ := hentry e he
    have := hpe.holds
    rwa [hq.abs, ← hpe.path] at this
  refine ⟨staged, _, t₃, v, h₁.trans _ _ _ (h₂.trans _ _ _ h₃), hprune, hinstall, ?_, hholds, ⟨?_, ?_, ?_, ?_⟩, ?_, hhashed⟩
  · refine Related.trans (fun q p e hq hpe => ?_) hplaced hall
    show Names root given q e.path
    rw [hpe.path]
    exact hq.names
  · intro e he
    obtain ⟨p, -, q, hpe, hq⟩ := hentry e he
    rw [hpe.path]
    exact hq.nonempty
  · have hpaths : entries.map Entry.path = plans.map fun p => p.res.rel := Related.map_eq (fun p e hpe => hpe.path) hall
    rw [hpaths]
    unfold refuseTwice at hnone
    split at hnone
    · cases hnone
    · rename_i hlisted
      exact (listedTwice_none hlisted).1
  · intro e he e' he' hpre hne
    obtain ⟨p', -, q', hpe', hq'⟩ := hentry e' he'
    have hway : Way w.files root e'.path.dropLast := by
      rw [hpe'.path]
      exact hq'.way
    exact Holds.apart env hsettled.ground hway (hholds e he) (hholds e' he') hpre hne
  · intro d hd
    obtain ⟨p, hp, hmissing⟩ := mem_createdDirs hd
    obtain ⟨e, he, hpe⟩ := Related.left hall hp
    obtain ⟨q, hq⟩ := hplaced' p hp
    obtain ⟨hne, hpre⟩ := hq.missing d hmissing
    exact ⟨hne, e, he, by rw [hpe.path]; exact hpre⟩
  · intro e he blob size mode hbefore
    obtain ⟨p, -, q, hpe, -⟩ := hentry e he
    exact hpe.stored blob size mode hbefore

end

end AgentRuntime.Checkpoints
