import Mathlib.Data.List.Induction

/-!
# `Lib.FileTree` — file trees with symbolic links, and the kernel's walk

A location is the list of names from the root, and a `View` says what is there. A link holds a target `L`, and `route`
says what it means: from the root or from where the link is, through which components. `resolve` is the kernel's walk,
one component at a time, with a budget of links; `Visits` is every location such a walk comes by. A location is
`Unlinked` when no link lies on it; there a walk by names goes straight down (`resolveWith_names`). A view is
`Grounded` when whatever it holds is in a folder, as in a finite `Tree`.
-/

namespace FileTree

variable {N L : Type}

/-- A component of a path: to the parent, or to a name. -/
inductive Comp (N : Type) where
  | up
  | name (n : N)
deriving DecidableEq

/-- A path: from the root, or from where it is used. -/
structure Route (N : Type) where
  rooted : Bool
  comps : List (Comp N)

inductive Kind (L : Type) where
  | file
  | link (target : L)
  | folder
deriving DecidableEq

/-- What is at a location, without following links. -/
abbrev View (N L : Type) : Type := List N → Option (Kind L)

/-- Why a walk stops. -/
inductive Errno where
  | notFound
  | notDirectory
  | loop
deriving DecidableEq

/-! ## Finite trees -/

inductive Tree (N L : Type) where
  | file
  | link (target : L)
  | folder (entries : List (N × Tree N L))

namespace Tree

def kind : Tree N L → Kind L
  | .file => .file
  | .link target => .link target
  | .folder _ => .folder

variable [BEq N]

/-- What a folder holds under a name. -/
def child : Tree N L → N → Option (Tree N L)
  | .folder entries, n => entries.lookup n
  | _, _ => none

def find (t : Tree N L) (loc : List N) : Option (Tree N L) := loc.foldlM child t

def view (t : Tree N L) : View N L := fun loc => (t.find loc).map kind

end Tree

section

variable (view : View N L) (route : L → Route N)

/-! ## The kernel's walk -/

/-- The location the components lead to from `cur`; `follow` continues behind a link. -/
def resolveWith (follow : List N → List (Comp N) → Except Errno (List N)) :
    List N → List (Comp N) → Except Errno (List N)
  | cur, [] => .ok cur
  | cur, .up :: rest =>
      match view cur with
      | some .folder => resolveWith follow cur.dropLast rest
      | some _ => .error .notDirectory
      | none => .error .notFound
  | cur, .name n :: rest =>
      match view cur with
      | some .folder =>
          match view (cur ++ [n]) with
          | some (.link target) =>
              follow (if (route target).rooted then [] else cur) ((route target).comps ++ rest)
          | some _ => resolveWith follow (cur ++ [n]) rest
          | none => .error .notFound
      | some _ => .error .notDirectory
      | none => .error .notFound

/-- The kernel's walk with a budget of links. -/
def resolve : ℕ → List N → List (Comp N) → Except Errno (List N)
  | 0 => resolveWith view route fun _ _ => .error .loop
  | links + 1 => resolveWith view route (resolve links)

/-- The walk from `cur` through the components comes by a location. -/
inductive Visits : List N → List (Comp N) → List N → Prop where
  | here {cur : List N} {comps : List (Comp N)} : Visits cur comps cur
  /-- A name is met, be it a link or not. -/
  | met {cur : List N} {n : N} {rest : List (Comp N)} : Visits cur (.name n :: rest) (cur ++ [n])
  | up {cur loc : List N} {rest : List (Comp N)} (h : Visits cur.dropLast rest loc) : Visits cur (.up :: rest) loc
  | plain {cur loc : List N} {n : N} {rest : List (Comp N)}
      (hplain : ∀ target, view (cur ++ [n]) ≠ some (.link target)) (h : Visits (cur ++ [n]) rest loc) :
      Visits cur (.name n :: rest) loc
  | follow {cur loc : List N} {n : N} {rest : List (Comp N)} {target : L}
      (hlink : view (cur ++ [n]) = some (.link target))
      (h : Visits (if (route target).rooted then [] else cur) ((route target).comps ++ rest) loc) :
      Visits cur (.name n :: rest) loc

/-! ## Locations without links -/

/-- No link lies on the location, nor at it. -/
def Unlinked (loc : List N) : Prop := ∀ p target, p <+: loc → view p ≠ some (.link target)

variable {view route}

theorem Unlinked.of_prefix {loc p : List N} (h : Unlinked view loc) (hp : p <+: loc) : Unlinked view p :=
  fun q target hq => h q target (hq.trans hp)

theorem Unlinked.concat {loc : List N} (h : Unlinked view loc) {n : N}
    (hn : ∀ target, view (loc ++ [n]) ≠ some (.link target)) : Unlinked view (loc ++ [n]) := by
  intro p target hp
  rcases List.prefix_concat_iff.mp hp with rfl | hp
  · exact hn target
  · exact h p target hp

/-- Whatever is below a location is in a folder. -/
def Grounded (view : View N L) : Prop := ∀ loc n, view (loc ++ [n]) ≠ none → view loc = some .folder

theorem Grounded.nothing_below {loc : List N} (hground : Grounded view) (h : view loc ≠ some .folder)
    (below : List N) (n : N) : view (loc ++ below ++ [n]) = none := by
  induction below using List.reverseRecOn generalizing n with
  | nil =>
      by_contra hsome
      rw [List.append_nil] at hsome
      exact h (hground loc n hsome)
  | append_singleton below m ih =>
      by_contra hsome
      rw [← List.append_assoc] at hsome
      have hfolder := hground _ n hsome
      rw [ih m] at hfolder
      cases hfolder

/-- By names below a location without links, the walk goes straight down, or there is nothing there. -/
theorem resolveWith_names (hground : Grounded view) (follow : List N → List (Comp N) → Except Errno (List N))
    {cur names : List N} (h : Unlinked view (cur ++ names)) :
    resolveWith view route follow cur (names.map .name) = .ok (cur ++ names) ∨
      (∃ e, e ≠ .loop ∧ resolveWith view route follow cur (names.map .name) = .error e) ∧
        ∀ n, view (cur ++ names ++ [n]) = none := by
  induction names generalizing cur with
  | nil =>
      rw [List.append_nil]
      exact .inl rfl
  | cons n names ih =>
      have hcur : cur ++ n :: names = cur ++ [n] ++ names := by
        rw [List.append_assoc]
        rfl
      rw [List.map_cons]
      unfold resolveWith
      split
      · rename_i hfolder
        split
        · rename_i target hlink
          have hprefix : cur ++ [n] <+: cur ++ n :: names := by
            rw [hcur]
            exact List.prefix_append _ _
          exact absurd hlink (h _ target hprefix)
        · rw [hcur] at h ⊢
          exact ih h
        · rename_i habsent
          refine .inr ⟨⟨.notFound, nofun, rfl⟩, ?_⟩
          intro m
          rw [hcur]
          refine hground.nothing_below ?_ names m
          rw [habsent]
          exact nofun
      · rename_i found hother hfound
        refine .inr ⟨⟨.notDirectory, nofun, rfl⟩, hground.nothing_below ?_ (n :: names)⟩
        rw [hfound]
        intro heq
        exact hother (Option.some.inj heq)
      · rename_i hnone
        refine .inr ⟨⟨.notFound, nofun, rfl⟩, hground.nothing_below ?_ (n :: names)⟩
        rw [hnone]
        exact nofun

/-! ## One step of the kernel's walk -/

theorem resolve_up {links : ℕ} {cur d : List N} {rest : List (Comp N)}
    (h : resolve view route links cur (.up :: rest) = .ok d) :
    resolve view route links cur.dropLast rest = .ok d := by
  have hstep : ∀ follow, resolveWith view route follow cur (.up :: rest) = .ok d →
      resolveWith view route follow cur.dropLast rest = .ok d := by
    intro follow h
    unfold resolveWith at h
    split at h
    · exact h
    · cases h
    · cases h
  cases links with
  | zero => exact hstep _ h
  | succ links => exact hstep _ h

theorem resolve_name {links : ℕ} {cur d : List N} {n : N} {rest : List (Comp N)}
    (h : resolve view route links cur (.name n :: rest) = .ok d) :
    (∃ target left, view (cur ++ [n]) = some (.link target) ∧ links = left + 1 ∧
        resolve view route left (if (route target).rooted then [] else cur) ((route target).comps ++ rest) = .ok d) ∨
      (∀ target, view (cur ++ [n]) ≠ some (.link target)) ∧ resolve view route links (cur ++ [n]) rest = .ok d := by
  have hstep : ∀ follow, resolveWith view route follow cur (.name n :: rest) = .ok d →
      (∃ target, view (cur ++ [n]) = some (.link target) ∧
          follow (if (route target).rooted then [] else cur) ((route target).comps ++ rest) = .ok d) ∨
        (∀ target, view (cur ++ [n]) ≠ some (.link target)) ∧
          resolveWith view route follow (cur ++ [n]) rest = .ok d := by
    intro follow h
    unfold resolveWith at h
    split at h
    · split at h
      · rename_i target hlink
        exact .inl ⟨target, hlink, h⟩
      · rename_i found hother hfound
        refine .inr ⟨?_, h⟩
        intro target hlink
        rw [hfound] at hlink
        exact hother target (Option.some.inj hlink)
      · cases h
    · cases h
    · cases h
  cases links with
  | zero =>
      rcases hstep _ h with ⟨target, -, hfollow⟩ | hplain
      · cases hfollow
      · exact .inr hplain
  | succ links =>
      rcases hstep _ h with ⟨target, hlink, hfollow⟩ | hplain
      · exact .inl ⟨target, links, hlink, rfl, hfollow⟩
      · exact .inr hplain

/-- A walk that gets to a name comes by the folder the name is in. -/
theorem resolve_concat {n : N} {links : ℕ} {cur d : List N} {comps : List (Comp N)}
    (h : resolve view route links cur (comps ++ [.name n]) = .ok d) :
    ∃ dir, resolve view route links cur comps = .ok dir ∧ view (dir ++ [n]) ≠ none := by
  have hstep : ∀ (follow : List N → List (Comp N) → Except Errno (List N)),
      (∀ cur comps d, follow cur (comps ++ [.name n]) = .ok d →
        ∃ dir, follow cur comps = .ok dir ∧ view (dir ++ [n]) ≠ none) →
      ∀ cur comps d, resolveWith view route follow cur (comps ++ [.name n]) = .ok d →
        ∃ dir, resolveWith view route follow cur comps = .ok dir ∧ view (dir ++ [n]) ≠ none := by
    intro follow hfollow cur comps d h
    induction comps generalizing cur with
    | nil =>
        refine ⟨cur, rfl, ?_⟩
        rw [List.nil_append, resolveWith] at h
        intro hnone
        rw [hnone] at h
        split at h
        · cases h
        · cases h
        · cases h
    | cons c rest ih =>
        cases c with
        | up =>
            rw [List.cons_append, resolveWith] at h
            rw [resolveWith]
            split at h
            · exact ih _ h
            · cases h
            · cases h
        | name m =>
            rw [List.cons_append, resolveWith] at h
            rw [resolveWith]
            split at h
            · split at h
              · rw [← List.append_assoc] at h
                exact hfollow _ _ _ h
              · exact ih _ h
              · cases h
            · cases h
            · cases h
  induction links generalizing cur comps d with
  | zero =>
      refine hstep (fun _ _ => .error .loop) ?_ cur comps d h
      intro cur comps d h
      cases h
  | succ links ih => exact hstep (resolve view route links) (fun _ _ _ h => ih h) cur comps d h

/-- What a walk leads to is not below a link. -/
theorem resolve_unlinked {links : ℕ} {cur d : List N} {comps : List (Comp N)} (hcur : Unlinked view cur)
    (h : resolve view route links cur comps = .ok d) : Unlinked view d := by
  induction links using Nat.strongRecOn generalizing cur comps with
  | _ links ih =>
    induction comps generalizing cur with
    | nil =>
        cases links with
        | zero =>
            cases h
            exact hcur
        | succ links =>
            cases h
            exact hcur
    | cons c rest ihrest =>
        cases c with
        | up => exact ihrest (hcur.of_prefix (List.dropLast_prefix cur)) (resolve_up h)
        | name n =>
            rcases resolve_name h with ⟨target, left, -, hlinks, hfollow⟩ | ⟨hplain, hrest⟩
            · refine ih left (by omega) ?_ hfollow
              split
              · exact hcur.of_prefix List.nil_prefix
              · exact hcur
            · exact ihrest (hcur.concat hplain) hrest

/-- By names, the walk gets to whatever is at a location without links. -/
theorem resolve_present (hground : Grounded view) {links : ℕ} {cur names : List N}
    (h : Unlinked view (cur ++ names)) (hsome : view (cur ++ names) ≠ none) :
    resolve view route links cur (names.map .name) = .ok (cur ++ names) := by
  have hstep : ∀ follow, resolveWith view route follow cur (names.map .name) = .ok (cur ++ names) := by
    intro follow
    induction names generalizing cur with
    | nil =>
        rw [List.append_nil]
        rfl
    | cons n names ih =>
        have hcur : cur ++ n :: names = cur ++ [n] ++ names := by
          rw [List.append_assoc]
          rfl
        have hfolder : view cur = some .folder := by
          by_contra hother
          obtain ⟨below, last, hbelow⟩ : ∃ below last, n :: names = below ++ [last] :=
            ⟨_, _, (List.dropLast_concat_getLast (List.cons_ne_nil n names)).symm⟩
          rw [hbelow, ← List.append_assoc] at hsome
          exact hsome (hground.nothing_below hother below last)
        have hthere : view (cur ++ [n]) ≠ none := by
          intro hnone
          rw [hcur] at hsome
          rcases List.eq_nil_or_concat names with rfl | ⟨below, last, rfl⟩
          · rw [List.append_nil] at hsome
            exact hsome hnone
          · rw [List.concat_eq_append, ← List.append_assoc] at hsome
            refine hsome (hground.nothing_below ?_ below last)
            rw [hnone]
            exact nofun
        rw [List.map_cons]
        unfold resolveWith
        rw [hfolder]
        simp only
        cases hkind : view (cur ++ [n]) with
        | none => exact absurd hkind hthere
        | some kind =>
            cases kind with
            | link target =>
                refine absurd hkind (h (cur ++ [n]) target ?_)
                rw [hcur]
                exact List.prefix_append _ _
            | file =>
                rw [hcur] at h hsome ⊢
                exact ih h hsome
            | folder =>
                rw [hcur] at h hsome ⊢
                exact ih h hsome
  cases links with
  | zero => exact hstep _
  | succ links => exact hstep _

end

/-! ## A finite tree is grounded -/

namespace Tree

variable [BEq N]

theorem find_concat (t : Tree N L) (loc : List N) (n : N) :
    t.find (loc ++ [n]) = (t.find loc).bind fun s => s.child n := by
  unfold find
  rw [List.foldlM_append]
  cases List.foldlM child t loc with
  | none => rfl
  | some s =>
      simp only [List.foldlM_cons, List.foldlM_nil]
      exact bind_pure (s.child n)

theorem view_grounded (t : Tree N L) : Grounded t.view := by
  intro loc n hsome
  unfold view at hsome ⊢
  rw [find_concat] at hsome
  cases hfind : t.find loc with
  | none =>
      rw [hfind] at hsome
      exact absurd rfl hsome
  | some s =>
      rw [hfind] at hsome
      cases s with
      | file => exact absurd rfl hsome
      | link target => exact absurd rfl hsome
      | folder entries => rfl

/-- Every name in the tree, and every target of a link, is as it is asked to be. -/
inductive All (P : N → Prop) (Q : L → Prop) : Tree N L → Prop where
  | file : All P Q .file
  | link {target : L} (h : Q target) : All P Q (.link target)
  | folder {entries : List (N × Tree N L)} (hname : ∀ e ∈ entries, P e.1) (hbelow : ∀ e ∈ entries, All P Q e.2) :
      All P Q (.folder entries)

section

variable [LawfulBEq N] {P : N → Prop} {Q : L → Prop} {t s : Tree N L}

theorem All.child {n : N} (h : All P Q t) (hs : t.child n = some s) : P n ∧ All P Q s := by
  cases h with
  | file => cases hs
  | link h => cases hs
  | folder hname hbelow =>
      obtain ⟨before, after, heq, -⟩ := List.lookup_eq_some_iff.mp hs
      have hmem : (n, s) ∈ before ++ (n, s) :: after := List.mem_append_right _ List.mem_cons_self
      rw [← heq] at hmem
      exact ⟨hname _ hmem, hbelow _ hmem⟩

theorem All.find {loc : List N} (h : All P Q t) (hs : t.find loc = some s) : All P Q s := by
  induction loc using List.reverseRecOn generalizing s with
  | nil =>
      cases hs
      exact h
  | append_singleton loc n ih =>
      rw [find_concat] at hs
      obtain ⟨parent, hparent, hchild⟩ := Option.bind_eq_some_iff.mp hs
      exact ((ih hparent).child hchild).2

theorem All.name (h : All P Q t) {loc : List N} {n : N} (hsome : t.view (loc ++ [n]) ≠ none) : P n := by
  unfold Tree.view at hsome
  cases hfind : t.find (loc ++ [n]) with
  | none =>
      rw [hfind] at hsome
      exact absurd rfl hsome
  | some s =>
      rw [find_concat] at hfind
      obtain ⟨parent, hparent, hchild⟩ := Option.bind_eq_some_iff.mp hfind
      exact ((h.find hparent).child hchild).1

theorem All.target (h : All P Q t) {loc : List N} {target : L} (hlink : t.view loc = some (.link target)) : Q target := by
  unfold Tree.view at hlink
  obtain ⟨s, hs, hkind⟩ := Option.map_eq_some_iff.mp hlink
  cases h.find hs with
  | file => cases hkind
  | link hq =>
      cases hkind
      exact hq
  | folder hname hbelow => cases hkind

end

end Tree

end FileTree
