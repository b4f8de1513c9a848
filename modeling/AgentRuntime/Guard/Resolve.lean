import AgentRuntime.Guard.Walk

/-!
# `Guard.Resolve` — the guard's walk is the kernel's

The guard walks a joined target from its start; the kernel walks on from the folder of the link. `Follows` is the
guard's walk with the joined part taken off: the target's components come before the rest, as they do for the kernel.
The two agree because the guard is always at a `Clear` location, one with no link on the way whose every part passed
the check; walking it again leads straight back (`walkFrom_clear`).
-/

namespace AgentRuntime.Guard

open FileTree

/-! ## What the guard knows of where it is -/

section

variable (fs : FileSystem) (check : Location → Except Denied Unit)

/-- Looked at, and no link. -/
def NoLink (loc : List String) : Prop :=
  fs.symlinkMetadata ⟨true, loc⟩ = .absent ∨ fs.symlinkMetadata ⟨true, loc⟩ = .present

/-- Every part of the location passed the check and is no link, and its names can be written in a path. -/
structure Clear (loc : List String) : Prop where
  checked : ∀ p, p <+: loc → check ⟨true, p⟩ = .ok ()
  noLink : ∀ p n, p ++ [n] <+: loc → NoLink fs (p ++ [n])
  names : ∀ n ∈ loc, NormalName n ∧ PlainText n

/-- The guard's walk over components, a link's target put before the rest. -/
inductive Follows : ℕ → List String → List (Comp String) → List String → ℕ → Prop where
  | done {links : ℕ} {cur : List String} : Follows links cur [] cur links
  | up {links left : ℕ} {cur d : List String} {rest : List (Comp String)}
      (hcheck : check ⟨true, cur.dropLast⟩ = .ok ()) (h : Follows links cur.dropLast rest d left) :
      Follows links cur (.up :: rest) d left
  | plain {links left : ℕ} {cur d : List String} {n : String} {rest : List (Comp String)}
      (hcheck : check ⟨true, cur ++ [n]⟩ = .ok ()) (hplain : NoLink fs (cur ++ [n]))
      (h : Follows links (cur ++ [n]) rest d left) : Follows links cur (.name n :: rest) d left
  | link {links left : ℕ} {cur d : List String} {n target : String} {rest : List (Comp String)}
      (hcheck : check ⟨true, cur ++ [n]⟩ = .ok ())
      (hlink : fs.symlinkMetadata ⟨true, cur ++ [n]⟩ = .symlink target)
      (h : Follows links (if hasRoot target then [] else cur) (components target ++ rest) d left) :
      Follows (links + 1) cur (.name n :: rest) d left

end

variable {fs : FileSystem} {check : Location → Except Denied Unit}

theorem Clear.nil (hroot : check ⟨true, []⟩ = .ok ()) : Clear fs check [] where
  checked p hp := by
    rw [List.prefix_nil.mp hp]
    exact hroot
  noLink p n hp := absurd (List.prefix_nil.mp hp) (List.concat_ne_nil n p)
  names n hn := absurd hn List.not_mem_nil

theorem Clear.of_prefix {loc p : List String} (h : Clear fs check loc) (hp : p <+: loc) : Clear fs check p where
  checked q hq := h.checked q (hq.trans hp)
  noLink q n hq := h.noLink q n (hq.trans hp)
  names n hn := h.names n (hp.subset hn)

theorem Clear.concat {loc : List String} (h : Clear fs check loc) {n : String}
    (hcheck : check ⟨true, loc ++ [n]⟩ = .ok ()) (hplain : NoLink fs (loc ++ [n]))
    (hname : NormalName n ∧ PlainText n) : Clear fs check (loc ++ [n]) where
  checked p hp := by
    rcases List.prefix_concat_iff.mp hp with rfl | hp
    · exact hcheck
    · exact h.checked p hp
  noLink p m hp := by
    rcases List.prefix_concat_iff.mp hp with heq | hp
    · rw [heq]
      exact hplain
    · exact h.noLink p m hp
  names m hm := by
    rcases List.mem_append.mp hm with hm | hm
    · exact h.names m hm
    · rw [List.mem_singleton.mp hm]
      exact hname

namespace Follows

/-- A clear start of the components leads straight down. -/
theorem strip {links left : ℕ} {cur names d : List String} {rest : List (Comp String)}
    (h : Follows fs check links cur (names.map .name ++ rest) d left) (hclear : Clear fs check (cur ++ names)) :
    Follows fs check links (cur ++ names) rest d left := by
  induction names generalizing cur with
  | nil =>
      rw [List.append_nil]
      exact h
  | cons n names ih =>
      have hcur : cur ++ n :: names = cur ++ [n] ++ names := by
        rw [List.append_assoc]
        rfl
      rw [hcur] at hclear ⊢
      cases h with
      | plain hcheck hplain h => exact ih h hclear
      | link hcheck hlink h =>
          rcases hclear.noLink cur n (List.prefix_append _ _) with habsent | hpresent
          · rw [habsent] at hlink
            cases hlink
          · rw [hpresent] at hlink
            cases hlink

theorem append {links mid left : ℕ} {cur d d' : List String} {xs ys : List (Comp String)}
    (h : Follows fs check links cur xs d mid) (h' : Follows fs check mid d ys d' left) :
    Follows fs check links cur (xs ++ ys) d' left := by
  induction h with
  | done => exact h'
  | up hcheck _ ih => exact .up hcheck (ih h')
  | plain hcheck hplain _ ih => exact .plain hcheck hplain (ih h')
  | link hcheck hlink _ ih =>
      refine .link hcheck hlink ?_
      rw [List.append_assoc] at ih
      exact ih h'

end Follows

/-! ## The guard's walk -/

/-- The text of a path gives its names plain characters. -/
theorem names_of_plainText {p : String} (h : PlainText p) :
    ∀ n, .name n ∈ components p → NormalName n ∧ PlainText n := by
  intro n hn
  obtain ⟨hnormal, hchars⟩ := name_mem_components hn
  exact ⟨hnormal, fun hc => h.1 (hchars _ hc), fun hc => h.2 (hchars _ hc)⟩

/-- What a link in a clear folder is walked through: its target, below the folder unless it has a root. -/
theorem components_joined {cur : List String} (hclear : Clear fs check cur) (target : String) :
    hasRoot (join (Location.text ⟨true, cur⟩) target) = true ∧
      components (join (Location.text ⟨true, cur⟩) target) =
        (if hasRoot target then [] else cur).map .name ++ components target := by
  refine ⟨hasRoot_join (hasRoot_text rfl) target, ?_⟩
  cases htarget : hasRoot target with
  | true =>
      unfold join
      rw [htarget, if_pos rfl]
      rfl
  | false =>
      rw [components_join _ htarget, components_text rfl fun n hn => (hclear.names n hn).1]
      rfl

/-- **The walk.** From a clear location it leads to a clear location, as `Follows` does. -/
theorem walkFrom_follows (htargets : ∀ l target, fs.symlinkMetadata l = .symlink target → PlainText target)
    (hroot : check ⟨true, []⟩ = .ok ()) {path : String} {links : ℕ} {cur : List String}
    {comps : List (Comp String)} {r : {r : Location × ℕ // r.2 ≤ links}}
    (h : walkFrom fs check path links ⟨true, cur⟩ comps = .ok r) (hclear : Clear fs check cur)
    (hnames : ∀ n, .name n ∈ comps → NormalName n ∧ PlainText n) :
    r.1.1.rooted = true ∧ Clear fs check r.1.1.names ∧ Follows fs check links cur comps r.1.1.names r.1.2 := by
  induction links using Nat.strong_induction_on generalizing path cur comps with
  | _ links ihLinks =>
      induction comps generalizing cur with
      | nil =>
          rw [walkFrom] at h
          cases h
          exact ⟨rfl, hclear, .done⟩
      | cons c rest ihRest =>
          have hrest : ∀ n, .name n ∈ rest → NormalName n ∧ PlainText n :=
            fun n hn => hnames n (List.mem_cons_of_mem _ hn)
          cases c with
          | up =>
              rw [walkFrom] at h
              split at h
              · cases h
              · rename_i hcheck
                obtain ⟨hrooted, hclear', hfollows⟩ :=
                  ihRest h (hclear.of_prefix (List.dropLast_prefix cur)) hrest
                exact ⟨hrooted, hclear', .up hcheck hfollows⟩
          | name n =>
              have hname := hnames n (List.mem_cons_self ..)
              rw [walkFrom] at h
              split at h
              · cases h
              · rename_i hcheck
                -- Where the name is no link, the walk goes into it.
                have hplain : NoLink fs (cur ++ [n]) →
                    walkFrom fs check path links ⟨true, cur ++ [n]⟩ rest = .ok r →
                    r.1.1.rooted = true ∧ Clear fs check r.1.1.names ∧
                      Follows fs check links cur (.name n :: rest) r.1.1.names r.1.2 := by
                  intro hnolink h
                  obtain ⟨hrooted, hclear', hfollows⟩ := ihRest h (hclear.concat hcheck hnolink hname) hrest
                  exact ⟨hrooted, hclear', .plain hcheck hnolink hfollows⟩
                split at h
                · cases h
                · rename_i habsent
                  split at h
                  · cases h
                  · exact hplain (.inl habsent) h
                · rename_i hpresent
                  split at h
                  · cases h
                  · exact hplain (.inr hpresent) h
                · rename_i target hlink
                  cases links with
                  | zero => cases h
                  | succ links =>
                      obtain ⟨hjoinedRoot, hjoined⟩ := components_joined hclear target
                      simp only [hjoinedRoot, if_true, hroot] at h
                      have hnested : ∀ n, .name n ∈ components (join (Location.text ⟨true, cur⟩) target) →
                          NormalName n ∧ PlainText n := by
                        intro n hn
                        rw [hjoined] at hn
                        rcases List.mem_append.mp hn with hn | hn
                        · obtain ⟨m, hm, heq⟩ := List.mem_map.mp hn
                          cases heq
                          split at hm
                          · cases hm
                          · exact hclear.names _ hm
                        · exact names_of_plainText (htargets _ _ hlink) n hn
                      split at h
                      · cases h
                      · rename_i reached left hleft hwalk
                        split at h
                        · cases h
                        · split at h
                          · cases h
                          · rename_i r' hr' hrestWalk
                            cases h
                            obtain ⟨hrooted, hclearReached, hfollows⟩ :=
                              ihLinks links (Nat.lt_succ_self _) hwalk (.nil hroot) hnested
                            obtain ⟨rooted, names⟩ := reached
                            cases hrooted
                            obtain ⟨hrooted', hclear', hfollowsRest⟩ :=
                              ihLinks left (Nat.lt_succ_of_le hleft) hrestWalk hclearReached hrest
                            rw [hjoined] at hfollows
                            have hbase : Clear fs check (if hasRoot target then [] else cur) := by
                              split
                              · exact .nil hroot
                              · exact hclear
                            exact ⟨hrooted', hclear', .link hcheck hlink ((hfollows.strip hbase).append hfollowsRest)⟩

/-- **Walking it again.** Down a clear location the walk goes straight, whatever its budget. -/
theorem walkFrom_clear (path : String) (links : ℕ) {cur names : List String}
    (h : Clear fs check (cur ++ names)) :
    walkFrom fs check path links ⟨true, cur⟩ (names.map .name) = .ok ⟨(⟨true, cur ++ names⟩, links), le_rfl⟩ := by
  induction names generalizing cur with
  | nil =>
      rw [List.map_nil, walkFrom]
      simp only [List.append_nil]
  | cons n names ih =>
      have hcur : cur ++ n :: names = cur ++ [n] ++ names := by
        rw [List.append_assoc]
        rfl
      rw [hcur] at h
      have hcheck : check (Location.push ⟨true, cur⟩ n) = .ok () := h.checked (cur ++ [n]) (List.prefix_append _ _)
      have hwalk := ih h
      rw [List.map_cons, walkFrom]
      simp only [hcheck]
      rcases h.noLink cur n (List.prefix_append _ _) with habsent | hpresent
      · have hmeta : fs.symlinkMetadata (Location.push ⟨true, cur⟩ n) = .absent := habsent
        simp only [hmeta]
        rw [hcur]
        exact hwalk
      · have hmeta : fs.symlinkMetadata (Location.push ⟨true, cur⟩ n) = .present := hpresent
        simp only [hmeta]
        rw [hcur]
        exact hwalk

/-! ## The kernel's walk -/

/-- Below a location without links, looking at a name is looking at what the tree holds. -/
theorem symlinkMetadata_of_unlinked {cur : List String} (h : Unlinked fs.view cur) (n : String) :
    (∃ e, fs.symlinkMetadata ⟨true, cur ++ [n]⟩ = .failed e) ∨
      fs.symlinkMetadata ⟨true, cur ++ [n]⟩ = .ofKind (fs.view (cur ++ [n])) := by
  unfold FileSystem.symlinkMetadata
  split
  · rename_i e _
    exact .inl ⟨e, rfl⟩
  · right
    simp only [if_true, List.dropLast_concat, List.getLast?_concat, Option.toList_some]
    have hwalk : resolve fs.view route maxSymlinks [] (cur.map .name) = .ok cur ∨
        (∃ e, e ≠ .loop ∧ resolve fs.view route maxSymlinks [] (cur.map .name) = .error e) ∧
          ∀ m, fs.view (cur ++ [m]) = none :=
      resolveWith_names (Tree.view_grounded _) _ h
    rcases hwalk with hok | ⟨⟨e, hloop, herror⟩, hnothing⟩
    · rw [hok]
    · rw [herror, hnothing n]
      cases e with
      | notFound => rfl
      | notDirectory => rfl
      | loop => exact absurd rfl hloop

theorem noLink_find {cur : List String} (h : Unlinked fs.view cur) {n : String} (hplain : NoLink fs (cur ++ [n])) :
    ∀ target, fs.view (cur ++ [n]) ≠ some (.link target) := by
  intro target hlink
  rcases symlinkMetadata_of_unlinked h n with ⟨e, hfailed⟩ | hmeta
  · rcases hplain with hplain | hplain
    · rw [hfailed] at hplain
      cases hplain
    · rw [hfailed] at hplain
      cases hplain
  · rw [hlink] at hmeta
    rcases hplain with hplain | hplain
    · rw [hmeta] at hplain
      cases hplain
    · rw [hmeta] at hplain
      cases hplain

theorem symlink_find {cur : List String} (h : Unlinked fs.view cur) {n target : String}
    (hlink : fs.symlinkMetadata ⟨true, cur ++ [n]⟩ = .symlink target) :
    fs.view (cur ++ [n]) = some (.link target) := by
  rcases symlinkMetadata_of_unlinked h n with ⟨e, hfailed⟩ | hmeta
  · rw [hfailed] at hlink
    cases hlink
  · rw [hmeta] at hlink
    exact Metadata.ofKind_symlink hlink

theorem unlinked_nil (fs : FileSystem) : Unlinked fs.view [] := by
  intro p target hp hlink
  rw [List.prefix_nil.mp hp] at hlink
  cases hlink

/-- A clear location has no link on it. -/
theorem Clear.unlinked {loc : List String} (h : Clear fs check loc) : Unlinked fs.view loc := by
  induction loc using List.reverseRecOn with
  | nil => exact unlinked_nil fs
  | append_singleton loc n ih =>
      have hloc := ih (h.of_prefix (List.prefix_append _ _))
      exact hloc.concat (noLink_find hloc (h.noLink loc n (List.prefix_refl _)))

namespace Follows

theorem base_unlinked {cur : List String} (h : Unlinked fs.view cur) (target : String) :
    Unlinked fs.view (if hasRoot target then [] else cur) := by
  split
  · exact unlinked_nil fs
  · exact h

/-- **The kernel agrees.** Wherever the kernel's walk leads, with any budget, the guard's led there. -/
theorem eq_resolve {links left : ℕ} {cur d : List String} {comps : List (Comp String)}
    (h : Follows fs check links cur comps d left) (hcur : Unlinked fs.view cur) {budget : ℕ} {d' : List String}
    (hkernel : resolve fs.view route budget cur comps = .ok d') : d' = d := by
  induction h generalizing budget with
  | done =>
      cases budget <;>
      · cases hkernel
        rfl
  | up hcheck _ ih => exact ih (hcur.of_prefix (List.dropLast_prefix _)) (resolve_up hkernel)
  | plain hcheck hplain _ ih =>
      have hfind := noLink_find hcur hplain
      rcases resolve_name hkernel with ⟨target, left, hlink, -⟩ | ⟨-, hkernel⟩
      · exact absurd hlink (hfind target)
      · exact ih (hcur.concat hfind) hkernel
  | link hcheck hlink _ ih =>
      have hfind := symlink_find hcur hlink
      rcases resolve_name hkernel with ⟨target, left, hlink', -, hkernel⟩ | ⟨hplain, -⟩
      · rw [hfind] at hlink'
        cases hlink'
        exact ih (base_unlinked hcur _) hkernel
      · exact absurd hfind (hplain _)

/-- **Every location on the way is checked.** -/
theorem checked {links left : ℕ} {cur d : List String} {comps : List (Comp String)}
    (h : Follows fs check links cur comps d left) (hroot : check ⟨true, []⟩ = .ok ()) (hcur : Unlinked fs.view cur)
    (hchecked : check ⟨true, cur⟩ = .ok ()) :
    check ⟨true, d⟩ = .ok () ∧
      ∀ loc, Visits fs.view route cur comps loc → check ⟨true, loc⟩ = .ok () := by
  induction h with
  | done =>
      refine ⟨hchecked, ?_⟩
      intro loc hvisits
      cases hvisits
      exact hchecked
  | up hcheck _ ih =>
      obtain ⟨hd, hrest⟩ := ih (hcur.of_prefix (List.dropLast_prefix _)) hcheck
      refine ⟨hd, ?_⟩
      intro loc hvisits
      cases hvisits with
      | here => exact hchecked
      | up hvisits => exact hrest loc hvisits
  | plain hcheck hplain _ ih =>
      have hfind := noLink_find hcur hplain
      obtain ⟨hd, hrest⟩ := ih (hcur.concat hfind) hcheck
      refine ⟨hd, ?_⟩
      intro loc hvisits
      cases hvisits with
      | here => exact hchecked
      | met => exact hcheck
      | plain _ hvisits => exact hrest loc hvisits
      | follow hlink _ => exact absurd hlink (hfind _)
  | link hcheck hlink _ ih =>
      rename_i cur _ _ target _ _
      have hfind := symlink_find hcur hlink
      have hbase : check ⟨true, if hasRoot target then [] else cur⟩ = .ok () := by
        split
        · exact hroot
        · exact hchecked
      obtain ⟨hd, hrest⟩ := ih (base_unlinked hcur _) hbase
      refine ⟨hd, ?_⟩
      intro loc hvisits
      cases hvisits with
      | here => exact hchecked
      | met => exact hcheck
      | plain hplain _ => exact absurd hfind (hplain _)
      | follow hlink' hvisits =>
          rw [hfind] at hlink'
          cases hlink'
          exact hrest loc hvisits

end Follows

end AgentRuntime.Guard
