import AgentRuntime.Guard.Resolve
import AgentRuntime.Lib.Acceptor

/-!
# `Guard.CheckPath` — what an allowed path is

`checkPath` hands out the location to do the I/O on. In a context whose current folder is absolute that location is
the kernel's, holds no link, passes the deny list in all its parts, and passes again. In a context whose current
folder is relative the location is relative as well.
-/

namespace AgentRuntime.Guard

open FileTree

/-- No link target holds a backslash or NUL. -/
def FileSystem.PlainTargets (fs : FileSystem) : Prop :=
  ∀ loc target, fs.view loc = some (.link target) → PlainText target

/-- The context's folders hold neither a backslash nor NUL. -/
structure GuardContext.Plain (ctx : GuardContext) : Prop where
  home : PlainText ctx.home
  cwd : PlainText ctx.cwd

theorem symlinkMetadata_plain {fs : FileSystem} (h : fs.PlainTargets) (l : Location) (target : String)
    (hlink : fs.symlinkMetadata l = .symlink target) : PlainText target := by
  unfold FileSystem.symlinkMetadata at hlink
  split at hlink
  · cases hlink
  · simp only at hlink
    split at hlink
    · cases hlink
    · cases hlink
    · exact h _ _ (Metadata.ofKind_symlink hlink)

/-! ## Interpreting -/

theorem PlainText.append {p q : String} (hp : PlainText p) (hq : PlainText q) : PlainText (p ++ q) := by
  unfold PlainText
  rw [String.toList_append, List.mem_append, List.mem_append]
  exact ⟨fun h => h.elim hp.1 hq.1, fun h => h.elim hp.2 hq.2⟩

theorem PlainText.join {p q : String} (hp : PlainText p) (hq : PlainText q) : PlainText (Guard.join p q) := by
  have hslash : PlainText "/" := by
    unfold PlainText
    decide
  unfold Guard.join
  split
  · exact hq
  · split
    · exact hp.append hq
    · exact (hp.append hslash).append hq

/-- What the guard walks is plain, and has a root when the current folder has. -/
theorem interpret_ok {input path : String} {ctx : GuardContext} (hctx : ctx.Plain)
    (h : interpret input ctx = .ok path) : PlainText path ∧ (hasRoot ctx.cwd = true → hasRoot path = true) := by
  unfold interpret at h
  split at h
  · cases h
  · split at h
    · cases h
    · rename_i hnul
      have hunified : ∀ c ∈ input.toList.map (fun c => if c = '\\' then '/' else c), c ≠ '\\' ∧ c ≠ '\x00' := by
        intro c hc
        obtain ⟨c', hc', rfl⟩ := List.mem_map.mp hc
        split
        · decide
        · rename_i hne
          refine ⟨hne, ?_⟩
          rintro rfl
          exact hnul (List.contains_iff_mem.mpr hc')
      have hplain : ∀ s : List Char, (∀ c ∈ s, c ∈ input.toList.map (fun c => if c = '\\' then '/' else c)) →
          PlainText (String.ofList s) := by
        intro s hs
        unfold PlainText
        rw [String.toList_ofList]
        exact ⟨fun hc => (hunified _ (hs _ hc)).1 rfl, fun hc => (hunified _ (hs _ hc)).2 rfl⟩
      have hexpanded : ∀ expanded, PlainText expanded →
          (if hasRoot expanded then expanded else join ctx.cwd expanded) = path →
          PlainText path ∧ (hasRoot ctx.cwd = true → hasRoot path = true) := by
        intro expanded hp heq
        subst heq
        split
        · rename_i hroot
          exact ⟨hp, fun _ => hroot⟩
        · exact ⟨hctx.cwd.join hp, fun hcwd => hasRoot_join hcwd expanded⟩
      simp only at h
      split at h
      · exact hexpanded _ hctx.home (Except.ok.inj h)
      · split at h
        · refine hexpanded _ (hctx.home.join (hplain _ ?_)) (Except.ok.inj h)
          intro c hc
          exact List.mem_of_mem_drop ((List.dropWhile_sublist _).subset hc)
        · split at h
          · cases h
          · exact hexpanded _ (hplain _ fun c hc => hc) (Except.ok.inj h)

/-- A plain text from the root is taken as it is. -/
theorem interpret_self {path : String} (hroot : hasRoot path = true) (hplain : PlainText path) (ctx : GuardContext) :
    interpret path ctx = .ok path := by
  obtain ⟨rest, hrest⟩ := List.head?_eq_some_iff.mp (eq_of_beq hroot)
  have hunified : path.toList.map (fun c => if c = '\\' then '/' else c) = path.toList := by
    rw [List.map_eq_iff]
    intro i
    cases hi : path.toList[i]? with
    | none => rfl
    | some c =>
        have hne : c ≠ '\\' := fun heq => hplain.1 (heq ▸ List.mem_of_getElem? hi)
        rw [Option.map_some, if_neg hne]
  have hnul : path.toList.contains '\x00' = false := by
    rw [Bool.eq_false_iff, ne_eq, List.contains_iff_mem]
    exact hplain.2
  have hslash : '/' ≠ '~' := by
    decide
  unfold interpret
  simp only [hunified, hnul, String.ofList_toList]
  rw [if_neg (by rw [hrest]; exact List.cons_ne_nil _ _), if_neg Bool.false_ne_true, if_neg, if_neg, if_neg]
  · show Except.ok (if hasRoot path = true then path else _) = _
    rw [if_pos hroot]
  · rw [hrest]
    intro heq
    exact hslash (Option.some.inj heq)
  · rw [hrest]
    exact Bool.false_ne_true
  · rw [hrest]
    intro heq
    exact hslash (List.cons.inj heq).1

/-! ## Checking -/

theorem checkPath_ok {u : Unicode} {fs : FileSystem} {ctx : GuardContext} {input : String} {p : Location} :
    checkPath u fs ctx input = .ok p ↔
      ∃ path, interpret input ctx = .ok path ∧
        checkLocation u (resolvedRoots fs ctx) (lexical path) = .ok () ∧
        walk fs (checkLocation u (resolvedRoots fs ctx)) path maxSymlinks = .ok p ∧
        checkLocation u (resolvedRoots fs ctx) p = .ok () := by
  unfold checkPath
  rw [Except.bind_eq_ok]
  refine exists_congr fun path => and_congr_right fun _ => ?_
  rw [Except.bind_eq_ok]
  constructor
  · rintro ⟨⟨⟩, hlexical, h⟩
    obtain ⟨resolved, hwalk, h⟩ := Except.bind_eq_ok.mp h
    obtain ⟨⟨⟩, hresolved, h⟩ := Except.bind_eq_ok.mp h
    cases h
    exact ⟨hlexical, hwalk, hresolved⟩
  · rintro ⟨hlexical, hwalk, hresolved⟩
    refine ⟨(), hlexical, ?_⟩
    rw [Except.bind_eq_ok]
    refine ⟨p, hwalk, ?_⟩
    rw [Except.bind_eq_ok]
    exact ⟨(), hresolved, rfl⟩

/-- What every step of the walk keeps holds where it leads. A link is followed by a walk of its own, which starts at
    the root or nowhere. -/
theorem walkFrom_invariant {fs : FileSystem} {check : Location → Except Denied Unit} {P : Location → Prop}
    (hpop : ∀ l, P l → P l.pop)
    (hpush : ∀ l n, P l → NormalName n →
      fs.symlinkMetadata (l.push n) = .absent ∨ fs.symlinkMetadata (l.push n) = .present → P (l.push n))
    (hjoin : ∀ l target, P l → P { rooted := hasRoot (join l.text target), names := [] }) {path : String} {links : ℕ}
    {cur : Location} {comps : List (Comp String)} {r : {r : Location × ℕ // r.2 ≤ links}}
    (h : walkFrom fs check path links cur comps = .ok r) (hcur : P cur)
    (hcomps : ∀ n, .name n ∈ comps → NormalName n) : P r.1.1 := by
  induction links using Nat.strong_induction_on generalizing path cur comps with
  | _ links ihLinks =>
      induction comps generalizing cur with
      | nil =>
          rw [walkFrom] at h
          cases h
          exact hcur
      | cons c rest ihRest =>
          have hrest : ∀ n, .name n ∈ rest → NormalName n := fun n hn => hcomps n (List.mem_cons_of_mem _ hn)
          cases c with
          | up =>
              rw [walkFrom] at h
              split at h
              · cases h
              · exact ihRest h (hpop cur hcur) hrest
          | name n =>
              have hname := hcomps n (List.mem_cons_self ..)
              rw [walkFrom] at h
              split at h
              · cases h
              · split at h
                · cases h
                · rename_i habsent
                  split at h
                  · cases h
                  · exact ihRest h (hpush cur n hcur hname (.inl habsent)) hrest
                · rename_i hpresent
                  split at h
                  · cases h
                  · exact ihRest h (hpush cur n hcur hname (.inr hpresent)) hrest
                · cases links with
                  | zero => cases h
                  | succ links =>
                      simp only at h
                      split at h
                      · cases h
                      · split at h
                        · cases h
                        · rename_i cur' left hleft hnested
                          have hcur' := ihLinks links (Nat.lt_succ_self links) hnested (hjoin cur _ hcur)
                            fun m hm => (name_mem_components hm).1
                          split at h
                          · cases h
                          · split at h
                            · cases h
                            · rename_i hr hwalk
                              cases h
                              exact ihLinks left (Nat.lt_succ_of_le hleft) hwalk hcur' hrest

/-- Every name of a location the walk leads to is a name a component can have. -/
theorem walkFrom_normal {fs : FileSystem} {check : Location → Except Denied Unit} {path : String} {links : ℕ}
    {cur : Location} {comps : List (Comp String)} {r : {r : Location × ℕ // r.2 ≤ links}}
    (h : walkFrom fs check path links cur comps = .ok r) (hcur : ∀ n ∈ cur.names, NormalName n)
    (hcomps : ∀ n, .name n ∈ comps → NormalName n) : ∀ n ∈ r.1.1.names, NormalName n := by
  refine walkFrom_invariant (P := fun l => ∀ n ∈ l.names, NormalName n) ?_ ?_ ?_ h hcur hcomps
  · exact fun l hl n hn => hl n ((List.dropLast_sublist _).subset hn)
  · intro l n hl hname _ m hm
    rcases List.mem_append.mp hm with hm | hm
    · exact hl m hm
    · rw [List.mem_singleton.mp hm]
      exact hname
  · exact fun l target _ n hn => absurd hn List.not_mem_nil

/-- From the root on, the walk leads to a location without links. -/
theorem walkFrom_unlinked {fs : FileSystem} {check : Location → Except Denied Unit} {path : String} {links : ℕ}
    {cur : Location} {comps : List (Comp String)} {r : {r : Location × ℕ // r.2 ≤ links}}
    (h : walkFrom fs check path links cur comps = .ok r) (hrooted : cur.rooted = true)
    (hcur : Unlinked fs.view cur.names) (hcomps : ∀ n, .name n ∈ comps → NormalName n) :
    Unlinked fs.view r.1.1.names := by
  refine (walkFrom_invariant (P := fun l => l.rooted = true ∧ Unlinked fs.view l.names) ?_ ?_ ?_ h ⟨hrooted, hcur⟩
    hcomps).2
  · exact fun l hl => ⟨hl.1, Unlinked.of_prefix hl.2 (List.dropLast_prefix _)⟩
  · rintro ⟨rooted, names⟩ n ⟨hl, hnames⟩ - hplain
    cases hl
    exact ⟨rfl, hnames.concat (noLink_find hnames hplain)⟩
  · exact fun l target hl => ⟨hasRoot_join (hasRoot_text hl.1) target, unlinked_nil fs⟩

/-- The check only stops the walk: where it lets it through, the walk goes as it does without a check. -/
theorem walkFrom_unchecked {fs : FileSystem} {check : Location → Except Denied Unit} {path : String} {links : ℕ}
    {cur : Location} {comps : List (Comp String)} {r : {r : Location × ℕ // r.2 ≤ links}}
    (h : walkFrom fs check path links cur comps = .ok r) :
    walkFrom fs (fun _ => .ok ()) path links cur comps = .ok r := by
  induction links using Nat.strong_induction_on generalizing path cur comps with
  | _ links ihLinks =>
      induction comps generalizing cur with
      | nil =>
          rw [walkFrom] at h ⊢
          exact h
      | cons c rest ihRest =>
          cases c with
          | up =>
              rw [walkFrom] at h ⊢
              split at h
              · cases h
              · exact ihRest h
          | name n =>
              rw [walkFrom] at h ⊢
              split at h
              · cases h
              · simp only
                split at h
                · cases h
                · split at h
                  · cases h
                  · exact ihRest h
                · split at h
                  · cases h
                  · exact ihRest h
                · cases links with
                  | zero => cases h
                  | succ links =>
                      simp only [ite_self] at h ⊢
                      split at h
                      · cases h
                      · split at h
                        · cases h
                        · rename_i cur' left hleft hnested
                          rw [ihLinks links (Nat.lt_succ_self links) hnested]
                          split at h
                          · cases h
                          · split at h
                            · cases h
                            · rename_i hr hwalk
                              simp only [ihLinks left (Nat.lt_succ_of_le hleft) hwalk]
                              exact h

theorem walk_unchecked {fs : FileSystem} {check : Location → Except Denied Unit} {path : String} {links : ℕ}
    {p : Location} (h : walk fs check path links = .ok p) : walk fs (fun _ => .ok ()) path links = .ok p := by
  unfold walk at h ⊢
  simp only at h
  split at h
  · cases h
  · simp only [ite_self]
    cases hfrom : walkFrom fs check path links { rooted := hasRoot path, names := [] } (components path) with
    | error e =>
        rw [hfrom] at h
        cases h
    | ok r =>
        rw [hfrom] at h
        rw [walkFrom_unchecked hfrom]
        exact h

/-- The project roots decide whether a request is let through, not where it leads. -/
theorem checkPath_agree {u : Unicode} {fs : FileSystem} {ctx ctx' : GuardContext} {input : String} {p p' : Location}
    (hhome : ctx.home = ctx'.home) (hcwd : ctx.cwd = ctx'.cwd) (h : checkPath u fs ctx input = .ok p)
    (h' : checkPath u fs ctx' input = .ok p') : p = p' := by
  obtain ⟨path, hpath, -, hwalk, -⟩ := checkPath_ok.mp h
  obtain ⟨path', hpath', -, hwalk', -⟩ := checkPath_ok.mp h'
  have hsame : interpret input ctx = interpret input ctx' := by
    unfold interpret
    rw [hhome, hcwd]
  rw [hsame, hpath'] at hpath
  cases hpath
  have heq := walk_unchecked hwalk
  rw [walk_unchecked hwalk'] at heq
  exact (Except.ok.inj heq).symm

theorem checkPath_normal {u : Unicode} {fs : FileSystem} {ctx : GuardContext} {input : String} {p : Location}
    (h : checkPath u fs ctx input = .ok p) : ∀ n ∈ p.names, NormalName n := by
  obtain ⟨path, -, -, hwalk, -⟩ := checkPath_ok.mp h
  unfold walk at hwalk
  simp only at hwalk
  split at hwalk
  · cases hwalk
  · cases hfrom : walkFrom fs (checkLocation u (resolvedRoots fs ctx)) path maxSymlinks
        { rooted := hasRoot path, names := [] } (components path) with
    | error e =>
        rw [hfrom] at hwalk
        cases hwalk
    | ok r =>
        rw [hfrom] at hwalk
        cases hwalk
        exact walkFrom_normal hfrom (fun m hm => absurd hm List.not_mem_nil) fun m hm => (name_mem_components hm).1

/-- What the walk says of a path with a root: the root passed, and the components were walked from it. -/
theorem walk_ok {fs : FileSystem} {check : Location → Except Denied Unit} {path : String} {links : ℕ} {p : Location}
    (hroot : hasRoot path = true) (h : walk fs check path links = .ok p) :
    check ⟨true, []⟩ = .ok () ∧
      ∃ r, walkFrom fs check path links ⟨true, []⟩ (components path) = .ok r ∧ r.1.1 = p := by
  unfold walk at h
  simp only [hroot, if_true] at h
  split at h
  · cases h
  · rename_i hcheck
    refine ⟨hcheck, ?_⟩
    cases hwalk : walkFrom fs check path links ⟨true, []⟩ (components path) with
    | error e =>
        rw [hwalk] at h
        cases h
    | ok r =>
        rw [hwalk] at h
        exact ⟨r, rfl, Except.ok.inj h⟩

/-- A clear location is walked straight down from its text. -/
theorem walk_clear {fs : FileSystem} {check : Location → Except Denied Unit} {loc : List String}
    (h : Clear fs check loc) (links : ℕ) : walk fs check (Location.text ⟨true, loc⟩) links = .ok ⟨true, loc⟩ := by
  have hroot : check ⟨true, []⟩ = .ok () := h.checked [] (List.nil_prefix)
  have hwalk : walkFrom fs check (Location.text ⟨true, loc⟩) links ⟨true, []⟩ (loc.map .name) =
      .ok ⟨(⟨true, loc⟩, links), le_rfl⟩ := walkFrom_clear _ links h
  unfold walk
  simp only [hasRoot_text, if_true, hroot]
  rw [components_text rfl fun n hn => (h.names n hn).1, hwalk]
  rfl

/-! ## The result -/

/-- What the guard's answer is worth. -/
structure Resolved (u : Unicode) (fs : FileSystem) (ctx : GuardContext) (path : String) (p : Location) : Prop where
  absolute : p.rooted = true
  noDots : ∀ n ∈ p.names, n ≠ "." ∧ n ≠ ".."
  noLinks : Unlinked fs.view p.names
  /-- Where the kernel's walk leads, with any budget of links. -/
  kernel : ∀ budget d, resolve fs.view route budget [] (components path) = .ok d → p.names = d
  allowed : checkLocation u (resolvedRoots fs ctx) p = .ok ()
  /-- No rule matches a location or a link the walk comes by. -/
  visited : ∀ loc, Visits fs.view route [] (components path) loc →
    checkLocation u (resolvedRoots fs ctx) ⟨true, loc⟩ = .ok ()
  again : checkPath u fs ctx p.text = .ok p

/-- **The guard's resolution is the kernel's.** In a context whose current folder is absolute, a location the guard
    hands out is where the kernel's walk leads, holds no link, passes the deny list on the whole way, and is handed out
    again for its own text. -/
theorem checkPath_resolved (u : Unicode) (fs : FileSystem) (ctx : GuardContext) (input path : String) (p : Location)
    (htargets : fs.PlainTargets) (hctx : ctx.Plain) (hcwd : hasRoot ctx.cwd = true)
    (hpath : interpret input ctx = .ok path) (h : checkPath u fs ctx input = .ok p) : Resolved u fs ctx path p := by
  obtain ⟨path', hpath', -, hwalk, hallowed⟩ := checkPath_ok.mp h
  rw [hpath] at hpath'
  cases hpath'
  obtain ⟨hplain, hrooted⟩ := interpret_ok hctx hpath
  obtain ⟨hroot, r, hwalkFrom, hr⟩ := walk_ok (hrooted hcwd) hwalk
  obtain ⟨habsolute, hclear, hfollows⟩ :=
    walkFrom_follows (symlinkMetadata_plain htargets) hroot hwalkFrom (.nil hroot) (names_of_plainText hplain)
  rw [hr] at habsolute hclear hfollows
  obtain ⟨rooted, names⟩ := p
  cases habsolute
  have hnames : ∀ n ∈ names, NormalName n := fun n hn => (hclear.names n hn).1
  refine
    { absolute := rfl
      noDots := ?_
      noLinks := hclear.unlinked
      kernel := ?_
      allowed := hallowed
      visited := (hfollows.checked hroot (unlinked_nil fs) hroot).2
      again := ?_ }
  · intro n hn
    constructor
    · rintro rfl
      exact (hnames _ hn).notDot rfl
    · rintro rfl
      exact (hnames _ hn).notDotDot rfl
  · intro budget d hkernel
    exact (hfollows.eq_resolve (unlinked_nil fs) hkernel).symm
  · have htext : PlainText (Location.text ⟨true, names⟩) := plainText_text rfl fun n hn => (hclear.names n hn).2
    refine checkPath_ok.mpr ⟨_, interpret_self (hasRoot_text rfl) htext ctx, ?_, walk_clear hclear _, hallowed⟩
    rw [lexical_text rfl hnames]
    exact hallowed

/-! ## A link, and a relative current folder -/

namespace Small

/-- Unicode on ASCII names in lower case. -/
def unicode : Unicode where
  nfkd text := text
  toLowercase text := text
  nfkc text := text

/-- A root folder with a link `l` to `a`, which is not there. -/
def files : FileSystem where
  entries := [("l", .link "a")]
  processDir := []
  inspectError _ := none

def context : GuardContext where
  home := "/"
  cwd := "/"
  projectRoots := []

theorem checkPath_link : checkPath unicode files context "/l" = .ok ⟨true, ["a"]⟩ := by
  refine checkPath_ok.mpr ⟨"/l", by decide, by decide, ?_, by decide⟩
  have hstart : hasRoot "/l" = true ∧ components "/l" = [.name "l"] := by
    decide
  have hjoined : join (Location.text ⟨true, []⟩) "a" = "/a" ∧ hasRoot "/a" = true ∧ components "/a" = [.name "a"] := by
    decide
  have hlink : files.symlinkMetadata (Location.push ⟨true, []⟩ "l") = .symlink "a" := by
    decide
  have habsent : files.symlinkMetadata (Location.push ⟨true, []⟩ "a") = .absent := by
    decide
  have hchecks : checkLocation unicode (resolvedRoots files context) ⟨true, []⟩ = .ok () ∧
      checkLocation unicode (resolvedRoots files context) (Location.push ⟨true, []⟩ "l") = .ok () ∧
      checkLocation unicode (resolvedRoots files context) (Location.push ⟨true, []⟩ "a") = .ok () := by
    decide
  unfold walk
  simp only [hstart, hchecks, if_true, maxSymlinks, walkFrom, hlink, hjoined, habsent]
  rfl

theorem files_plainTargets : files.PlainTargets := by
  have ha : PlainText "a" := by
    unfold PlainText
    decide
  intro loc target hlink
  cases loc with
  | nil => cases hlink
  | cons n rest =>
      obtain ⟨found, hfind, hlink⟩ := Option.map_eq_some_iff.mp hlink
      unfold Tree.find at hfind
      rw [List.foldlM_cons] at hfind
      obtain ⟨node, hnode, hfind⟩ := Option.bind_eq_some_iff.mp hfind
      have hentry : List.lookup n [("l", Tree.link "a")] = some node := hnode
      rw [List.lookup_cons] at hentry
      split at hentry
      · cases hentry
        -- Nothing is below a link.
        cases rest with
        | nil =>
            cases hfind
            cases hlink
            exact ha
        | cons m rest => cases hfind
      · cases hentry

/-- The link is followed to where it leads. -/
theorem checkPath_link_resolved : Resolved unicode files context "/l" ⟨true, ["a"]⟩ := by
  refine checkPath_resolved unicode files context "/l" "/l" _ files_plainTargets ?_ ?_ ?_ checkPath_link
  · constructor
    · unfold PlainText
      decide
    · unfold PlainText
      decide
  · decide
  · decide

/-- The same folders, seen from a current folder that is relative. -/
def relativeContext : GuardContext where
  home := "/"
  cwd := "work"
  projectRoots := []

/-- What is handed out is relative as well. -/
theorem checkPath_relative :
    checkPath unicode files relativeContext "a" = .ok ⟨false, ["work", "a"]⟩ := by
  refine checkPath_ok.mpr ⟨"work/a", by decide, by decide, ?_, by decide⟩
  have hstart : hasRoot "work/a" = false ∧ components "work/a" = [.name "work", .name "a"] := by
    decide
  have habsent : files.symlinkMetadata (Location.push ⟨false, []⟩ "work") = .absent ∧
      files.symlinkMetadata (Location.push (Location.push ⟨false, []⟩ "work") "a") = .absent := by
    decide
  have hchecks : checkLocation unicode (resolvedRoots files relativeContext) (Location.push ⟨false, []⟩ "work") = .ok () ∧
      checkLocation unicode (resolvedRoots files relativeContext)
        (Location.push (Location.push ⟨false, []⟩ "work") "a") = .ok () := by
    decide
  unfold walk
  simp only [hstart, hchecks, Bool.false_eq_true, if_false, walkFrom, habsent]
  rfl

end Small

end AgentRuntime.Guard
