import AgentRuntime.Skills.Load
import AgentRuntime.Lib.Distinct
import AgentRuntime.Lib.Walk

/-!
# `Skills.Precedence` — which skill has a name (`agent-loop/src/skills.rs`)

A source holds what is valid in its folders or in its lock (`held`), and counts no more of it than its limits allow
(`within`). What is loaded under a name is decided by the first source that counts a skill of that name
(`load_get`), which is the first that holds one as long as the limits leave that undecided nowhere (`Settled`).
-/

namespace AgentRuntime.Skills

open AgentRuntime.Guard (NormalName)

/-! ## What a source holds -/

section

variable (fs : Fs)

/-- Where the search goes on below a folder. -/
def Fs.searched : Path × ℕ → List (Path × ℕ)
  | (dir, depth) =>
      if fs.holdsSkill dir then [] else if maxScanDepth ≤ depth then [] else (fs.subdirs dir).map (·, depth + 1)

/-- The folders below a root, as deep as they are searched. -/
def Fs.folders (root : Path) : List (Path × ℕ) := Walk.below fs.searched maxScanDepth (root, 0)

/-- Those of them that hold a skill. -/
def Fs.skillDirs (folders : List (Path × ℕ)) : List Path := (folders.filter fun d => fs.holdsSkill d.1).map Prod.fst

theorem searched_eq (dir : Path) (depth : ℕ) : fs.searched (dir, depth) =
    if fs.holdsSkill dir then [] else if maxScanDepth ≤ depth then [] else (fs.subdirs dir).map (·, depth + 1) := rfl

theorem skillDirs_cons (d : Path × ℕ) (folders : List (Path × ℕ)) :
    fs.skillDirs (d :: folders) = if fs.holdsSkill d.1 then d.1 :: fs.skillDirs folders else fs.skillDirs folders := by
  unfold Fs.skillDirs
  rw [List.filter_cons]
  split
  · rfl
  · rfl

theorem skillDirs_append (folders more : List (Path × ℕ)) :
    fs.skillDirs (folders ++ more) = fs.skillDirs folders ++ fs.skillDirs more := by
  unfold Fs.skillDirs
  rw [List.filter_append, List.map_append]

theorem searched_descends : Walk.Descends fs.searched fun d => maxScanDepth - d.2 := by
  rintro ⟨dir, depth⟩ child hchild
  rw [searched_eq] at hchild
  split at hchild
  · exact absurd hchild List.not_mem_nil
  · split at hchild
    · exact absurd hchild List.not_mem_nil
    · rename_i hdeep
      obtain ⟨sub, -, rfl⟩ := List.mem_map.mp hchild
      show maxScanDepth - (depth + 1) + 1 = maxScanDepth - depth
      omega

theorem discoverLoop_fst (left : ℕ) (stack : List (Path × ℕ)) (found : List Path) :
    (discoverLoop fs left stack found).1 = found ++ fs.skillDirs (Walk.visited fs.searched left stack) := by
  induction left generalizing stack found with
  | zero =>
      cases stack with
      | nil => exact (List.append_nil found).symm
      | cons d stack => exact (List.append_nil found).symm
  | succ left ih =>
      cases stack with
      | nil => exact (List.append_nil found).symm
      | cons d stack =>
          obtain ⟨dir, depth⟩ := d
          unfold discoverLoop Walk.visited
          rw [skillDirs_cons, searched_eq]
          split
          · rw [ih, List.append_assoc]
            rfl
          · split
            · exact ih _ _
            · exact ih _ _

/-- `discover` finds the skills among the folders that it visits. -/
theorem discover_fst (root : Path) : (discover fs root).1 = fs.skillDirs ((fs.folders root).take maxScanDirs) := by
  show (discoverLoop fs maxScanDirs [(root, 0)] []).1 = _
  rw [discoverLoop_fst, Walk.visited_eq_take (searched_descends fs), List.nil_append, List.flatMap_singleton]
  rfl

end

section

variable (env : Env)

/-- The skills in these folders. -/
def loaded (label : String) (dirs : List Path) : List Skill := dirs.filterMap fun d => (loadOne env d label).toOption

/-- The skills the lock ships, with those that are listed twice. -/
def shipped (src : SkillSource) (lock : SkillLock) : List Skill :=
  (loadLocked env src.root src.label lock).filterMap Except.toOption

/-- Every valid skill of a source, however many there are. -/
def valid (src : SkillSource) : List Skill :=
  if env.fs.isDir src.root then
    match src.lock with
    | some lock => shipped env src lock
    | none => loaded env src.label (env.fs.skillDirs (env.fs.folders src.root))
  else []

def named (name : String) (skills : List Skill) : List Skill := skills.filter fun s => decide (s.name = name)

/-- The skills of a name in a source, one for each folder. -/
def held (src : SkillSource) (name : String) : List Skill := Distinct.firsts Skill.dir [] (named name (valid env src))

def Skill.key (s : Skill) : String × List String := (s.name, s.dir)

/-- The skills within the limits: those of the first folders, each once, or of the lock, and only the first of them. -/
def counted (src : SkillSource) : List Skill :=
  match src.lock with
  | some lock => (shipped env src lock).take maxSkillsPerSource
  | none =>
      (Distinct.firsts Skill.key []
        (loaded env src.label (env.fs.skillDirs ((env.fs.folders src.root).take maxScanDirs)))).take maxSkillsPerSource

/-- The skills of a name within the limits. -/
def within (src : SkillSource) (name : String) : List Skill :=
  if env.fs.isDir src.root then named name (counted env src) else []

/-! ## What is loaded -/

/-- A source has accepted these skills. -/
structure Counts (f : Found) (kept : List Skill) : Prop where
  accepted : f.accepted = kept.length
  copies : ∀ name, f.copies name = named name kept
  ascending : SortedMap.Ascending f.byName

variable {env}

theorem Counts.push {f : Found} {kept : List Skill} (h : Counts f kept) (s : Skill) :
    Counts (f.push s) (kept ++ [s]) := by
  refine ⟨?_, ?_, h.ascending.insert _ _⟩
  · rw [List.length_append]
    exact congrArg (· + 1) h.accepted
  · intro name
    show ((SortedMap.insert s.name (f.copies s.name ++ [s]) f.byName).lookup name).getD [] = _
    rw [SortedMap.lookup_insert]
    unfold named
    rw [List.filter_append]
    by_cases hname : name = s.name
    · subst hname
      rw [if_pos rfl, Option.getD_some, h.copies, List.filter_singleton]
      simp [named]
    · rw [if_neg hname, List.filter_singleton, decide_eq_false (Ne.symm hname), Bool.cond_false, List.append_nil]
      exact h.copies name

theorem Counts.reject {f : Found} {kept : List Skill} (h : Counts f kept) (r : Rejected) : Counts (f.reject r) kept :=
  ⟨h.accepted, h.copies, h.ascending⟩

theorem counts_empty (rejected : List Rejected) : Counts ⟨[], 0, rejected⟩ [] := ⟨rfl, fun _ => rfl, List.Pairwise.nil⟩

/-- A list that is cut off takes one more element, or is full. -/
theorem take_concat {α : Type} (n : ℕ) (l : List α) (a : α) :
    (n ≤ (l.take n).length ∧ (l ++ [a]).take n = l.take n) ∨
      ((l.take n).length < n ∧ l.take n = l ∧ (l ++ [a]).take n = l ++ [a]) := by
  rw [List.length_take]
  by_cases hfull : n ≤ l.length
  · exact .inl ⟨le_min le_rfl hfull, List.take_append_of_le_length hfull⟩
  · have hlen : (l ++ [a]).length ≤ n := by
      rw [List.length_append]
      exact Nat.lt_of_not_le hfull
    refine .inr ⟨?_, List.take_of_length_le (Nat.le_of_not_le hfull), List.take_of_length_le hlen⟩
    exact lt_of_le_of_lt (min_le_right _ _) (Nat.lt_of_not_le hfull)

theorem acceptLocked_counts (label : String) {f : Found} {done : List Skill}
    (h : Counts f (done.take maxSkillsPerSource)) (r : Except Rejected Skill) :
    Counts (acceptLocked label f r) ((done ++ r.toOption.toList).take maxSkillsPerSource) := by
  cases r with
  | error e =>
      show Counts (f.reject e) ((done ++ []).take maxSkillsPerSource)
      rw [List.append_nil]
      exact h.reject e
  | ok s =>
      show Counts (acceptLocked label f (.ok s)) ((done ++ [s]).take maxSkillsPerSource)
      unfold acceptLocked
      simp only [h.accepted]
      rcases take_concat maxSkillsPerSource done s with ⟨hfull, htake⟩ | ⟨hroom, hall, htake⟩
      · rw [if_pos hfull, htake]
        exact h.reject _
      · rw [if_neg (Nat.not_le.mpr hroom), htake]
        rw [hall] at h
        exact h.push s

theorem locked_counts (label : String) {f : Found} {done : List Skill} (h : Counts f (done.take maxSkillsPerSource))
    (results : List (Except Rejected Skill)) :
    Counts (results.foldl (acceptLocked label) f)
      ((done ++ results.filterMap Except.toOption).take maxSkillsPerSource) := by
  induction results generalizing f done with
  | nil =>
      rw [List.filterMap_nil, List.append_nil]
      exact h
  | cons r results ih =>
      have hstep := ih (acceptLocked_counts label h r)
      rw [List.append_assoc] at hstep
      have hcons : (r :: results).filterMap Except.toOption = r.toOption.toList ++ results.filterMap Except.toOption := by
        rw [List.filterMap_cons]
        cases r.toOption with
        | none => rfl
        | some s => rfl
      rw [hcons]
      exact hstep

theorem acceptDir_counts (label : String) {f : Found} {done : List Skill}
    (h : Counts f ((Distinct.firsts Skill.key [] done).take maxSkillsPerSource)) (dir : Path) :
    Counts (acceptDir env label f dir)
      ((Distinct.firsts Skill.key [] (done ++ (loadOne env dir label).toOption.toList)).take maxSkillsPerSource) := by
  unfold acceptDir
  cases hload : loadOne env dir label with
  | error reason =>
      show Counts _ ((Distinct.firsts Skill.key [] (done ++ [])).take maxSkillsPerSource)
      rw [List.append_nil]
      split
      · exact h.reject _
      · exact h.reject _
  | ok s =>
      show Counts _ ((Distinct.firsts Skill.key [] (done ++ [s])).take maxSkillsPerSource)
      rw [Distinct.firsts_concat, h.accepted]
      have hsame : ((f.copies s.name).any fun c => c.dir == s.dir) = true ↔
          ∃ c ∈ (Distinct.firsts Skill.key [] done).take maxSkillsPerSource, c.key = s.key := by
        rw [h.copies, List.any_eq_true]
        constructor
        · rintro ⟨c, hc, hdir⟩
          obtain ⟨hc, hname⟩ := List.mem_filter.mp hc
          exact ⟨c, hc, Prod.ext (of_decide_eq_true hname) (eq_of_beq hdir)⟩
        · rintro ⟨c, hc, hkey⟩
          obtain ⟨hname, hdir⟩ := Prod.mk.inj hkey
          exact ⟨c, List.mem_filter.mpr ⟨hc, decide_eq_true hname⟩, beq_iff_eq.mpr hdir⟩
      split
      · rename_i hfull
        -- the source is full: nothing changes, whether the folder is new or not
        have hcut : ∀ more, ((Distinct.firsts Skill.key [] done) ++ more).take maxSkillsPerSource =
            (Distinct.firsts Skill.key [] done).take maxSkillsPerSource := by
          intro more
          rw [List.length_take] at hfull
          exact List.take_append_of_le_length (hfull.trans (min_le_right _ _))
        rw [hcut]
        exact h.reject _
      · rename_i hroom
        rcases take_concat maxSkillsPerSource (Distinct.firsts Skill.key [] done) s with
          ⟨hfull, -⟩ | ⟨-, hall, htake⟩
        · exact absurd hfull hroom
        · rw [hall] at hsame h
          by_cases hold : ∃ c ∈ Distinct.firsts Skill.key [] done, c.key = s.key
          · rw [if_pos (.inr hold), List.append_nil, hall]
            simp only [hsame.mpr hold, if_true]
            exact h
          · rw [if_neg (by rintro (h | h); cases h; exact hold h), htake]
            have hnew : ¬ ((f.copies s.name).any fun c => c.dir == s.dir) = true := fun hany => hold (hsame.mp hany)
            simp only [hnew]
            exact h.push s

theorem dirs_counts (label : String) {f : Found} {done : List Skill}
    (h : Counts f ((Distinct.firsts Skill.key [] done).take maxSkillsPerSource)) (dirs : List Path) :
    Counts (dirs.foldl (acceptDir env label) f)
      ((Distinct.firsts Skill.key [] (done ++ loaded env label dirs)).take maxSkillsPerSource) := by
  induction dirs generalizing f done with
  | nil =>
      show Counts f ((Distinct.firsts Skill.key [] (done ++ [])).take maxSkillsPerSource)
      rw [List.append_nil]
      exact h
  | cons dir dirs ih =>
      have hstep := ih (@acceptDir_counts env label f done h dir)
      rw [List.append_assoc] at hstep
      have hcons : loaded env label (dir :: dirs) =
          (loadOne env dir label).toOption.toList ++ loaded env label dirs := by
        unfold loaded
        rw [List.filterMap_cons]
        cases (loadOne env dir label).toOption with
        | none => rfl
        | some s => rfl
      rw [hcons]
      exact hstep

/-- **One source.** What it accepts is what it counts. -/
theorem scanSource_counts (src : SkillSource) : Counts (scanSource env src) (counted env src) := by
  unfold scanSource counted
  cases src.lock with
  | some lock => exact @locked_counts src.label _ [] (counts_empty []) _
  | none =>
      simp only
      rw [← discover_fst]
      exact @dirs_counts env src.label _ [] (counts_empty _) _

/-! ## All sources -/

/-- What stands under a name: the skill, and whether a source holds the name more than once. -/
def Loading.standing (l : Loading) (name : String) : Option Skill × Bool :=
  (l.skills.lookup name, decide (name ∈ l.ambiguous))

/-- What the copies that one source counts change. -/
def settle (st : Option Skill × Bool) : List Skill → Option Skill × Bool
  | [] => st
  | [s] => if st.1.isSome ∨ st.2 then st else (some s, st.2)
  | _ => (st.1, true)

theorem settle_single (st : Option Skill × Bool) (s : Skill) :
    settle st [s] = if st.1.isSome ∨ st.2 then st else (some s, st.2) := rfl

theorem provide_standing (label n : String) (l : Loading) (s : Skill) (name : String) :
    (provide label n l s).standing name = if name = n then settle (l.standing name) [s] else l.standing name := by
  unfold provide
  cases hkept : l.skills.lookup n with
  | some kept =>
      show l.standing name = _
      split
      · rename_i hname
        unfold Loading.standing
        rw [hname, hkept, settle_single, if_pos (.inl rfl)]
      · rfl
  | none =>
      by_cases hamb : n ∈ l.ambiguous
      · simp only [hamb, if_true]
        show l.standing name = _
        split
        · rename_i hname
          unfold Loading.standing
          rw [hname, settle_single, if_pos (.inr (decide_eq_true hamb))]
        · rfl
      · simp only [hamb, if_false]
        show ((SortedMap.insert n s l.skills).lookup name, decide (name ∈ l.ambiguous)) = _
        rw [SortedMap.lookup_insert]
        split
        · rename_i hname
          unfold Loading.standing
          rw [hname, hkept, decide_eq_false hamb, settle_single, if_neg (by simp)]
        · rfl

theorem mergeName_standing (label : String) (l : Loading) (e : String × List Skill) (name : String) :
    (mergeName label l e).standing name = if name = e.1 then settle (l.standing name) e.2 else l.standing name := by
  obtain ⟨n, copies⟩ := e
  match copies with
  | [] =>
      show l.standing name = if name = n then l.standing name else l.standing name
      rw [ite_self]
  | [s] => exact provide_standing label n l s name
  | a :: b :: rest =>
      show (l.skills.lookup name, decide (name ∈ n :: l.ambiguous)) = _
      split
      · rename_i hname
        rw [hname, decide_eq_true List.mem_cons_self]
        rfl
      · rename_i hname
        have hiff : (name ∈ n :: l.ambiguous) ↔ name ∈ l.ambiguous := by
          rw [List.mem_cons, or_iff_right hname]
        simp only [hiff]
        rfl

theorem mergeNames_standing (label : String) (l : Loading) {entries : List (String × List Skill)}
    (h : SortedMap.Ascending entries) (name : String) :
    (entries.foldl (mergeName label) l).standing name = settle (l.standing name) ((entries.lookup name).getD []) := by
  induction entries generalizing l with
  | nil => rfl
  | cons e entries ih =>
      obtain ⟨hfirst, hrest⟩ := List.pairwise_cons.mp h
      rw [List.foldl_cons, ih _ hrest, mergeName_standing, SortedMap.lookup_cons]
      by_cases hname : name = e.1
      · have hnone : entries.lookup name = none := by
          rw [List.lookup_eq_none_iff]
          intro f hf
          rw [hname]
          exact bne_iff_ne.mpr (ne_of_lt (hfirst f hf))
        rw [if_pos hname, if_pos hname, hnone]
        rfl
      · rw [if_neg hname, if_neg hname]

variable (env)

theorem loadSource_standing (l : Loading) (src : SkillSource) (name : String) :
    (loadSource env l src).standing name = settle (l.standing name) (within env src name) := by
  unfold loadSource within
  split
  · have hcounts := @scanSource_counts env src
    rw [mergeNames_standing _ _ hcounts.ascending]
    exact congrArg (settle (l.standing name)) (hcounts.copies name)
  · rfl

/-- What the sources give by what each counts: the first that counts any decides. -/
def chosen (name : String) : List SkillSource → Option Skill
  | [] => none
  | src :: rest =>
      match within env src name with
      | [] => chosen name rest
      | [s] => some s
      | _ => none

theorem chosen_cons (name : String) (src : SkillSource) (rest : List SkillSource) :
    chosen env name (src :: rest) =
      match within env src name with
      | [] => chosen env name rest
      | [s] => some s
      | _ => none := rfl

theorem settle_fold (name : String) (sources : List SkillSource) (st : Option Skill × Bool) :
    (sources.foldl (fun st src => settle st (within env src name)) st).1 =
      if st.1.isSome ∨ st.2 then st.1 else chosen env name sources := by
  induction sources generalizing st with
  | nil =>
      obtain ⟨o, b⟩ := st
      cases o with
      | some s => rfl
      | none => exact (ite_self none).symm
  | cons src sources ih =>
      rw [List.foldl_cons, ih, chosen_cons]
      obtain ⟨o, b⟩ := st
      match within env src name with
      | [] => rfl
      | [t] =>
          -- one copy counts unless the name stands already, or is ambiguous
          cases o with
          | some s => rfl
          | none =>
              cases b with
              | true => rfl
              | false => rfl
      | t :: u :: rest =>
          cases o with
          | some s => rfl
          | none =>
              cases b with
              | true => rfl
              | false => rfl

/-- **What is loaded.** The first source that counts a skill of the name decides. -/
theorem load_get (sources : List SkillSource) (name : String) : (load env sources).get name = chosen env name sources := by
  have hfold : ∀ (l : Loading), (sources.foldl (loadSource env) l).standing name =
      sources.foldl (fun st src => settle st (within env src name)) (l.standing name) := by
    intro l
    induction sources generalizing l with
    | nil => rfl
    | cons src sources ih => rw [List.foldl_cons, List.foldl_cons, ih, loadSource_standing]
  have hstanding := congrArg Prod.fst (hfold ⟨[], [], ⟨[], []⟩⟩)
  rw [settle_fold] at hstanding
  exact hstanding

/-! ## Precedence -/

/-- The first source that holds the name decides, and a source that holds it twice does not provide it. -/
structure Precedes (sources : List SkillSource) (name : String) (result : Option Skill) : Prop where
  loaded : ∀ s, result = some s ↔ ∃ before src after, sources = before ++ src :: after ∧
    (∀ b ∈ before, held env b name = []) ∧ held env src name = [s]
  ambiguous : ∀ before src after, sources = before ++ src :: after → 2 ≤ (held env src name).length →
    ∀ s, result = some s → ∃ b ∈ before, s ∈ held env b name

/-- What the first source that holds the name gives, by all that it holds. -/
def firstHolder (name : String) : List SkillSource → Option Skill
  | [] => none
  | src :: rest =>
      match held env src name with
      | [] => firstHolder name rest
      | [s] => some s
      | _ => none

theorem firstHolder_cons (name : String) (src : SkillSource) (rest : List SkillSource) :
    firstHolder env name (src :: rest) =
      match held env src name with
      | [] => firstHolder env name rest
      | [s] => some s
      | _ => none := rfl

/-- The limits decide as all that is held does. In the first source that holds the name, its only folder is counted
    once, or two of its copies are counted. Where none is counted, the later sources give the same by chance. -/
def Settled (name : String) : List SkillSource → Prop
  | [] => True
  | src :: rest =>
      match held env src name with
      | [] => Settled name rest
      | [s] => within env src name = [s] ∨ (within env src name = [] ∧ chosen env name rest = some s)
      | _ => 2 ≤ (within env src name).length ∨ (within env src name = [] ∧ chosen env name rest = none)

theorem firstHolder_eq_some {name : String} {sources : List SkillSource} {s : Skill} :
    firstHolder env name sources = some s ↔ ∃ before src after, sources = before ++ src :: after ∧
      (∀ b ∈ before, held env b name = []) ∧ held env src name = [s] := by
  induction sources with
  | nil =>
      constructor
      · exact fun h => nomatch h
      · rintro ⟨before, src, after, hsources, -⟩
        exact absurd hsources.symm (by simp)
  | cons src rest ih =>
      unfold firstHolder
      constructor
      · intro h
        cases hheld : held env src name with
        | nil =>
            rw [hheld] at h
            obtain ⟨before, src', after, hrest, hbefore, hsrc⟩ := ih.mp h
            refine ⟨src :: before, src', after, by rw [hrest]; rfl, ?_, hsrc⟩
            intro b hb
            rcases List.mem_cons.mp hb with rfl | hb
            · exact hheld
            · exact hbefore b hb
        | cons t more =>
            cases more with
            | nil =>
                rw [hheld] at h
                cases h
                exact ⟨[], src, rest, rfl, fun b hb => absurd hb List.not_mem_nil, hheld⟩
            | cons u more =>
                rw [hheld] at h
                cases h
      · rintro ⟨before, src', after, hsources, hbefore, hsrc⟩
        cases before with
        | nil =>
            obtain ⟨rfl, rfl⟩ := List.cons.inj hsources
            rw [hsrc]
        | cons b before =>
            obtain ⟨rfl, hrest⟩ := List.cons.inj hsources
            rw [hbefore _ List.mem_cons_self]
            exact ih.mpr ⟨before, src', after, hrest, fun b hb => hbefore b (List.mem_cons_of_mem _ hb), hsrc⟩

theorem precedes_iff {sources : List SkillSource} {name : String} {result : Option Skill} :
    Precedes env sources name result ↔ result = firstHolder env name sources := by
  constructor
  · intro h
    cases hresult : result with
    | some s => exact (firstHolder_eq_some env |>.mpr ((h.loaded s).mp hresult)).symm
    | none =>
        cases hfirst : firstHolder env name sources with
        | none => rfl
        | some s =>
            have hsome := (h.loaded s).mpr ((firstHolder_eq_some env).mp hfirst)
            rw [hresult] at hsome
            cases hsome
  · rintro rfl
    refine ⟨fun s => firstHolder_eq_some env, ?_⟩
    intro before src after hsources htwice s hs
    obtain ⟨before', src', after', hsources', hbefore', hsrc'⟩ := (firstHolder_eq_some env).mp hs
    -- the deciding source is not the one that holds the name twice, nor a later one
    rw [hsources] at hsources'
    rcases List.append_eq_append_iff.mp hsources' with ⟨mid, hbefore, hrest⟩ | ⟨mid, hbefore, hrest⟩
    · cases mid with
      | nil =>
          rw [List.nil_append] at hrest
          obtain ⟨rfl, -⟩ := List.cons.inj hrest
          rw [hsrc'] at htwice
          exact absurd htwice (by simp)
      | cons b mid =>
          obtain ⟨rfl, -⟩ := List.cons.inj hrest
          have hnone := hbefore' src (by rw [hbefore]; simp)
          rw [hnone] at htwice
          exact absurd htwice (by simp)
    · cases mid with
      | nil =>
          rw [List.nil_append] at hrest
          obtain ⟨rfl, -⟩ := List.cons.inj hrest
          rw [hsrc'] at htwice
          exact absurd htwice (by simp)
      | cons b mid =>
          obtain ⟨rfl, -⟩ := List.cons.inj hrest
          refine ⟨src', by rw [hbefore]; simp, ?_⟩
          rw [hsrc']
          exact List.mem_singleton_self s

/-- What is counted is held. -/
theorem within_eq_nil {src : SkillSource} {name : String} (h : held env src name = []) : within env src name = [] := by
  by_contra hsome
  obtain ⟨s, hs⟩ := List.exists_mem_of_ne_nil _ hsome
  have hmem : s ∈ named name (valid env src) := by
    unfold within at hs
    unfold valid
    split at hs
    · rename_i hdir
      rw [if_pos hdir]
      obtain ⟨hs, hname⟩ := List.mem_filter.mp hs
      refine List.mem_filter.mpr ⟨?_, hname⟩
      unfold counted at hs
      cases hlock : src.lock with
      | some lock =>
          rw [hlock] at hs
          exact List.mem_of_mem_take hs
      | none =>
          rw [hlock] at hs
          obtain ⟨d, hd, hload⟩ := List.mem_filterMap.mp (Distinct.mem_of_mem_firsts (List.mem_of_mem_take hs)).1
          refine List.mem_filterMap.mpr ⟨d, ?_, hload⟩
          obtain ⟨f, hf, rfl⟩ := List.mem_map.mp hd
          obtain ⟨hf, hholds⟩ := List.mem_filter.mp hf
          exact List.mem_map.mpr ⟨f, List.mem_filter.mpr ⟨List.mem_of_mem_take hf, hholds⟩, rfl⟩
    · exact absurd hs List.not_mem_nil
  obtain ⟨t, ht, -⟩ : ∃ t ∈ Distinct.firsts Skill.dir [] (named name (valid env src)), t.dir = s.dir :=
    Distinct.exists_mem_firsts hmem List.not_mem_nil
  rw [show Distinct.firsts Skill.dir [] (named name (valid env src)) = [] from h] at ht
  exact List.not_mem_nil ht

theorem chosen_eq_iff (name : String) (sources : List SkillSource) :
    chosen env name sources = firstHolder env name sources ↔ Settled env name sources := by
  induction sources with
  | nil => exact ⟨fun _ => trivial, fun _ => rfl⟩
  | cons src rest ih =>
      unfold chosen firstHolder Settled
      cases hheld : held env src name with
      | nil =>
          rw [within_eq_nil env hheld]
          exact ih
      | cons s more =>
          cases more with
          | nil =>
              cases hwithin : within env src name with
              | nil => simp
              | cons t others =>
                  cases others with
                  | nil => simp
                  | cons u others => simp
          | cons s' more =>
              cases hwithin : within env src name with
              | nil => simp
              | cons t others =>
                  cases others with
                  | nil => simp
                  | cons u others => simp

/-- **Precedence.** A name is loaded from the first source that holds it, unless that source holds it twice, exactly when
    the limits leave it undecided nowhere. -/
theorem precedence_iff (sources : List SkillSource) (name : String) :
    Precedes env sources name ((load env sources).get name) ↔ Settled env name sources := by
  rw [precedes_iff, load_get]
  exact chosen_eq_iff env name sources

end

/-! ## A crowded source

A source of 513 skills: one named `dup`, 511 others, and one more named `dup` in a folder that sorts behind them. -/

def fillerName (i : ℕ) : String :=
  String.ofList ['f', Nat.digitChar (i / 100), Nat.digitChar (i / 10 % 10), Nat.digitChar (i % 10)]

def crowdNames : List String := "dup" :: (List.range 511).map fillerName

def skillTree : FileTree.Tree String String := .folder [("SKILL.md", .file)]

def crowdEntries : List (String × FileTree.Tree String String) :=
  crowdNames.map (·, skillTree) ++ [("zz", .folder [("dup", skillTree)])]

def crowdTree : FileTree.Tree String String := .folder [("s", .folder crowdEntries)]

def mdText (name : String) : String := "---\nname: " ++ name ++ "\ndescription: d\n---\n"

/-- Reads texts of the form of `mdText`. -/
def parseMdText (text : String) : Except String (SkillFrontmatter × String) :=
  .ok (⟨String.ofList ((text.toList.drop 10).takeWhile (· ≠ '\n')), "d", none, none, [], [], []⟩, "")

theorem crowdNames_chars {n : String} (h : n ∈ crowdNames ++ ["zz"]) :
    n.toList ≠ [] ∧ ∀ c ∈ n.toList, c.isAlphanum = true := by
  have hall : ((crowdNames ++ ["zz"]).all fun n => !n.toList.isEmpty && n.toList.all Char.isAlphanum) = true := by
    decide +kernel
  have hn := List.all_eq_true.mp hall n h
  rw [Bool.and_eq_true, Bool.not_eq_true', List.isEmpty_eq_false_iff, List.all_eq_true] at hn
  exact hn

theorem crowdNames_ascend : (crowdNames ++ ["zz"]).IsChain (· < ·) := by
  decide +kernel

theorem crowdNames_short : ∀ n ∈ crowdNames, (mdText n).toByteArray.data.toList.length ≤ maxSkillFileBytes := by
  decide +kernel

theorem skillTree_all {P : String → Prop} (h : P "SKILL.md") :
    skillTree.All P fun _ => False := by
  refine .folder ?_ ?_
  · intro e he
    rw [List.mem_singleton.mp he]
    exact h
  · intro e he
    rw [List.mem_singleton.mp he]
    exact .file

theorem crowdTree_all : crowdTree.All NormalName fun _ => False := by
  have hmd : NormalName "SKILL.md" := ⟨by decide, by decide, by decide, by decide⟩
  have hname : ∀ n ∈ crowdNames ++ ["zz"], NormalName n := by
    intro n hn
    obtain ⟨hnonempty, hchars⟩ := crowdNames_chars hn
    refine ⟨hnonempty, ?_, ?_, fun hslash => absurd (hchars '/' hslash) (by decide)⟩
    · intro heq
      exact absurd (hchars '.' (by rw [heq]; decide)) (by decide)
    · intro heq
      exact absurd (hchars '.' (by rw [heq]; decide)) (by decide)
  have hdup : "dup" ∈ crowdNames ++ ["zz"] := List.mem_cons_self
  refine .folder ?_ ?_
  · intro e he
    rw [List.mem_singleton.mp he]
    exact ⟨by decide, by decide, by decide, by decide⟩
  · intro e he
    rw [List.mem_singleton.mp he]
    refine .folder ?_ ?_
    · intro e he
      rcases List.mem_append.mp he with he | he
      · obtain ⟨n, hn, rfl⟩ := List.mem_map.mp he
        exact hname n (List.mem_append_left _ hn)
      · rw [List.mem_singleton.mp he]
        exact hname "zz" (List.mem_append_right _ (List.mem_singleton_self _))
    · intro e he
      rcases List.mem_append.mp he with he | he
      · obtain ⟨n, hn, rfl⟩ := List.mem_map.mp he
        exact skillTree_all hmd
      · rw [List.mem_singleton.mp he]
        refine .folder ?_ ?_
        · intro e he
          rw [List.mem_singleton.mp he]
          exact hname "dup" hdup
        · intro e he
          rw [List.mem_singleton.mp he]
          exact skillTree_all hmd

def crowdFs : Fs where
  tree := crowdTree
  special := fun _ => false
  bytes := fun loc => (mdText (loc.dropLast.getLast?.getD "")).toByteArray.data.toList
  cwd := []
  cwd_unlinked := fun _ _ _ hlink => crowdTree_all.target hlink
  named := fun _ _ => crowdTree_all.name

def crowdEnv : Env where
  fs := crowdFs
  parseSkillMd := parseMdText
  sha256Hex := fun _ => ""

theorem crowd_unlinked (loc : List String) : FileTree.Unlinked crowdFs.view loc :=
  fun _ _ _ hlink => crowdTree_all.target hlink

theorem crowd_lookup {n : String} (h : n ∈ crowdNames) : crowdEntries.lookup n = some skillTree := by
  unfold crowdEntries
  generalize crowdNames = names at h ⊢
  induction names with
  | nil => cases h
  | cons m names ih =>
      rw [List.map_cons, List.cons_append, SortedMap.lookup_cons]
      split
      · rfl
      · rename_i hne
        exact ih ((List.mem_cons.mp h).resolve_left hne)

theorem crowd_lookup_zz : crowdEntries.lookup "zz" = some (.folder [("dup", skillTree)]) := by
  have hne : ∀ n ∈ crowdNames, n ≠ "zz" := by decide +kernel
  unfold crowdEntries
  generalize crowdNames = names at hne
  induction names with
  | nil => rfl
  | cons m names ih =>
      rw [List.map_cons, List.cons_append, SortedMap.lookup_cons, if_neg (Ne.symm (hne m List.mem_cons_self))]
      exact ih fun n hn => hne n (List.mem_cons_of_mem m hn)

/-- The folders with a skill in them. -/
def CrowdSkill (loc : List String) : Prop := (∃ n ∈ crowdNames, loc = ["s", n]) ∨ loc = ["s", "zz", "dup"]

theorem crowd_find (n : String) : crowdTree.find ["s", n] = crowdEntries.lookup n := by
  have hs : crowdTree.find ["s"] = some (.folder crowdEntries) := rfl
  rw [show ["s", n] = ["s"] ++ [n] from rfl, FileTree.Tree.find_concat, hs]
  rfl

theorem CrowdSkill.find {loc : List String} (h : CrowdSkill loc) : crowdTree.find loc = some skillTree := by
  rcases h with ⟨n, hn, rfl⟩ | rfl
  · rw [crowd_find, crowd_lookup hn]
  · rw [show ["s", "zz", "dup"] = ["s", "zz"] ++ ["dup"] from rfl, FileTree.Tree.find_concat, crowd_find, crowd_lookup_zz]
    rfl

theorem CrowdSkill.folder {loc : List String} (h : CrowdSkill loc) : crowdFs.view loc = some .folder := by
  show (crowdTree.find loc).map FileTree.Tree.kind = _
  rw [h.find]
  rfl

theorem CrowdSkill.md {loc : List String} (h : CrowdSkill loc) : crowdFs.view (loc ++ ["SKILL.md"]) = some .file := by
  show (crowdTree.find (loc ++ ["SKILL.md"])).map FileTree.Tree.kind = _
  rw [FileTree.Tree.find_concat, h.find]
  rfl

theorem CrowdSkill.canonicalize {loc : List String} (h : CrowdSkill loc) :
    crowdFs.canonicalize (.ofLoc loc) = .ok loc :=
  Fs.canonicalize_ofLoc (crowd_unlinked _) (by rw [h.folder]; exact nofun)

theorem CrowdSkill.canonicalize_md {loc : List String} (h : CrowdSkill loc) :
    crowdFs.canonicalize ((Path.ofLoc loc).child "SKILL.md") = .ok (loc ++ ["SKILL.md"]) := by
  rw [Path.ofLoc_child]
  exact Fs.canonicalize_ofLoc (crowd_unlinked _) (by rw [h.md]; exact nofun)

theorem CrowdSkill.holds {loc : List String} (h : CrowdSkill loc) : crowdFs.holdsSkill (.ofLoc loc) = true := by
  unfold Fs.holdsSkill Fs.isFile
  rw [h.canonicalize_md]
  show decide (crowdFs.view (loc ++ ["SKILL.md"]) = some .file) && true = true
  rw [h.md]
  rfl

def crowdSkill (dir : List String) (name : String) : Skill where
  name := name
  description := "d"
  source := "m"
  dir := dir
  body := ""
  frontmatter := ⟨name, "d", none, none, [], [], []⟩
  refs := []
  scripts := []
  provenance := none
  refSha256 := []
  stripped := []

theorem parseMdText_mdText {name : String} (h : ∀ c ∈ name.toList, c ≠ '\n') :
    parseMdText (mdText name) = .ok (⟨name, "d", none, none, [], [], []⟩, "") := by
  have hname : ((mdText name).toList.drop 10).takeWhile (· ≠ '\n') = name.toList := by
    unfold mdText
    rw [String.toList_append, String.toList_append, List.append_assoc]
    show (name.toList ++ "\ndescription: d\n---\n".toList).takeWhile (· ≠ '\n') = name.toList
    rw [List.takeWhile_append_of_pos fun c hc => decide_eq_true (h c hc)]
    exact List.append_nil _
  unfold parseMdText
  rw [hname, String.ofList_toList]

theorem CrowdSkill.names {loc : List String} (h : CrowdSkill loc) :
    crowdFs.sortedNames (.ofLoc loc) = ["SKILL.md"] := by
  have hdir : crowdFs.names loc = ["SKILL.md"] := by
    unfold Fs.names
    rw [show crowdFs.tree.find loc = some (.folder [("SKILL.md", .file)]) from h.find]
    rfl
  unfold Fs.sortedNames
  rw [h.canonicalize]
  show (crowdFs.names loc).insertionSort _ = ["SKILL.md"]
  rw [hdir]
  rfl

theorem CrowdSkill.listed {loc : List String} (h : CrowdSkill loc) : listResources crowdFs loc = ([], []) := by
  have hentry : ∀ depth l, listEntry crowdFs loc depth l ["SKILL.md"] = l := by
    intro depth l
    unfold listEntry
    rw [Fs.lstat_ofLoc (crowd_unlinked loc) h.md]
    rfl
  have hentries : ∀ depth l, l.full = false → listEntries crowdFs loc [] depth ["SKILL.md"] l = l := by
    intro depth l hfull
    unfold listEntries
    rw [hfull]
    show listEntries crowdFs loc [] depth [] (listEntry crowdFs loc depth l ["SKILL.md"]) = l
    rw [hentry]
    rfl
  unfold listResources listFolder
  rw [List.append_nil, h.names, hentries _ _ rfl]
  show (sortTexts [], sortTexts []) = ([], [])
  rfl

theorem CrowdSkill.loaded {loc : List String} {n : String} (h : CrowdSkill (loc ++ [n])) (hn : n ∈ crowdNames) :
    loadOne crowdEnv (.ofLoc (loc ++ [n])) "m" = .ok (crowdSkill (loc ++ [n]) n) := by
  have hchars : ∀ c ∈ n.toList, c ≠ '\n' := by
    rintro c hc rfl
    exact absurd ((crowdNames_chars (List.mem_append_left _ hn)).2 _ hc) (by decide)
  have hbytes : crowdFs.bytes (loc ++ [n] ++ ["SKILL.md"]) = (mdText n).toByteArray.data.toList := by
    show (mdText ((loc ++ [n] ++ ["SKILL.md"]).dropLast.getLast?.getD "")).toByteArray.data.toList = _
    rw [List.dropLast_concat, List.getLast?_concat]
    rfl
  have hread : readSkillMd crowdEnv ((Path.ofLoc (loc ++ [n])).child "SKILL.md") = .ok (mdText n) := by
    unfold readSkillMd canonicalOr
    rw [show crowdEnv.fs = crowdFs from rfl, h.canonicalize_md]
    show (if maxSkillFileBytes < (crowdFs.bytes (loc ++ [n] ++ ["SKILL.md"])).length then _ else
      (fromUtf8 (crowdFs.bytes (loc ++ [n] ++ ["SKILL.md"]))).elim _ _) = _
    rw [hbytes, if_neg (Nat.not_lt.mpr (crowdNames_short n hn)), fromUtf8_toByteArray]
    rfl
  have hname : (Path.ofLoc (loc ++ [n])).fileName = some n := by
    unfold Path.fileName Path.ofLoc
    dsimp only
    rw [List.map_append, List.map_singleton, List.getLast?_concat]
  have hdir : checkDirName (.ofLoc (loc ++ [n])) ⟨n, "d", none, none, [], [], []⟩ = .ok () := by
    unfold checkDirName
    rw [hname]
    exact if_pos rfl
  unfold loadOne canonicalOr
  rw [hread, show crowdEnv.fs = crowdFs from rfl, h.canonicalize]
  have hparse : crowdEnv.parseSkillMd (mdText n) = _ := parseMdText_mdText hchars
  simp only [bind, Except.bind, hparse, hdir, Except.mapError, h.listed]
  rfl

theorem crowd_view (n : String) : crowdFs.view ["s", n] = (crowdEntries.lookup n).map FileTree.Tree.kind := by
  show (crowdTree.find ["s", n]).map FileTree.Tree.kind = _
  rw [crowd_find]

theorem crowd_isDir {loc : List String} (h : crowdFs.view loc = some .folder) :
    crowdFs.isDir (.ofLoc loc) = true := by
  unfold Fs.isDir
  rw [Fs.canonicalize_ofLoc (crowd_unlinked loc) (by rw [h]; exact nofun)]
  exact decide_eq_true h

theorem crowd_folder {n : String} (h : n ∈ crowdNames ++ ["zz"]) : crowdFs.view ["s", n] = some .folder := by
  rcases List.mem_append.mp h with h | h
  · exact CrowdSkill.folder (.inl ⟨n, h, rfl⟩)
  · rw [List.mem_singleton.mp h, crowd_view, crowd_lookup_zz]
    rfl

theorem crowd_subdirs : crowdFs.subdirs (.ofLoc ["s"]) = (crowdNames ++ ["zz"]).map fun n => Path.ofLoc ["s", n] := by
  have hascend : (crowdNames ++ ["zz"]).Pairwise (· < ·) := List.isChain_iff_pairwise.mp crowdNames_ascend
  have hnames : crowdFs.names ["s"] = crowdNames ++ ["zz"] := by
    unfold Fs.names
    rw [show crowdFs.tree.find ["s"] = some (.folder crowdEntries) from rfl]
    show (crowdEntries.map Prod.fst).dedup = _
    unfold crowdEntries
    rw [List.map_append, List.map_map, show Prod.fst ∘ (fun n => (n, skillTree)) = id from rfl, List.map_id]
    exact List.dedup_eq_self.mpr (hascend.imp fun hlt => ne_of_lt hlt)
  have hsorted : crowdFs.sortedNames (.ofLoc ["s"]) = crowdNames ++ ["zz"] := by
    have hsource : crowdFs.view ["s"] ≠ none := nofun
    unfold Fs.sortedNames
    rw [Fs.canonicalize_ofLoc (crowd_unlinked ["s"]) hsource]
    show (crowdFs.names ["s"]).insertionSort _ = _
    rw [hnames]
    exact List.Pairwise.insertionSort_eq (hascend.imp fun hlt => le_of_lt hlt)
  have hkept : ∀ n ∈ crowdNames ++ ["zz"],
      (!isHidden n && crowdFs.isDir ((Path.ofLoc ["s"]).child n)) = true := by
    intro n hn
    have hhidden : isHidden n = false := by
      unfold isHidden
      rw [beq_eq_false_iff_ne]
      intro hhead
      exact absurd ((crowdNames_chars hn).2 '.' (List.mem_of_head? hhead)) (by decide)
    have hdir : crowdFs.isDir ((Path.ofLoc ["s"]).child n) = true := by
      rw [Path.ofLoc_child]
      exact crowd_isDir (crowd_folder hn)
    rw [hhidden, hdir]
    rfl
  unfold Fs.subdirs
  rw [hsorted, List.filter_eq_self.mpr hkept]
  exact List.map_congr_left fun n _ => Path.ofLoc_child ["s"] n

theorem CrowdSkill.searched {loc : List String} (h : CrowdSkill loc) (depth : ℕ) :
    crowdFs.searched (.ofLoc loc, depth) = [] := by
  rw [searched_eq, if_pos h.holds]

/-- A folder without a `SKILL.md` in it. -/
theorem crowd_not_skill {loc : List String} (h : crowdFs.view (loc ++ ["SKILL.md"]) = none) :
    crowdFs.holdsSkill (.ofLoc loc) = false := by
  unfold Fs.holdsSkill
  rw [Path.ofLoc_child, Fs.isFile_ofLoc (crowd_unlinked _)]
  unfold Fs.regular
  rw [h]
  rfl

theorem crowd_searched_zz : crowdFs.searched (.ofLoc ["s", "zz"], 1) = [(.ofLoc ["s", "zz", "dup"], 2)] := by
  have hfind : crowdFs.tree.find ["s", "zz"] = some (.folder [("dup", skillTree)]) := by
    show crowdTree.find ["s", "zz"] = _
    rw [crowd_find, crowd_lookup_zz]
  have hnone : crowdFs.view (["s", "zz"] ++ ["SKILL.md"]) = none := by
    show (crowdFs.tree.find (["s", "zz"] ++ ["SKILL.md"])).map FileTree.Tree.kind = none
    rw [FileTree.Tree.find_concat, hfind]
    rfl
  have hfolder : crowdFs.view ["s", "zz"] ≠ none := by
    rw [crowd_folder (List.mem_append_right _ (List.mem_singleton_self "zz"))]
    exact nofun
  have hnames : crowdFs.sortedNames (.ofLoc ["s", "zz"]) = ["dup"] := by
    have hdir : crowdFs.names ["s", "zz"] = ["dup"] := by
      unfold Fs.names
      rw [hfind]
      rfl
    unfold Fs.sortedNames
    rw [Fs.canonicalize_ofLoc (crowd_unlinked _) hfolder]
    show (crowdFs.names ["s", "zz"]).insertionSort _ = ["dup"]
    rw [hdir]
    rfl
  have hdup : crowdFs.isDir ((Path.ofLoc ["s", "zz"]).child "dup") = true := by
    rw [Path.ofLoc_child]
    exact crowd_isDir (CrowdSkill.folder (.inr rfl))
  rw [searched_eq, crowd_not_skill hnone]
  unfold Fs.subdirs
  rw [hnames, List.filter_singleton, hdup]
  rfl

theorem crowd_folders : crowdFs.folders (.ofLoc ["s"]) =
    (.ofLoc ["s"], 0) :: ((crowdNames.map fun n => (Path.ofLoc ["s", n], 1)) ++
      [(.ofLoc ["s", "zz"], 1), (.ofLoc ["s", "zz", "dup"], 2)]) := by
  have hroot : crowdFs.searched (.ofLoc ["s"], 0) =
      (crowdNames ++ ["zz"]).map fun n => (Path.ofLoc ["s", n], 1) := by
    have hnone : crowdFs.view (["s"] ++ ["SKILL.md"]) = none := by
      show crowdFs.view ["s", "SKILL.md"] = none
      rw [crowd_view, List.lookup_eq_none_iff.mpr]
      · rfl
      · decide +kernel
    rw [searched_eq, crowd_not_skill hnone, crowd_subdirs, List.map_map]
    rfl
  have hskills : ∀ names : List String, (∀ n ∈ names, n ∈ crowdNames) →
      (names.map fun n => (Path.ofLoc ["s", n], 1)).flatMap (Walk.below crowdFs.searched 5) =
        names.map fun n => (Path.ofLoc ["s", n], 1) := by
    intro names hnames
    induction names with
    | nil => rfl
    | cons n names ih =>
        have hskill : CrowdSkill ["s", n] := .inl ⟨n, hnames n List.mem_cons_self, rfl⟩
        rw [List.map_cons, List.flatMap_cons, ih fun m hm => hnames m (List.mem_cons_of_mem n hm)]
        show ((Path.ofLoc ["s", n], 1) :: (crowdFs.searched (Path.ofLoc ["s", n], 1)).flatMap _) ++ _ = _
        rw [hskill.searched]
        rfl
  have hzz : Walk.below crowdFs.searched 5 (.ofLoc ["s", "zz"], 1) =
      [(.ofLoc ["s", "zz"], 1), (.ofLoc ["s", "zz", "dup"], 2)] := by
    have hdup : CrowdSkill ["s", "zz", "dup"] := .inr rfl
    have hbelow : Walk.below crowdFs.searched 4 (.ofLoc ["s", "zz", "dup"], 2) = [(.ofLoc ["s", "zz", "dup"], 2)] := by
      show _ :: (crowdFs.searched (Path.ofLoc ["s", "zz", "dup"], 2)).flatMap (Walk.below crowdFs.searched 3) = _
      rw [hdup.searched]
      rfl
    show _ :: (crowdFs.searched (Path.ofLoc ["s", "zz"], 1)).flatMap (Walk.below crowdFs.searched 4) = _
    rw [crowd_searched_zz, List.flatMap_singleton, hbelow]
  show (Path.ofLoc ["s"], 0) :: (crowdFs.searched (.ofLoc ["s"], 0)).flatMap (Walk.below crowdFs.searched 5) = _
  rw [hroot, List.map_append, List.flatMap_append, hskills crowdNames fun _ h => h, List.map_singleton,
    List.flatMap_singleton, hzz]

theorem crowd_skillDirs : crowdFs.skillDirs (crowdFs.folders (.ofLoc ["s"])) =
    (crowdNames.map fun n => Path.ofLoc ["s", n]) ++ [.ofLoc ["s", "zz", "dup"]] := by
  have hskills : ∀ names : List String, (∀ n ∈ names, n ∈ crowdNames) →
      crowdFs.skillDirs (names.map fun n => (Path.ofLoc ["s", n], 1)) = names.map fun n => Path.ofLoc ["s", n] := by
    intro names hnames
    induction names with
    | nil => rfl
    | cons n names ih =>
        have hskill : CrowdSkill ["s", n] := .inl ⟨n, hnames n List.mem_cons_self, rfl⟩
        rw [List.map_cons, skillDirs_cons, if_pos hskill.holds, ih fun m hm => hnames m (List.mem_cons_of_mem n hm)]
        rfl
  have hroot : crowdFs.holdsSkill (.ofLoc ["s"]) = false := by
    refine crowd_not_skill ?_
    show crowdFs.view ["s", "SKILL.md"] = none
    rw [crowd_view, List.lookup_eq_none_iff.mpr]
    · rfl
    · decide +kernel
  have hzz : crowdFs.holdsSkill (.ofLoc ["s", "zz"]) = false := by
    refine crowd_not_skill ?_
    show (crowdTree.find (["s", "zz"] ++ ["SKILL.md"])).map FileTree.Tree.kind = none
    rw [FileTree.Tree.find_concat, crowd_find, crowd_lookup_zz]
    rfl
  have hdup : CrowdSkill ["s", "zz", "dup"] := .inr rfl
  rw [crowd_folders, skillDirs_cons, hroot, if_neg Bool.false_ne_true, skillDirs_append,
    hskills crowdNames fun _ h => h, skillDirs_cons, hzz, if_neg Bool.false_ne_true, skillDirs_cons, if_pos hdup.holds]
  rfl

theorem crowd_loaded : loaded crowdEnv "m" (crowdFs.skillDirs (crowdFs.folders (.ofLoc ["s"]))) =
    (crowdNames.map fun n => crowdSkill ["s", n] n) ++ [crowdSkill ["s", "zz", "dup"] "dup"] := by
  have hskills : ∀ names : List String, (∀ n ∈ names, n ∈ crowdNames) →
      loaded crowdEnv "m" (names.map fun n => Path.ofLoc ["s", n]) = names.map fun n => crowdSkill ["s", n] n := by
    intro names hnames
    induction names with
    | nil => rfl
    | cons n names ih =>
        have hn := hnames n List.mem_cons_self
        have hskill : CrowdSkill ["s", n] := .inl ⟨n, hn, rfl⟩
        have hload : loadOne crowdEnv (.ofLoc ["s", n]) "m" = .ok (crowdSkill ["s", n] n) :=
          @CrowdSkill.loaded ["s"] n hskill hn
        have hrest := ih fun m hm => hnames m (List.mem_cons_of_mem n hm)
        unfold loaded at hrest ⊢
        rw [List.map_cons, List.filterMap_cons_some (by rw [hload]; rfl), hrest]
        rfl
  have hdup : loadOne crowdEnv (.ofLoc ["s", "zz", "dup"]) "m" = .ok (crowdSkill ["s", "zz", "dup"] "dup") :=
    @CrowdSkill.loaded ["s", "zz"] "dup" (.inr rfl) List.mem_cons_self
  have happend := hskills crowdNames fun _ h => h
  rw [crowd_skillDirs]
  unfold loaded at happend ⊢
  rw [List.filterMap_append, happend, List.filterMap_cons_some (by rw [hdup]; rfl)]
  rfl

def crowdSource : SkillSource where
  label := "m"
  root := .ofLoc ["s"]
  lock := none

theorem crowd_named : named "dup" (crowdNames.map fun n => crowdSkill ["s", n] n) = [crowdSkill ["s", "dup"] "dup"] := by
  have hfillers : ∀ i ∈ List.range 511, fillerName i ≠ "dup" := by decide +kernel
  have hnone : named "dup" (((List.range 511).map fillerName).map fun n => crowdSkill ["s", n] n) = [] := by
    unfold named
    rw [List.filter_eq_nil_iff]
    intro s hs
    obtain ⟨n, hn, rfl⟩ := List.mem_map.mp hs
    obtain ⟨i, hi, rfl⟩ := List.mem_map.mp hn
    exact fun h => hfillers i hi (of_decide_eq_true h)
  unfold named at hnone ⊢
  rw [crowdNames, List.map_cons, List.filter_cons_of_pos rfl, hnone]

theorem crowd_held : held crowdEnv crowdSource "dup" =
    [crowdSkill ["s", "dup"] "dup", crowdSkill ["s", "zz", "dup"] "dup"] := by
  have hvalid : valid crowdEnv crowdSource = loaded crowdEnv "m" (crowdFs.skillDirs (crowdFs.folders (.ofLoc ["s"]))) :=
    if_pos (crowd_isDir rfl)
  have hnamed : named "dup" (valid crowdEnv crowdSource) =
      [crowdSkill ["s", "dup"] "dup", crowdSkill ["s", "zz", "dup"] "dup"] := by
    rw [hvalid, crowd_loaded]
    unfold named
    rw [List.filter_append]
    exact congrArg (· ++ _) crowd_named
  unfold held
  rw [hnamed]
  rfl

theorem crowd_keys : ((loaded crowdEnv "m" (crowdFs.skillDirs (crowdFs.folders (.ofLoc ["s"])))).map Skill.key).Nodup := by
  have hnames : crowdNames.Nodup := by
    have hascend : (crowdNames ++ ["zz"]).Pairwise (· < ·) := List.isChain_iff_pairwise.mp crowdNames_ascend
    exact (List.pairwise_append.mp hascend).1.imp fun hlt => ne_of_lt hlt
  rw [crowd_loaded, List.map_append, List.map_map]
  show ((crowdNames.map fun n => (n, ["s", n])) ++ [("dup", ["s", "zz", "dup"])]).Nodup
  rw [List.nodup_append]
  refine ⟨hnames.map fun a b h => (Prod.mk.inj h).1, List.nodup_singleton _, ?_⟩
  intro a ha b hb heq
  obtain ⟨n, -, rfl⟩ := List.mem_map.mp ha
  rw [List.mem_singleton.mp hb] at heq
  exact absurd (Prod.mk.inj heq).2 (by simp)

theorem crowd_counted : counted crowdEnv crowdSource = crowdNames.map fun n => crowdSkill ["s", n] n := by
  have hall : (crowdFs.folders (.ofLoc ["s"])).take maxScanDirs = crowdFs.folders (.ofLoc ["s"]) := by
    refine List.take_of_length_le ?_
    rw [crowd_folders, List.length_cons, List.length_append, List.length_map]
    decide +kernel
  have hlength : (crowdNames.map fun n => crowdSkill ["s", n] n).length = maxSkillsPerSource := by
    rw [List.length_map]
    decide +kernel
  calc counted crowdEnv crowdSource
      = (Distinct.firsts Skill.key [] (loaded crowdEnv "m" (crowdFs.skillDirs
          ((crowdFs.folders (.ofLoc ["s"])).take maxScanDirs)))).take maxSkillsPerSource := rfl
    _ = (loaded crowdEnv "m" (crowdFs.skillDirs (crowdFs.folders (.ofLoc ["s"])))).take maxSkillsPerSource := by
        rw [hall, Distinct.firsts_of_nodup crowd_keys fun _ _ => List.not_mem_nil]
    _ = crowdNames.map fun n => crowdSkill ["s", n] n := by
        rw [crowd_loaded]
        exact List.take_left' hlength

theorem crowd_within : within crowdEnv crowdSource "dup" = [crowdSkill ["s", "dup"] "dup"] := by
  have hdir : within crowdEnv crowdSource "dup" = named "dup" (counted crowdEnv crowdSource) := if_pos (crowd_isDir rfl)
  rw [hdir, crowd_counted, crowd_named]

/-- The name is in two folders, and is loaded. -/
theorem crowd_not_precedes :
    (load crowdEnv [crowdSource]).get "dup" = some (crowdSkill ["s", "dup"] "dup") ∧
      (held crowdEnv crowdSource "dup").length = 2 ∧
      ¬ Precedes crowdEnv [crowdSource] "dup" ((load crowdEnv [crowdSource]).get "dup") := by
  have hget : (load crowdEnv [crowdSource]).get "dup" = some (crowdSkill ["s", "dup"] "dup") := by
    rw [load_get, chosen_cons, crowd_within]
  have hfirst : firstHolder crowdEnv "dup" [crowdSource] = none := by rw [firstHolder_cons, crowd_held]
  refine ⟨hget, congrArg List.length crowd_held, ?_⟩
  rw [precedes_iff, hget, hfirst]
  exact Option.some_ne_none _

end AgentRuntime.Skills
