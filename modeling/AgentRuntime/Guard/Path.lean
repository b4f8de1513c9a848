import AgentRuntime.Lib.FileTree
import Mathlib.Data.List.DropRight

/-!
# `Guard.Path` — path texts (`std::path` on Unix)

A path is its text; `components` is what it is made of, where the guard steps over `.`. A resolved location is kept
as the list of its names, and `text` writes it. `NormalName` is what a component can be, and `PlainText` a text
without a backslash or NUL.
-/

namespace AgentRuntime.Guard

open FileTree

/-! ## Path texts -/

def hasRoot (p : String) : Bool := p.toList.head? == some '/'

/-- What a piece of a path between slashes stands for. -/
def component (piece : List Char) : Option (Comp String) :=
  if piece = [] ∨ piece = ['.'] then none
  else if piece = ['.', '.'] then some .up
  else some (.name (String.ofList piece))

/-- `Path::components`, without the root and without `.`. -/
def components (p : String) : List (Comp String) := (p.toList.splitOn '/').filterMap component

/-- `Path::join`: a path with a root replaces the one before it. -/
def join (p q : String) : String :=
  if hasRoot q then q
  else if p.toList = [] ∨ p.toList.getLast? = some '/' then p ++ q
  else p ++ "/" ++ q

/-- What a link target or a request means. -/
def route (p : String) : Route String where
  rooted := hasRoot p
  comps := components p

/-! ## Locations -/

/-- A path without `.` and `..`, from the root unless it is relative. -/
structure Location where
  rooted : Bool
  names : List String
deriving DecidableEq

namespace Location

def push (l : Location) (n : String) : Location := { l with names := l.names ++ [n] }

/-- `PathBuf::pop`; nothing is above the root. -/
def pop (l : Location) : Location := { l with names := l.names.dropLast }

def text (l : Location) : String :=
  if l.rooted then
    if l.names = [] then "/" else String.ofList (l.names.flatMap fun n => '/' :: n.toList)
  else "/".intercalate l.names

def fileName (l : Location) : Option String := l.names.getLast?

end Location

/-- One component, without looking at any file. -/
def Location.go (l : Location) : Comp String → Location
  | .up => l.pop
  | .name n => l.push n

/-- A path taken by its components alone. -/
def lexical (p : String) : Location := (components p).foldl Location.go { rooted := hasRoot p, names := [] }

/-! ## What components are -/

/-- A name a component can have. -/
structure NormalName (n : String) : Prop where
  nonempty : n.toList ≠ []
  notDot : n.toList ≠ ['.']
  notDotDot : n.toList ≠ ['.', '.']
  noSlash : '/' ∉ n.toList

/-- Neither a backslash nor NUL. -/
def PlainText (s : String) : Prop := '\\' ∉ s.toList ∧ '\x00' ∉ s.toList

theorem component_toList {n : String} (h : NormalName n) : component n.toList = some (.name n) := by
  unfold component
  rw [if_neg (not_or.mpr ⟨h.nonempty, h.notDot⟩), if_neg h.notDotDot, String.ofList_toList]

/-- A piece of a split list holds elements of the list, none of them the separator. -/
theorem mem_of_mem_splitOn {s piece : List Char} {sep : Char} (h : piece ∈ s.splitOn sep) :
    ∀ c ∈ piece, c ∈ s ∧ c ≠ sep := by
  induction s generalizing piece with
  | nil =>
      rw [List.splitOn_nil, List.mem_singleton] at h
      subst h
      intro c hc
      cases hc
  | cons x s ih =>
      rw [List.splitOn_cons_eq_if_modifyHead] at h
      split at h
      · rcases List.mem_cons.mp h with rfl | h
        · intro c hc
          cases hc
        · intro c hc
          exact ⟨List.mem_cons_of_mem _ (ih h c hc).1, (ih h c hc).2⟩
      · rename_i hne
        cases hsplit : s.splitOn sep with
        | nil => exact absurd hsplit (List.splitOn_ne_nil _ _)
        | cons first rest =>
            rw [hsplit, List.modifyHead_cons] at h
            rcases List.mem_cons.mp h with rfl | h
            · intro c hc
              rcases List.mem_cons.mp hc with rfl | hc
              · exact ⟨List.mem_cons_self .., fun heq => hne (by rw [heq]; exact beq_self_eq_true _)⟩
              · have hfirst := ih (by rw [hsplit]; exact List.mem_cons_self ..) c hc
                exact ⟨List.mem_cons_of_mem _ hfirst.1, hfirst.2⟩
            · intro c hc
              have hrest := ih (by rw [hsplit]; exact List.mem_cons_of_mem _ h) c hc
              exact ⟨List.mem_cons_of_mem _ hrest.1, hrest.2⟩

/-- A name among the components of a path is a piece of it that a component can have. -/
theorem name_mem_components {p n : String} (h : .name n ∈ components p) :
    NormalName n ∧ ∀ c ∈ n.toList, c ∈ p.toList := by
  obtain ⟨piece, hpiece, hn⟩ := List.mem_filterMap.mp h
  have hchars := mem_of_mem_splitOn hpiece
  unfold component at hn
  split at hn
  · cases hn
  · rename_i hkept
    split at hn
    · cases hn
    · rename_i hnotDotDot
      cases hn
      obtain ⟨hnonempty, hnotDot⟩ := not_or.mp hkept
      rw [String.toList_ofList]
      refine ⟨⟨?_, ?_, ?_, ?_⟩, fun c hc => (hchars c hc).1⟩
      · rwa [String.toList_ofList]
      · rwa [String.toList_ofList]
      · rwa [String.toList_ofList]
      · rw [String.toList_ofList]
        exact fun hslash => (hchars '/' hslash).2 rfl

/-! ## What a location's text is made of -/

theorem hasRoot_text {l : Location} (h : l.rooted = true) : hasRoot l.text = true := by
  unfold hasRoot Location.text
  rw [h, if_pos rfl]
  split
  · rfl
  · rename_i hnames
    obtain ⟨n, names, heq⟩ := List.exists_cons_of_ne_nil hnames
    rw [heq, String.toList_ofList]
    rfl

theorem filterMap_pieces {names : List String} (h : ∀ n ∈ names, NormalName n) :
    ((names.flatMap fun n => '/' :: n.toList).splitOn '/').filterMap component = names.map .name := by
  have hcut : ∀ pre : List Char, '/' ∉ pre →
      (pre ++ names.flatMap fun n => '/' :: n.toList).splitOn '/' = pre :: names.map String.toList := by
    induction names with
    | nil =>
        intro pre hpre
        rw [List.flatMap_nil, List.append_nil, List.splitOn_eq_singleton hpre]
        rfl
    | cons n names ih =>
        intro pre hpre
        rw [List.flatMap_cons, List.cons_append, List.splitOn_append_cons_self_of_not_mem hpre,
          ih (fun m hm => h m (List.mem_cons_of_mem _ hm)) n.toList (h n (List.mem_cons_self ..)).noSlash]
        rfl
  have hempty := hcut [] (List.not_mem_nil)
  rw [List.nil_append] at hempty
  rw [hempty, List.filterMap_cons_none rfl, List.filterMap_map]
  clear hcut hempty
  induction names with
  | nil => rfl
  | cons n names ih =>
      have hname : (component ∘ String.toList) n = some (.name n) := component_toList (h n (List.mem_cons_self ..))
      rw [List.filterMap_cons_some hname, List.map_cons, ih fun m hm => h m (List.mem_cons_of_mem _ hm)]

theorem components_text {l : Location} (hrooted : l.rooted = true) (h : ∀ n ∈ l.names, NormalName n) :
    components l.text = l.names.map .name := by
  unfold components Location.text
  rw [hrooted, if_pos rfl]
  split
  · rename_i hnames
    rw [hnames]
    rfl
  · rw [String.toList_ofList]
    exact filterMap_pieces h

theorem lexical_text {l : Location} (hrooted : l.rooted = true) (h : ∀ n ∈ l.names, NormalName n) :
    lexical l.text = l := by
  have hpush : ∀ (names : List String) (l : Location),
      (names.map Comp.name).foldl Location.go l = { l with names := l.names ++ names } := by
    intro names
    induction names with
    | nil =>
        intro l
        rw [List.append_nil]
        rfl
    | cons n names ih =>
        intro l
        rw [List.map_cons, List.foldl_cons, ih]
        show Location.mk l.rooted (l.names ++ [n] ++ names) = _
        rw [List.append_assoc]
        rfl
  unfold lexical
  rw [components_text hrooted h, hasRoot_text hrooted, hpush]
  show Location.mk true ([] ++ l.names) = l
  rw [List.nil_append, ← hrooted]

theorem plainText_text {l : Location} (hrooted : l.rooted = true) (h : ∀ n ∈ l.names, PlainText n) :
    PlainText l.text := by
  have hchars : ∀ c ∈ l.text.toList, c = '/' ∨ ∃ n ∈ l.names, c ∈ n.toList := by
    intro c hc
    unfold Location.text at hc
    rw [hrooted, if_pos rfl] at hc
    split at hc
    · exact .inl (List.mem_singleton.mp hc)
    · rw [String.toList_ofList, List.mem_flatMap] at hc
      obtain ⟨n, hn, hc⟩ := hc
      rcases List.mem_cons.mp hc with hslash | hc
      · exact .inl hslash
      · exact .inr ⟨n, hn, hc⟩
  constructor
  · intro hc
    rcases hchars _ hc with hslash | ⟨n, hn, hc⟩
    · cases hslash
    · exact (h n hn).1 hc
  · intro hc
    rcases hchars _ hc with hslash | ⟨n, hn, hc⟩
    · cases hslash
    · exact (h n hn).2 hc

/-- A path without a root is appended. -/
theorem components_join (p : String) {q : String} (hq : hasRoot q = false) :
    components (join p q) = components p ++ components q := by
  unfold join components
  rw [hq, if_neg Bool.false_ne_true]
  split
  · rename_i hends
    rw [String.toList_append]
    rcases hends with hempty | hslash
    · rw [hempty]
      rfl
    · obtain ⟨pre, hpre⟩ := List.getLast?_eq_some_iff.mp hslash
      rw [hpre, List.append_assoc]
      show (List.splitOn '/' (pre ++ '/' :: q.toList)).filterMap component =
        (List.splitOn '/' (pre ++ '/' :: [])).filterMap component ++ _
      rw [List.splitOn_append_cons_self, List.splitOn_append_cons_self, List.filterMap_append,
        List.filterMap_append]
      show _ = (_ ++ []) ++ _
      rw [List.append_nil]
  · rw [String.toList_append, String.toList_append, List.append_assoc]
    show (List.splitOn '/' (p.toList ++ '/' :: q.toList)).filterMap component = _
    rw [List.splitOn_append_cons_self, List.filterMap_append]

theorem hasRoot_join {p : String} (hp : hasRoot p = true) (q : String) : hasRoot (join p q) = true := by
  have hhead : ∀ r : String, hasRoot (p ++ r) = true := by
    intro r
    unfold hasRoot at hp ⊢
    rw [String.toList_append, List.head?_append, eq_of_beq hp]
    rfl
  unfold join
  split
  · assumption
  · split
    · exact hhead q
    · rw [String.append_assoc]
      exact hhead _

end AgentRuntime.Guard
