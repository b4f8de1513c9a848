import AgentRuntime.Lib.FileTree
import Mathlib.Tactic

/-!
# `Lib.Dentries` — a file system as the entries of its folders

A folder or a file has a number, and is found through the entries that name it: an entry is a name in a folder and what
it stands for. A rename moves an entry; an entry that is removed or replaced stays known to whoever has it open, but is
no longer live. No two live entries have one place, and the numbers in use are below `next`.

The kernel finds the path of an open entry upwards, from folder to folder (`Disk.path`). For a live entry this is the
path by which a walk from the root comes to it (`path_at`).
-/

namespace Dentries

variable {N L : Type}

/-- What an entry stands for. -/
inductive Obj (L : Type) where
  | folder (d : ℕ)
  | link (target : L)
  | file (ino : ℕ)
  /-- A device, a socket or a pipe. -/
  | special (ino : ℕ)
deriving DecidableEq

def Obj.number : Obj L → Option ℕ
  | .folder d => some d
  | .link _ => none
  | .file ino => some ino
  | .special ino => some ino

def Obj.kind : Obj L → FileTree.Kind L
  | .folder _ => .folder
  | .link target => .link target
  | .file _ => .file
  | .special _ => .file

def Obj.isFolder (d : ℕ) : Obj L → Bool
  | .folder d' => d' == d
  | _ => false

def Obj.isFile (ino : ℕ) : Obj L → Bool
  | .file ino' => ino' == ino
  | _ => false

/-- A name in a folder, and what it stands for. -/
structure Entry (N L : Type) where
  parent : ℕ
  name : N
  obj : Obj L
  live : Bool
deriving DecidableEq

variable [DecidableEq N]

def Entry.isAt (e : Entry N L) (d : ℕ) (n : N) : Bool := e.live && (e.parent == d && e.name == n)

theorem Entry.isAt_iff {e : Entry N L} {d : ℕ} {n : N} : e.isAt d n = true ↔ e.live = true ∧ e.parent = d ∧ e.name = n := by
  simp [isAt]

/-- The entry at this place. -/
def lookup (entries : List (Entry N L)) (d : ℕ) (n : N) : Option ℕ := entries.findIdx? (·.isAt d n)

/-- The root folder has the number 0. -/
structure Disk (N L : Type) [DecidableEq N] where
  entries : List (Entry N L)
  content : ℕ → List UInt8
  next : ℕ
  unique : ∀ (i j : ℕ) (e f : Entry N L) (d : ℕ) (n : N), entries[i]? = some e → entries[j]? = some f →
    e.isAt d n = true → f.isAt d n = true → i = j
  fresh : ∀ e ∈ entries, ∀ k, e.obj.number = some k → k < next

namespace Disk

variable (fs : Disk N L)

def lookup (d : ℕ) (n : N) : Option ℕ := Dentries.lookup fs.entries d n

/-- What stands at this place. -/
def at? (d : ℕ) (n : N) : Option (Obj L) := (fs.entries.find? (·.isAt d n)).map Entry.obj

/-- The folder that the names lead to, none of them a link. -/
def descend : ℕ → List N → Option ℕ
  | d, [] => some d
  | d, n :: rest =>
      match fs.at? d n with
      | some (.folder d') => descend d' rest
      | _ => none

/-- The entry of a folder; that of a folder no longer in the tree is the one it had. -/
def folderEntry (d : ℕ) : Option (Entry N L) :=
  (fs.entries.find? fun e => e.live && e.obj.isFolder d).or (fs.entries.find? fun e => e.obj.isFolder d)

/-- The folders on the way up to the root, with their names, from the root down. -/
def climb : ℕ → ℕ → Option (List (ℕ × N))
  | _, 0 => some []
  | 0, _ + 1 => none
  | k + 1, d + 1 =>
      (fs.folderEntry (d + 1)).bind fun e => (climb k e.parent).map fun up => up ++ [(d + 1, e.name)]

/-- The path of an entry, as the kernel tells it; that of an entry no longer live is marked. -/
def path (mark : N → N) (i : ℕ) : Option (List N) :=
  fs.entries[i]?.bind fun e =>
    (fs.climb fs.entries.length e.parent).map fun up => up.map Prod.snd ++ [if e.live then e.name else mark e.name]

/-- A folder that is still in the tree. -/
def isLinked (d : ℕ) : Bool := d == 0 || fs.entries.any fun e => e.live && e.obj.isFolder d

/-- The entry is live, and so are the folders above it. -/
def inTree (i : ℕ) : Bool :=
  match fs.entries[i]? with
  | some e => e.live && ((fs.climb fs.entries.length e.parent).getD []).all fun f => fs.isLinked f.1
  | none => false

/-- How many entries name a file. -/
def links (ino : ℕ) : ℕ := fs.entries.countP fun e => e.live && e.obj.isFile ino

/-- What is at a location, without following links. -/
def find (loc : List N) : Option (Obj L) :=
  match loc.getLast? with
  | none => some (.folder 0)
  | some n => (fs.descend 0 loc.dropLast).bind fun d => fs.at? d n

def view : FileTree.View N L := fun loc => (fs.find loc).map Obj.kind

/-- A walk from the root through folders comes to this entry. -/
def At (p : List N) (i : ℕ) : Prop := ∃ dir n d, p = dir ++ [n] ∧ fs.descend 0 dir = some d ∧ fs.lookup d n = some i

end Disk

section

variable {fs : Disk N L} {i j d : ℕ} {n : N} {e : Entry N L}

theorem lookup_eq_some {entries : List (Entry N L)} (h : Dentries.lookup entries d n = some i) :
    ∃ e, entries[i]? = some e ∧ e.isAt d n = true := by
  obtain ⟨hlt, hat, -⟩ := List.findIdx?_eq_some_iff_getElem.mp h
  exact ⟨entries[i], List.getElem?_eq_getElem hlt, hat⟩

theorem lookup_eq_none {entries : List (Entry N L)} :
    Dentries.lookup entries d n = none ↔ ∀ e ∈ entries, e.isAt d n = false := by
  rw [Dentries.lookup, List.findIdx?_eq_none_iff]

/-- A live entry is the one found at its place. -/
theorem Disk.lookup_of_isAt (h : fs.entries[i]? = some e) (hat : e.isAt d n = true) : fs.lookup d n = some i := by
  cases hlookup : fs.lookup d n with
  | none =>
      have hnot := lookup_eq_none.mp hlookup e (List.mem_of_getElem? h)
      rw [hat] at hnot
      cases hnot
  | some j =>
      obtain ⟨f, hf, hfat⟩ := lookup_eq_some hlookup
      rw [fs.unique j i f e d n hf h hfat hat]

theorem Disk.at?_of_lookup (h : fs.lookup d n = some i) (hi : fs.entries[i]? = some e) : fs.at? d n = some e.obj := by
  obtain ⟨f, hf, hat⟩ := lookup_eq_some h
  obtain rfl : e = f := Option.some.inj (hi.symm.trans hf)
  unfold Disk.at?
  cases hfind : fs.entries.find? (·.isAt d n) with
  | none => exact absurd hat (by simpa using List.find?_eq_none.mp hfind e (List.mem_of_getElem? hi))
  | some g =>
      -- the first live entry of the place is the only one
      obtain ⟨k, hk⟩ := List.mem_iff_getElem?.mp (List.mem_of_find?_eq_some hfind)
      have hgat : g.isAt d n = true := List.find?_some (p := fun e : Entry N L => e.isAt d n) hfind
      obtain rfl := fs.unique k i g e d n hk hi hgat hat
      rw [Option.some.inj (hk.symm.trans hi)]
      rfl

theorem Disk.descend_concat {dir : List N} {d₀ : ℕ} :
    fs.descend d₀ (dir ++ [n]) = (fs.descend d₀ dir).bind fun d => fs.descend d [n] := by
  induction dir generalizing d₀ with
  | nil => rfl
  | cons m dir ih =>
      rw [List.cons_append, Disk.descend, Disk.descend]
      cases hat : fs.at? d₀ m with
      | none => rfl
      | some o =>
          cases o with
          | folder d' => exact ih
          | link target => rfl
          | file ino => rfl
          | special ino => rfl

theorem Obj.isFolder_iff {o : Obj L} {d : ℕ} : o.isFolder d = true ↔ o = .folder d := by
  cases o with
  | folder d' => simp [Obj.isFolder]
  | link target => simp [Obj.isFolder]
  | file ino => simp [Obj.isFolder]
  | special ino => simp [Obj.isFolder]

/-- The entry of a folder that is in the tree is live. -/
theorem Disk.folderEntry_of_isLinked (hd : d ≠ 0) (h : fs.isLinked d = true) (he : fs.folderEntry d = some e) :
    e ∈ fs.entries ∧ e.live = true ∧ e.obj = .folder d := by
  have hany : (fs.entries.find? fun e => e.live && e.obj.isFolder d).isSome = true := by
    rw [List.find?_isSome]
    simpa [Disk.isLinked, hd] using h
  obtain ⟨f, hf⟩ := Option.isSome_iff_exists.mp hany
  rw [Disk.folderEntry, hf, Option.some_or] at he
  cases he
  have hprop := List.find?_some hf
  simp only [Bool.and_eq_true, Obj.isFolder_iff] at hprop
  exact ⟨List.mem_of_find?_eq_some hf, hprop⟩

/-- The way up, through folders that are in the tree, is a way down. -/
theorem Disk.descend_of_climb {k : ℕ} {up : List (ℕ × N)} (h : fs.climb k d = some up)
    (hlinked : ∀ f ∈ up, fs.isLinked f.1 = true) : fs.descend 0 (up.map Prod.snd) = some d := by
  induction k generalizing d up with
  | zero =>
      cases d with
      | zero =>
          cases h
          rfl
      | succ d => cases h
  | succ k ih =>
      cases d with
      | zero =>
          cases h
          rfl
      | succ d =>
          obtain ⟨e, hentry, h⟩ := Option.bind_eq_some_iff.mp h
          obtain ⟨up', hup, rfl⟩ := Option.map_eq_some_iff.mp h
          obtain ⟨hmem, hlive, hobj⟩ :=
            Disk.folderEntry_of_isLinked (Nat.succ_ne_zero d) 
              (hlinked _ (List.mem_append_right _ (List.mem_singleton_self _))) hentry
          obtain ⟨i, hi⟩ := List.mem_iff_getElem?.mp hmem
          have hat : e.isAt e.parent e.name = true := Entry.isAt_iff.mpr ⟨hlive, rfl, rfl⟩
          have hparent := ih hup fun f hf => hlinked f (List.mem_append_left _ hf)
          rw [List.map_append, List.map_singleton, Disk.descend_concat, hparent]
          show fs.descend e.parent [e.name] = some (d + 1)
          rw [Disk.descend, Disk.at?_of_lookup (Disk.lookup_of_isAt hi hat) hi, hobj]
          rfl

/-- **The path the kernel tells of an entry in the tree leads to it.** -/
theorem Disk.path_at {mark : N → N} {p : List N} (h : fs.path mark i = some p) (hin : fs.inTree i = true) :
    fs.At p i := by
  obtain ⟨e, hi, h⟩ := Option.bind_eq_some_iff.mp h
  obtain ⟨up, hup, rfl⟩ := Option.map_eq_some_iff.mp h
  obtain ⟨hlive, hlinked⟩ : e.live = true ∧ ∀ f ∈ up, fs.isLinked f.1 = true := by
    simpa [Disk.inTree, hi, hup] using hin
  rw [if_pos hlive]
  exact ⟨_, e.name, e.parent, rfl, Disk.descend_of_climb hup hlinked,
    Disk.lookup_of_isAt hi (Entry.isAt_iff.mpr ⟨hlive, rfl, rfl⟩)⟩

end

/-! ## Changes of the tree -/

namespace Disk

/-- A root folder with nothing in it. -/
def empty : Disk N L where
  entries := []
  content _ := []
  next := 1
  unique _ _ _ _ _ _ h := nomatch h
  fresh _ h := nomatch h

variable (fs : Disk N L)

/-- A new entry at a free place. -/
def add (e : Entry N L) (next : ℕ) (hfree : fs.lookup e.parent e.name = none) (hnext : fs.next ≤ next)
    (hobj : ∀ k, e.obj.number = some k → k < next) : Disk N L where
  entries := fs.entries ++ [e]
  content := fs.content
  next := next
  unique i j a b d n ha hb hat hbt := by
    have hold {k : ℕ} {c : Entry N L} (hc : (fs.entries ++ [e])[k]? = some c) :
        fs.entries[k]? = some c ∨ k = fs.entries.length ∧ c = e := by
      rcases lt_trichotomy k fs.entries.length with hlt | rfl | hlt
      · rw [List.getElem?_append_left hlt] at hc
        exact .inl hc
      · rw [List.getElem?_concat_length] at hc
        exact .inr ⟨rfl, (Option.some.inj hc).symm⟩
      · rw [List.getElem?_eq_none (by simp; omega)] at hc
        cases hc
    have hnew {k : ℕ} {c : Entry N L} (hc : fs.entries[k]? = some c) (hct : c.isAt d n = true) : e.isAt d n = false := by
      by_contra hat
      obtain ⟨-, rfl, rfl⟩ := Entry.isAt_iff.mp (Bool.not_eq_false _ ▸ hat)
      have hnot := lookup_eq_none.mp hfree c (List.mem_of_getElem? hc)
      rw [hct] at hnot
      cases hnot
    rcases hold ha with ha' | ⟨rfl, rfl⟩
    · rcases hold hb with hb' | ⟨rfl, rfl⟩
      · exact fs.unique i j a b d n ha' hb' hat hbt
      · rw [hnew ha' hat] at hbt
        cases hbt
    · rcases hold hb with hb' | ⟨rfl, -⟩
      · rw [hnew hb' hbt] at hat
        cases hat
      · rfl
  fresh f hf k hk := by
    rcases List.mem_append.mp hf with hf | hf
    · exact (fs.fresh f hf k hk).trans_le hnext
    · rw [List.mem_singleton.mp hf] at hk
      exact hobj k hk

/-- An entry is changed to one that is not live. -/
def kill (i : ℕ) : Disk N L where
  entries := fs.entries.modify i fun e => { e with live := false }
  content := fs.content
  next := fs.next
  unique a b e f d n ha hb hat hbt := by
    have hold {k : ℕ} {c : Entry N L} (hc : (fs.entries.modify i fun e => { e with live := false })[k]? = some c)
        (hct : c.isAt d n = true) : fs.entries[k]? = some c := by
      rw [List.getElem?_modify] at hc
      obtain ⟨c', hc', rfl⟩ := Option.map_eq_some_iff.mp hc
      split at hct
      · simp [Entry.isAt] at hct
      · rename_i hne
        rw [if_neg hne]
        exact hc'
    exact fs.unique a b e f d n (hold ha hat) (hold hb hbt) hat hbt
  fresh f hf k hk := by
    obtain ⟨j, hj⟩ := List.mem_iff_getElem?.mp hf
    rw [List.getElem?_modify] at hj
    obtain ⟨c, hc, rfl⟩ := Option.map_eq_some_iff.mp hj
    apply fs.fresh c (List.mem_of_getElem? hc) k
    split at hk
    · exact hk
    · exact hk

/-- An entry gets a free place. -/
def move (i : ℕ) (d : ℕ) (n : N) (hfree : fs.lookup d n = none) : Disk N L where
  entries := fs.entries.modify i fun e => { e with parent := d, name := n }
  content := fs.content
  next := fs.next
  unique a b e f d' n' ha hb hat hbt := by
    have hold {k : ℕ} {c : Entry N L} (hc : (fs.entries.modify i fun e => { e with parent := d, name := n })[k]? = some c)
        (hct : c.isAt d' n' = true) : k = i ∧ d = d' ∧ n = n' ∨ k ≠ i ∧ fs.entries[k]? = some c := by
      rw [List.getElem?_modify] at hc
      obtain ⟨c', hc', rfl⟩ := Option.map_eq_some_iff.mp hc
      by_cases hki : i = k
      · rw [if_pos hki] at hct
        obtain ⟨-, hd, hn⟩ := Entry.isAt_iff.mp hct
        exact .inl ⟨hki.symm, hd, hn⟩
      · rw [if_neg hki]
        exact .inr ⟨Ne.symm hki, hc'⟩
    have hnot {k : ℕ} {c : Entry N L} (hc : fs.entries[k]? = some c) : c.isAt d n = false :=
      lookup_eq_none.mp hfree c (List.mem_of_getElem? hc)
    rcases hold ha hat with ⟨rfl, rfl, rfl⟩ | ⟨-, ha'⟩
    · rcases hold hb hbt with ⟨rfl, -, -⟩ | ⟨-, hb'⟩
      · rfl
      · rw [hnot hb'] at hbt
        cases hbt
    · rcases hold hb hbt with ⟨rfl, rfl, rfl⟩ | ⟨-, hb'⟩
      · rw [hnot ha'] at hat
        cases hat
      · exact fs.unique a b e f d' n' ha' hb' hat hbt
  fresh f hf k hk := by
    obtain ⟨j, hj⟩ := List.mem_iff_getElem?.mp hf
    rw [List.getElem?_modify] at hj
    obtain ⟨c, hc, rfl⟩ := Option.map_eq_some_iff.mp hj
    apply fs.fresh c (List.mem_of_getElem? hc) k
    split at hk
    · exact hk
    · exact hk

/-- The content of a file. -/
def write (ino : ℕ) (bytes : List UInt8) : Disk N L := { fs with content := Function.update fs.content ino bytes }

theorem lookup_kill {i : ℕ} {d : ℕ} {n : N} (h : fs.lookup d n = some i) : (fs.kill i).lookup d n = none := by
  rw [Disk.lookup, lookup_eq_none]
  intro e he
  obtain ⟨k, hk⟩ := List.mem_iff_getElem?.mp he
  have hk' : (fs.entries.modify i fun e => { e with live := false })[k]? = some e := hk
  rw [List.getElem?_modify] at hk'
  obtain ⟨c, hc, rfl⟩ := Option.map_eq_some_iff.mp hk'
  by_cases hki : i = k
  · simp [hki, Entry.isAt]
  · rw [if_neg hki]
    by_contra hat
    obtain ⟨f, hf, hfat⟩ := lookup_eq_some h
    exact hki (fs.unique i k f c d n hf hc hfat (Bool.not_eq_false _ ▸ hat))

/-- A new entry with a number of its own, when the place is free and the folder in the tree. -/
def addNew (d : ℕ) (n : N) (obj : ℕ → Obj L) (hobj : ∀ k m, (obj m).number = some k → k = m) : Option (Disk N L) :=
  if hfree : fs.lookup d n = none then
    if fs.isLinked d then
      some (fs.add ⟨d, n, obj fs.next, true⟩ (fs.next + 1) hfree (Nat.le_succ _) fun k hk =>
        (hobj k fs.next hk).trans_lt (Nat.lt_succ_self _))
    else none
  else none

def createFile (d : ℕ) (n : N) : Option (Disk N L) :=
  (fs.addNew d n .file fun _ _ h => (Option.some.inj h).symm).map fun fs' => fs'.write fs.next []

def mkdir (d : ℕ) (n : N) : Option (Disk N L) := fs.addNew d n .folder fun _ _ h => (Option.some.inj h).symm

def mkspecial (d : ℕ) (n : N) : Option (Disk N L) := fs.addNew d n .special fun _ _ h => (Option.some.inj h).symm

def symlink (target : L) (d : ℕ) (n : N) : Option (Disk N L) := fs.addNew d n (fun _ => .link target) fun _ _ h => nomatch h

/-- Another name for a file that has one. -/
def hardLink (ino d : ℕ) (n : N) : Option (Disk N L) :=
  if hfree : fs.lookup d n = none then
    if hino : ino < fs.next then
      if fs.isLinked d && fs.links ino != 0 then
        some (fs.add ⟨d, n, .file ino, true⟩ fs.next hfree le_rfl fun _ hk => (Option.some.inj hk) ▸ hino)
      else none
    else none
  else none

/-- Remove a name that is no folder's. -/
def unlink (d : ℕ) (n : N) : Option (Disk N L) :=
  match fs.lookup d n, fs.at? d n with
  | some _, some (.folder _) => none
  | some i, _ => some (fs.kill i)
  | none, _ => none

def isEmpty (d : ℕ) : Bool := fs.entries.all fun e => !(e.live && e.parent == d)

/-- `moved` may replace `target`: a folder only an empty folder, and no folder goes below itself. -/
def mayReplace (moved : Obj L) (target : Option (Obj L)) (d : ℕ) : Bool :=
  match moved, target with
  | .folder a, some (.folder b) => fs.isEmpty b && !below a
  | .folder a, none => !below a
  | .folder _, some _ => false
  | _, some (.folder _) => false
  | .file a, some (.file b) => a != b
  | _, _ => true
where
  below (a : ℕ) : Bool := a == d || ((fs.climb fs.entries.length d).getD []).any fun f => f.1 == a

/-- A rename, over what is at the new place. -/
def rename (d₁ : ℕ) (n₁ : N) (d₂ : ℕ) (n₂ : N) : Option (Disk N L) :=
  match fs.lookup d₁ n₁, fs.at? d₁ n₁ with
  | some i, some moved =>
      if fs.isLinked d₂ && fs.mayReplace moved (fs.at? d₂ n₂) d₂ then
        match h : fs.lookup d₂ n₂ with
        | none => some (fs.move i d₂ n₂ h)
        | some j => if i = j then none else some ((fs.kill j).move i d₂ n₂ (fs.lookup_kill h))
      else none
  | _, _ => none

end Disk

/-- What a process may do to the tree. -/
inductive Op (N L : Type) where
  | createFile (d : ℕ) (n : N)
  | mkdir (d : ℕ) (n : N)
  | mkspecial (d : ℕ) (n : N)
  | symlink (target : L) (d : ℕ) (n : N)
  | hardLink (ino d : ℕ) (n : N)
  | unlink (d : ℕ) (n : N)
  | rename (d₁ : ℕ) (n₁ : N) (d₂ : ℕ) (n₂ : N)
  | write (ino : ℕ) (bytes : List UInt8)

/-- An operation that is refused changes nothing. -/
def Op.apply (fs : Disk N L) (op : Op N L) : Disk N L :=
  let changed := match op with
    | .createFile d n => fs.createFile d n
    | .mkdir d n => fs.mkdir d n
    | .mkspecial d n => fs.mkspecial d n
    | .symlink target d n => fs.symlink target d n
    | .hardLink ino d n => fs.hardLink ino d n
    | .unlink d n => fs.unlink d n
    | .rename d₁ n₁ d₂ n₂ => fs.rename d₁ n₁ d₂ n₂
    | .write ino bytes => some (fs.write ino bytes)
  changed.getD fs

end Dentries
