import AgentRuntime.Toolchain.Sources

/-!
# `Toolchain.SourceDigest` — which trees share a digest

A digest names the bytes, and the bytes name the sources up to the place where a link's target ends: two projects share
a digest and differ exactly when the one is the other with such places moved (`sources_named_iff`).
-/

namespace AgentRuntime.Toolchain

open Json Words

/-! ## Sources that were read -/

inductive Content where
  | file (bytes : List UInt8)
  | link (target : Target)
deriving DecidableEq

structure Source where
  rel : String
  content : Content
deriving DecidableEq

def Found.source (f : Found) : Option Source :=
  match f.node with
  | .file (some bytes) => some ⟨f.rel, .file bytes⟩
  | .link (some target) => some ⟨f.rel, .link target⟩
  | _ => none

/-- The relative paths and contents that are not skipped. -/
def sourceSet (project : Node) : Set Source := {s | ∃ f ∈ project.sources [], f.source = some s}

/-- The sources in the order of their paths. -/
def ordered (project : Node) : List Source := (sorted (project.sources [])).filterMap Found.source

/-- The sources as they are written. -/
def encode : List Source → List UInt8
  | [] => []
  | ⟨rel, .file bytes⟩ :: rest => utf8 rel ++ 0 :: (beBytes 8 bytes.length ++ (bytes ++ encode rest))
  | ⟨rel, .link target⟩ :: rest => utf8 rel ++ 0 :: (utf8 "->" ++ (utf8 target.text ++ encode rest))

/-- What is relied on to read them back: no NUL in a path, and no file over the bound. -/
def Source.Plain (s : Source) : Prop :=
  0 ∉ utf8 s.rel ∧ ∀ bytes, s.content = .file bytes → bytes.length ≤ maxSourceBytes

theorem ofNat_add_ne_zero {a k : ℕ} (hk : 0 < k) (h : a + k < 256) : 0 ≠ UInt8.ofNat a + UInt8.ofNat k := by
  intro hzero
  have hnat := congrArg UInt8.toNat hzero
  rw [UInt8.toNat_add, UInt8.toNat_ofNat', UInt8.toNat_ofNat', Nat.mod_eq_of_lt (by omega : a < 2 ^ 8),
    Nat.mod_eq_of_lt (by omega : k < 2 ^ 8), Nat.mod_eq_of_lt (by omega : a + k < 2 ^ 8)] at hnat
  have hzero : (0 : UInt8).toNat = 0 := rfl
  omega

/-- No other character has a NUL among its bytes. -/
theorem zero_not_mem_encodeChar {c : Char} (h : c ≠ '\x00') : 0 ∉ String.utf8EncodeChar c := by
  have hone {a : ℕ} (ha : a < 64) : 0 ≠ UInt8.ofNat a + 128 := ofNat_add_ne_zero (k := 128) (by decide) (by omega)
  unfold String.utf8EncodeChar
  simp only
  split
  · rename_i hv
    intro hm
    rw [List.mem_singleton] at hm
    apply h
    apply Char.toNat_inj.mp
    have hnat := congrArg UInt8.toNat hm
    rw [UInt8.toNat_ofNat', Nat.mod_eq_of_lt (by omega)] at hnat
    exact hnat.symm
  · split
    · have hhead : ∀ a < 32, 0 ≠ UInt8.ofNat a + 192 := fun a ha => ofNat_add_ne_zero (k := 192) (by decide) (by omega)
      simp [hhead _ (Nat.mod_lt _ _), hone (Nat.mod_lt _ _)]
    · split
      · have hhead : ∀ a < 16, 0 ≠ UInt8.ofNat a + 224 := fun a ha => ofNat_add_ne_zero (k := 224) (by decide) (by omega)
        simp [hhead _ (Nat.mod_lt _ _), hone (Nat.mod_lt _ _)]
      · have hhead : ∀ a < 8, 0 ≠ UInt8.ofNat a + 240 := fun a ha => ofNat_add_ne_zero (k := 240) (by decide) (by omega)
        simp [hhead _ (Nat.mod_lt _ _), hone (Nat.mod_lt _ _)]

theorem zero_not_mem_utf8 {s : String} (h : '\x00' ∉ s.toList) : 0 ∉ utf8 s := by
  have hchars : utf8 s = s.toList.flatMap String.utf8EncodeChar := by
    have hofList : utf8 (String.ofList s.toList) = s.toList.flatMap String.utf8EncodeChar := by
      unfold utf8
      rw [String.toByteArray_ofList]
      simp [List.utf8Encode]
    rwa [String.ofList_toList] at hofList
  rw [hchars]
  intro hmem
  obtain ⟨c, hc, hzero⟩ := List.mem_flatMap.mp hmem
  exact zero_not_mem_encodeChar (fun hnul => h (hnul ▸ hc)) hzero

theorem Found.zero_not_mem_rel (f : Found) : 0 ∉ utf8 f.rel := by
  apply zero_not_mem_utf8
  rw [rel_eq, String.toList_ofList]
  apply not_mem_intercalate (by decide)
  intro l hl
  obtain ⟨n, -, rfl⟩ := List.mem_map.mp hl
  exact n.plain.2.1

/-- What is hashed is what the sources are written as. -/
theorem hashInto_eq_some {files : List Found} {total : ℕ} {bytes : List UInt8} (h : hashInto total files = some bytes) :
    bytes = encode (files.filterMap Found.source) ∧ (∀ s ∈ files.filterMap Found.source, s.Plain) ∧
      ∀ f ∈ files, f.source.isSome = true := by
  induction files generalizing total bytes with
  | nil =>
      cases h
      exact ⟨rfl, by simp, by simp⟩
  | cons f rest ih =>
      obtain ⟨path, node⟩ := f
      cases node with
      | file content =>
          cases content with
          | none => cases h
          | some content =>
              simp only [hashInto] at h
              split at h
              · cases h
              · rename_i hbound
                obtain ⟨more, hmore, rfl⟩ := Option.map_eq_some_iff.mp h
                obtain ⟨rfl, hplain, hread⟩ := ih hmore
                refine ⟨rfl, ?_, ?_⟩
                · rintro s (_ | ⟨_, hs⟩)
                  · refine ⟨Found.zero_not_mem_rel _, ?_⟩
                    rintro bytes ⟨⟩
                    omega
                  · exact hplain s hs
                · rintro f (_ | ⟨_, hf⟩)
                  · rfl
                  · exact hread f hf
      | link target =>
          cases target with
          | none => cases h
          | some target =>
              simp only [hashInto] at h
              obtain ⟨more, hmore, rfl⟩ := Option.map_eq_some_iff.mp h
              obtain ⟨rfl, hplain, hread⟩ := ih hmore
              refine ⟨rfl, ?_, ?_⟩
              · rintro s (_ | ⟨_, hs⟩)
                · refine ⟨Found.zero_not_mem_rel _, ?_⟩
                  rintro bytes ⟨⟩
                · exact hplain s hs
              · rintro f (_ | ⟨_, hf⟩)
                · rfl
                · exact hread f hf
      | dir readable entries => cases h
      | special => cases h

/-! ## The same text, cut in other places -/

/-- The same text: kinds and file contents are the same in each place, and so is each text from the start of a link's
    target, or from the start, to the end of the next path. `before` is what was read of that text. -/
inductive SameText : List UInt8 → List Source → List UInt8 → List Source → Prop
  | nil {before : List UInt8} : SameText before [] before []
  | file {before before' : List UInt8} {rel rel' : String} {bytes : List UInt8} {rest rest' : List Source}
      (htext : before ++ utf8 rel = before' ++ utf8 rel') (hrest : SameText [] rest [] rest') :
      SameText before (⟨rel, .file bytes⟩ :: rest) before' (⟨rel', .file bytes⟩ :: rest')
  | link {before before' : List UInt8} {rel rel' : String} {target target' : Target} {rest rest' : List Source}
      (htext : before ++ utf8 rel = before' ++ utf8 rel')
      (hrest : SameText (utf8 target.text) rest (utf8 target'.text) rest') :
      SameText before (⟨rel, .link target⟩ :: rest) before' (⟨rel', .link target'⟩ :: rest')

theorem cut_eq {u v r s : List UInt8} (hu : 0 ∉ u) (hv : 0 ∉ v) (h : u ++ 0 :: r = v ++ 0 :: s) : u = v ∧ r = s := by
  have hfree : PrefixCode.PrefixFree fun u : {u : List UInt8 // 0 ∉ u} => u.1 ++ [0] :=
    PrefixCode.prefixFree_terminated Subtype.val_injective fun u => u.2
  obtain ⟨huv, hrs⟩ := hfree ⟨u, hu⟩ ⟨v, hv⟩ r s (by simpa using h)
  exact ⟨congrArg Subtype.val huv, hrs⟩

/-- The length of a file within the bound begins with a NUL. -/
theorem beBytes_bounded {n : ℕ} (h : n ≤ maxSourceBytes) : ∃ rest, beBytes 8 n = 0 :: rest := by
  refine ⟨beBytes 7 n, ?_⟩
  have hzero : n / 256 ^ 7 = 0 := Nat.div_eq_of_lt (lt_of_le_of_lt h (by decide))
  rw [beBytes, hzero]
  rfl

/-- **Reading back.** Two lists are written alike exactly when they are the same text. -/
theorem encode_eq_iff {sources sources' : List Source} (hplain : ∀ s ∈ sources, s.Plain)
    (hplain' : ∀ s ∈ sources', s.Plain) {before before' : List UInt8} (hb : 0 ∉ before) (hb' : 0 ∉ before') :
    before ++ encode sources = before' ++ encode sources' ↔ SameText before sources before' sources' := by
  have htext {before : List UInt8} (hb : 0 ∉ before) {s : Source} (hs : s.Plain) : 0 ∉ before ++ utf8 s.rel :=
    fun hmem => (List.mem_append.mp hmem).elim hb hs.1
  have hnil : (0 : UInt8) ∉ ([] : List UInt8) := List.not_mem_nil
  have harrow : utf8 "->" = [45, 62] := by decide
  constructor
  · intro h
    induction sources generalizing sources' before before' with
    | nil =>
        cases sources' with
        | nil =>
            have hsame : before = before' := by simpa [encode] using h
            rw [hsame]
            exact .nil
        | cons s' rest' =>
            -- on the left there is no NUL
            exfalso
            apply hb
            have hzero : (0 : UInt8) ∈ before' ++ encode (s' :: rest') := by
              obtain ⟨rel', content'⟩ := s'
              cases content' <;> simp [encode]
            rw [← h] at hzero
            simpa [encode] using hzero
    | cons s rest ih =>
        have hs := hplain s (List.mem_cons_self ..)
        have hrest := fun t ht => hplain t (List.mem_cons_of_mem _ ht)
        cases sources' with
        | nil =>
            exfalso
            apply hb'
            have hzero : (0 : UInt8) ∈ before ++ encode (s :: rest) := by
              obtain ⟨rel, content⟩ := s
              cases content <;> simp [encode]
            rw [h] at hzero
            simpa [encode] using hzero
        | cons s' rest' =>
            have hs' := hplain' s' (List.mem_cons_self ..)
            have hrest' := fun t ht => hplain' t (List.mem_cons_of_mem _ ht)
            obtain ⟨rel, content⟩ := s
            obtain ⟨rel', content'⟩ := s'
            cases content with
            | file bytes =>
                obtain ⟨low, hlow⟩ := beBytes_bounded (hs.2 bytes rfl)
                cases content' with
                | file bytes' =>
                    simp only [encode, ← List.append_assoc before, ← List.append_assoc before'] at h
                    obtain ⟨hsame, hbody⟩ := cut_eq (htext hb hs) (htext hb' hs') h
                    have hsmall {n : ℕ} (hn : n ≤ maxSourceBytes) : n < 256 ^ 8 := lt_of_le_of_lt hn (by decide)
                    obtain ⟨hlength, hbody⟩ := List.append_inj hbody (by simp)
                    have hlength : bytes.length = bytes'.length := beBytes_inj (hsmall (hs.2 _ rfl)) (hsmall (hs'.2 _ rfl)) hlength
                    obtain ⟨rfl, hbody⟩ := List.append_inj hbody hlength
                    exact .file hsame (ih hrest hrest' hnil hnil (by simpa using hbody))
                | link target' =>
                    simp only [encode, ← List.append_assoc before, ← List.append_assoc before'] at h
                    obtain ⟨-, hbody⟩ := cut_eq (htext hb hs) (htext hb' hs') h
                    rw [hlow, harrow] at hbody
                    cases hbody
            | link target =>
                cases content' with
                | file bytes' =>
                    obtain ⟨low, hlow⟩ := beBytes_bounded (hs'.2 bytes' rfl)
                    simp only [encode, ← List.append_assoc before, ← List.append_assoc before'] at h
                    obtain ⟨-, hbody⟩ := cut_eq (htext hb hs) (htext hb' hs') h
                    rw [hlow, harrow] at hbody
                    cases hbody
                | link target' =>
                    simp only [encode, ← List.append_assoc before, ← List.append_assoc before'] at h
                    obtain ⟨hsame, hbody⟩ := cut_eq (htext hb hs) (htext hb' hs') h
                    have hbody := List.append_cancel_left hbody
                    exact .link hsame (ih hrest hrest' (zero_not_mem_utf8 target.plain) (zero_not_mem_utf8 target'.plain) hbody)
  · intro h
    induction h with
    | nil => rfl
    | file htext _ ih =>
        have ih := ih (fun t ht => hplain t (List.mem_cons_of_mem _ ht))
          (fun t ht => hplain' t (List.mem_cons_of_mem _ ht)) hnil hnil
        simp only [encode, ← List.append_assoc, htext]
        simp only [List.nil_append] at ih
        rw [ih]
    | @link _ _ _ _ target target' _ _ htext _ ih =>
        have ih := ih (fun t ht => hplain t (List.mem_cons_of_mem _ ht))
          (fun t ht => hplain' t (List.mem_cons_of_mem _ ht)) (zero_not_mem_utf8 target.plain)
          (zero_not_mem_utf8 target'.plain)
        simp only [encode]
        rw [ih, ← List.append_assoc, htext, List.append_assoc]

/-! ## The digest -/

/-- Where the links point, in the order of their paths. -/
def linkTargets (sources : List Source) : List Target :=
  sources.filterMap fun s =>
    match s.content with
    | .link target => some target
    | .file _ => none

/-- The same text in which some target ends elsewhere. -/
def Recut (sources sources' : List Source) : Prop :=
  SameText [] sources [] sources' ∧ linkTargets sources ≠ linkTargets sources'

/-- The same text with the same targets is the same list. -/
theorem SameText.eq {before before' : List UInt8} {sources sources' : List Source}
    (h : SameText before sources before' sources') (hbefore : before = before')
    (htargets : linkTargets sources = linkTargets sources') : sources = sources' := by
  induction h with
  | nil => rfl
  | file htext _ ih =>
      subst hbefore
      rw [utf8_injective (List.append_cancel_left htext), ih rfl htargets]
  | link htext _ ih =>
      subst hbefore
      obtain ⟨rfl, hothers⟩ := List.cons.inj htargets
      rw [utf8_injective (List.append_cancel_left htext), ih rfl hothers]

/-- A project whose sources were all read. -/
theorem mem_ordered {project : Node} {s : Source} : s ∈ ordered project ↔ s ∈ sourceSet project := by
  unfold ordered sourceSet
  rw [List.mem_filterMap]
  constructor
  · rintro ⟨f, hf, hs⟩
    exact ⟨f, (sorted_perm _).mem_iff.mp hf, hs⟩
  · rintro ⟨f, hf, hs⟩
    exact ⟨f, (sorted_perm _).mem_iff.mpr hf, hs⟩

/-- The bytes of a project are its sources, written in the order of their paths. -/
theorem hashed_encode {project : Node} (hlisted : project.Listed) {bytes : List UInt8} (h : hashed project = some bytes) :
    bytes = encode (ordered project) ∧ ∀ s ∈ ordered project, s.Plain :=
  let ⟨hbytes, hplain, _⟩ := hashInto_eq_some (hashed_eq hlisted h)
  ⟨hbytes, hplain⟩

theorem Found.rel_of_source {f : Found} {s : Source} (h : f.source = some s) : s.rel = f.rel := by
  unfold source at h
  split at h
  · cases h
    rfl
  · cases h
    rfl
  · cases h

/-- The sources in order have ever greater paths. -/
theorem ordered_ascending {project : Node} (hlisted : project.Listed) :
    (ordered project).Pairwise fun s t => s.rel < t.rel := by
  have hle := sorted_pairwise (project.sources [])
  have hne : (sorted (project.sources [])).Pairwise fun f g => f.path ≠ g.path :=
    List.pairwise_map.mp (((sorted_perm _).map Found.path).nodup_iff.mpr (project.sources_nodup [] hlisted))
  apply (hle.and hne).filterMap
  intro f g hfg s hs t ht
  rw [Found.rel_of_source hs, Found.rel_of_source ht]
  exact lt_of_le_of_ne hfg.1 fun hrel => hfg.2 (Found.path_eq_of_rel hrel)

/-- Sources in order are their set. -/
theorem ordered_eq_of_sourceSet_eq {p q : Node} (hp : p.Listed) (hq : q.Listed) (h : sourceSet p = sourceSet q) :
    ordered p = ordered q := by
  have hnodup {project : Node} (hlisted : project.Listed) : (ordered project).Nodup :=
    (ordered_ascending hlisted).imp fun {s t} (hlt : s.rel < t.rel) => by
      rintro rfl
      exact lt_irrefl _ hlt
  have hperm : (ordered p).Perm (ordered q) := by
    rw [List.perm_ext_iff_of_nodup (hnodup hp) (hnodup hq)]
    intro s
    rw [mem_ordered, mem_ordered, h]
  apply hperm.eq_of_pairwise _ (ordered_ascending hp) (ordered_ascending hq)
  intro s t _ _ hst hts
  exact absurd hst (lt_asymm hts)

/-- **What the digest names.** When no two byte strings at hand share a digest, projects that share one have the same
    sources exactly when their sources are not one text cut in different places. -/
theorem sources_named_iff (sha256 : List UInt8 → Digest) (p q : Node) (hp : p.Listed) (hq : q.Listed)
    (bytes bytes' : List UInt8) (hbytes : hashed p = some bytes) (hbytes' : hashed q = some bytes')
    (hcf : CollisionFreeOn sha256 [bytes, bytes']) :
    (sourcesSha256 sha256 p = sourcesSha256 sha256 q → sourceSet p = sourceSet q) ↔
      ¬ Recut (ordered p) (ordered q) := by
  obtain ⟨hp', hplain⟩ := hashed_encode hp hbytes
  obtain ⟨hq', hplain'⟩ := hashed_encode hq hbytes'
  have hnil : (0 : UInt8) ∉ ([] : List UInt8) := List.not_mem_nil
  have htext := encode_eq_iff hplain hplain' hnil hnil
  rw [List.nil_append, List.nil_append, ← hp', ← hq'] at htext
  have hdigest : sourcesSha256 sha256 p = sourcesSha256 sha256 q ↔ bytes = bytes' := by
    unfold sourcesSha256
    rw [hbytes, hbytes']
    constructor
    · intro h
      exact hcf _ (by simp) _ (by simp) (hexEncode_injective (Option.some.inj h))
    · rintro rfl
      rfl
  rw [hdigest, htext]
  constructor
  · rintro hsame ⟨hcut, htargets⟩
    rw [ordered_eq_of_sourceSet_eq hp hq (hsame hcut)] at htargets
    exact htargets rfl
  · intro hnot hcut
    have htargets : linkTargets (ordered p) = linkTargets (ordered q) := by
      by_contra hne
      exact hnot ⟨hcut, hne⟩
    have hlist := hcut.eq rfl htargets
    ext s
    rw [← mem_ordered, ← mem_ordered, hlist]

/-! ### Two projects -/

def nameA : Name := ⟨"a", by decide, by decide⟩
def nameB : Name := ⟨"b", by decide, by decide⟩
def nameYb : Name := ⟨"yb", by decide, by decide⟩

/-- A project of one file. -/
def oneFile (byte : UInt8) : Node := .dir true [(nameA, .file (some [byte]))]

/-- Two projects that differ in one byte have different digests. -/
theorem sources_named_oneFile :
    (sourcesSha256 Sha256.hash (oneFile 1) = sourcesSha256 Sha256.hash (oneFile 2) →
        sourceSet (oneFile 1) = sourceSet (oneFile 2)) ↔
      ¬ Recut (ordered (oneFile 1)) (ordered (oneFile 2)) :=
  sources_named_iff Sha256.hash (oneFile 1) (oneFile 2) (by simp [oneFile, Node.Listed, ListedIn])
    (by simp [oneFile, Node.Listed, ListedIn]) [97, 0, 0, 0, 0, 0, 0, 0, 0, 1, 1] [97, 0, 0, 0, 0, 0, 0, 0, 0, 1, 2]
    (by decide +kernel) (by decide +kernel) (by decide +kernel)

/-- A link `a` to `x` beside a file `yb`. -/
def linkToX : Node := .dir true [(nameA, .link (some ⟨"x", by decide⟩)), (nameYb, .file (some []))]

/-- A link `a` to `xy` beside a file `b`. -/
def linkToXy : Node := .dir true [(nameA, .link (some ⟨"xy", by decide⟩)), (nameB, .file (some []))]

/-- They are different trees that are written alike. -/
theorem link_target_unframed : ¬ ∀ (sha256 : List UInt8 → Digest) (p q : Node) (bytes bytes' : List UInt8),
    p.Listed → q.Listed → hashed p = some bytes → hashed q = some bytes' → CollisionFreeOn sha256 [bytes, bytes'] →
      sourcesSha256 sha256 p = sourcesSha256 sha256 q → sourceSet p = sourceSet q := by
  intro h
  have hbytes : hashed linkToX = some [97, 0, 45, 62, 120, 121, 98, 0, 0, 0, 0, 0, 0, 0, 0, 0] := by decide +kernel
  have hbytes' : hashed linkToXy = some [97, 0, 45, 62, 120, 121, 98, 0, 0, 0, 0, 0, 0, 0, 0, 0] := by decide +kernel
  have hlisted : linkToX.Listed := by
    simp [linkToX, Node.Listed, ListedIn, nameA, nameYb]
  have hlisted' : linkToXy.Listed := by
    simp [linkToXy, Node.Listed, ListedIn, nameA, nameB]
  have hsame := h Sha256.hash linkToX linkToXy _ _ hlisted hlisted' hbytes hbytes'
    (fun x hx y hy _ => by simp at hx hy; rw [hx, hy]) (by unfold sourcesSha256; rw [hbytes, hbytes'])
  have hordered := ordered_eq_of_sourceSet_eq hlisted hlisted' hsame
  have hdiffer : ordered linkToX ≠ ordered linkToXy := by decide +kernel
  exact hdiffer hordered

end AgentRuntime.Toolchain
