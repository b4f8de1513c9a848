import AgentRuntime.Capsule.Archive
import AgentRuntime.Lib.TextLines

/-!
# `Capsule.ContentHash` — what equal content hashes say

Two accepted archives with one content hash hold the same capsule exactly when nothing in them is ambiguous: the
manifests lose the same bytes when they are read as text, what the normalization blanks is the `content_hash` line,
and no path continues where another one ends (`content_hash_binds`).
-/

namespace AgentRuntime.Capsule

open Utf8 Text

/-! ## Manifests -/

/-- The line that assigns `content_hash`. -/
def isKeyLine (line : List Char) : Bool :=
  match strip "content_hash".toList (line.dropWhile isWhitespace) with
  | some rest => (rest.dropWhile fun c => c = ' ' || c = '\t').head? = some '='
  | none => false

/-- Both lines assign `content_hash`. -/
def BothKey (l l' : List UInt8) : Prop := isKeyLine (textOf l) = true ∧ isKeyLine (textOf l') = true

instance (l l' : List UInt8) : Decidable (BothKey l l') := by
  unfold BothKey
  infer_instance

/-- The lines are the same, except for the `content_hash` line. -/
def SameLines : List (List UInt8) → List (List UInt8) → Prop
  | [], [] => True
  | l :: ls, l' :: ls' => if BothKey l l' then ls = ls' else l = l' ∧ SameLines ls ls'
  | _, _ => False

/-- Outside the `content_hash` line the texts of the lines lose the same bytes, and no other line is blanked unless it is
    the same. -/
def AgreedLines : List (List UInt8) → List (List UInt8) → Prop
  | [], [] => True
  | l :: ls, l' :: ls' =>
      if BothKey l l' then ls.map lostIn = ls'.map lostIn
      else lostIn l = lostIn l' ∧ (isHashLine (textOf l) = true → l = l') ∧ AgreedLines ls ls'
  | _, _ => False

theorem isHashLine_of_isKeyLine {line : List Char} (h : isKeyLine line = true) : isHashLine line = true := by
  unfold isKeyLine strip at h
  unfold isHashLine
  simp only at h ⊢
  split at h
  · rename_i rest heq
    split at heq
    · rename_i hstart
      cases heq
      rw [hstart, Bool.true_and]
      rw [List.contains_iff_mem]
      have hmem : '=' ∈ ((line.dropWhile isWhitespace).drop "content_hash".toList.length).dropWhile
          fun c => c = ' ' || c = '\t' := List.mem_of_mem_head? (by simpa using h)
      exact List.mem_of_mem_drop ((List.dropWhile_sublist _).subset hmem)
    · cases heq
  · cases h

theorem isHashLine_blankLine (line : List Char) : isHashLine (blankLine line) = true := by
  have hdrop : (blankLine line).dropWhile isWhitespace = "content_hash = \"\"".toList := by
    unfold blankLine
    rw [List.dropWhile_append_of_pos]
    · rfl
    · intro c hc
      exact List.mem_takeWhile_imp hc
  unfold isHashLine
  simp only [hdrop]
  rfl

/-- The lines are told apart by their texts and what these lose. -/
theorem lines_eq_iff {ls ls' : List (List UInt8)} (h : ls.map textOf = ls'.map textOf) :
    ls = ls' ↔ ls.map lostIn = ls'.map lostIn := by
  constructor
  · rintro rfl
    rfl
  · intro hlost
    induction ls generalizing ls' with
    | nil => exact (List.map_eq_nil_iff.mp h.symm).symm
    | cons l ls ih =>
        cases ls' with
        | nil => cases h
        | cons l' ls' =>
            obtain ⟨htext, htexts⟩ := List.cons.inj h
            obtain ⟨hl, hls⟩ := List.cons.inj hlost
            rw [eq_of_textOf_eq htext hl, ih htexts hls]

theorem line_eq_iff {l l' : List UInt8} (h : textOf l = textOf l') : l = l' ↔ lostIn l = lostIn l' := by
  constructor
  · rintro rfl
    rfl
  · exact eq_of_textOf_eq h

/-- Lines of the same texts. -/
theorem sameLines_iff_of_texts {ls ls' : List (List UInt8)} (h : ls.map textOf = ls'.map textOf) :
    SameLines ls ls' ↔ AgreedLines ls ls' := by
  induction ls generalizing ls' with
  | nil =>
      have hnil : ls' = [] := List.map_eq_nil_iff.mp h.symm
      subst hnil
      exact Iff.rfl
  | cons l ls ih =>
      cases ls' with
      | nil => cases h
      | cons l' ls' =>
          obtain ⟨htext, htexts⟩ := List.cons.inj h
          unfold SameLines AgreedLines
          by_cases hkey : BothKey l l'
          · rw [if_pos hkey, if_pos hkey]
            exact lines_eq_iff htexts
          · rw [if_neg hkey, if_neg hkey, ih htexts, line_eq_iff htext]
            constructor
            · rintro ⟨hlost, hrest⟩
              exact ⟨hlost, fun _ => hlost, hrest⟩
            · rintro ⟨hlost, -, hrest⟩
              exact ⟨hlost, hrest⟩

theorem normalizeLines_cons_ne_nil (line : List Char) (lines : List (List Char)) :
    normalizeLines (line :: lines) ≠ [] := by
  unfold normalizeLines
  split
  · exact List.cons_ne_nil _ _
  · exact List.cons_ne_nil _ _

/-- **Manifests.** Lines that are normalized the same. -/
theorem sameLines_iff {ls ls' : List (List UInt8)}
    (h : normalizeLines (ls.map textOf) = normalizeLines (ls'.map textOf)) :
    SameLines ls ls' ↔ AgreedLines ls ls' := by
  induction ls generalizing ls' with
  | nil =>
      cases ls' with
      | nil => exact Iff.rfl
      | cons l' ls' => exact absurd h.symm (normalizeLines_cons_ne_nil _ _)
  | cons l ls ih =>
      cases ls' with
      | nil => exact absurd h (normalizeLines_cons_ne_nil _ _)
      | cons l' ls' =>
          rw [List.map_cons, List.map_cons] at h
          unfold normalizeLines at h
          unfold SameLines AgreedLines
          by_cases hl : isHashLine (textOf l) = true
          · rw [if_pos hl] at h
            by_cases hl' : isHashLine (textOf l') = true
            · -- Both are blanked; behind them the texts are the same.
              rw [if_pos hl'] at h
              obtain ⟨-, htexts⟩ := List.cons.inj h
              by_cases hkey : BothKey l l'
              · rw [if_pos hkey, if_pos hkey]
                exact lines_eq_iff htexts
              · rw [if_neg hkey, if_neg hkey, sameLines_iff_of_texts htexts]
                constructor
                · rintro ⟨rfl, hrest⟩
                  exact ⟨rfl, fun _ => rfl, hrest⟩
                · rintro ⟨-, hsame, hrest⟩
                  exact ⟨hsame hl, hrest⟩
            · rw [if_neg hl'] at h
              obtain ⟨hblank, -⟩ := List.cons.inj h
              rw [← hblank, isHashLine_blankLine] at hl'
              exact absurd rfl hl'
          · rw [if_neg hl] at h
            by_cases hl' : isHashLine (textOf l') = true
            · rw [if_pos hl'] at h
              obtain ⟨hblank, -⟩ := List.cons.inj h
              rw [hblank, isHashLine_blankLine] at hl
              exact absurd rfl hl
            · rw [if_neg hl'] at h
              obtain ⟨htext, hrest⟩ := List.cons.inj h
              have hkey : ¬ BothKey l l' := fun hboth => hl (isHashLine_of_isKeyLine hboth.1)
              rw [if_neg hkey, if_neg hkey, ih hrest, line_eq_iff htext]
              constructor
              · rintro ⟨hlost, hagreed⟩
                exact ⟨hlost, fun hhash => absurd hhash hl, hagreed⟩
              · rintro ⟨hlost, -, hagreed⟩
                exact ⟨hlost, hagreed⟩

theorem not_mem_normalizeLines {ls : List (List Char)} (h : ∀ l ∈ ls, '\n' ∉ l) :
    ∀ l ∈ normalizeLines ls, '\n' ∉ l := by
  induction ls with
  | nil => simp [normalizeLines]
  | cons first ls ih =>
      have hrest := fun l hl => h l (List.mem_cons_of_mem first hl)
      unfold normalizeLines
      split
      · intro l hl
        rcases List.mem_cons.mp hl with rfl | hl
        · unfold blankLine
          rw [List.mem_append, not_or]
          refine ⟨fun hmem => h first (List.mem_cons_self ..) ((List.takeWhile_sublist _).subset hmem), by decide⟩
        · exact hrest l hl
      · intro l hl
        rcases List.mem_cons.mp hl with rfl | hl
        · exact h l (List.mem_cons_self ..)
        · exact ih hrest l hl

/-- Manifests that are hashed the same are normalized the same, line by line. -/
theorem normalizeLines_eq {m m' : List UInt8} (h : normalizeManifestForHash m = normalizeManifestForHash m') :
    normalizeLines ((byteLines m).map textOf) = normalizeLines ((byteLines m').map textOf) := by
  have hflat := String.ofList_injective (Json.utf8_injective h)
  have hcut := congrArg (List.splitOn '\n') hflat
  rw [splitOn_flatMap_terminated (not_mem_normalizeLines (not_mem_lines _)),
    splitOn_flatMap_terminated (not_mem_normalizeLines (not_mem_lines _))] at hcut
  rw [← lines_textOf, ← lines_textOf]
  exact List.append_cancel_right hcut

/-! ## Capsules -/

/-- The same capsule: the manifests differ at most in the `content_hash` line and in line endings. -/
structure SameCapsule (a b : ArchiveContents) : Prop extends SameParts a b where
  manifest : SameLines (byteLines a.manifest) (byteLines b.manifest)

def pathsOf (a : ArchiveContents) : List (List UInt8) := (sortedEntries a).map fun e => Json.utf8 e.1

/-- Nothing in the two archives is ambiguous. -/
structure Unambiguous (a b : ArchiveContents) : Prop where
  manifest : AgreedLines (byteLines a.manifest) (byteLines b.manifest)
  /-- At no place in the order of the paths does one path begin another. -/
  paths : Juxtaposed.ToldApart (pathsOf a) (pathsOf b)

theorem pathsOf_eq {a b : ArchiveContents} (h : SameParts a b) : pathsOf a = pathsOf b := by
  have hsorted : ∀ c : ArchiveContents, (sortedEntries c).map Prod.fst =
      ((coveredEntries c).map Prod.fst).insertionSort fun x y => x ≤ y := by
    intro c
    unfold sortedEntries
    apply List.map_insertionSort
    intro x _ y _
    exact Iff.rfl
  have hcovered : (coveredEntries a).map Prod.fst = (coveredEntries b).map Prod.fst := by
    unfold coveredEntries
    rw [h.gherkin, h.specs]
    simp
  have hpaths : ∀ c : ArchiveContents, pathsOf c = ((sortedEntries c).map Prod.fst).map Json.utf8 := by
    intro c
    unfold pathsOf
    rw [List.map_map]
    rfl
  rw [hpaths, hpaths, hsorted, hsorted, hcovered]

section

variable {sha256 : List UInt8 → Digest} {a b : ArchiveContents}

/-- Equal hashes are taken of equal bytes. -/
theorem juxtapose_eq (hcf : CollisionFreeOn sha256 (hashInputs sha256 a ++ hashInputs sha256 b))
    (h : computeContentHash sha256 a = computeContentHash sha256 b) :
    Juxtaposed.juxtapose ((sortedEntries a).map (digested sha256)) =
      Juxtaposed.juxtapose ((sortedEntries b).map (digested sha256)) := by
  have hdigest : sha256 (bundleBytes sha256 a) = sha256 (bundleBytes sha256 b) := by
    apply hexEncode_injective
    unfold computeContentHash at h
    apply String.toList_injective
    have hchars := congrArg String.toList h
    rw [String.toList_append, String.toList_append] at hchars
    exact List.append_cancel_left hchars
  have hbytes := hcf _ (by simp [hashInputs]) _ (by simp [hashInputs]) hdigest
  exact List.append_cancel_left hbytes

/-- A map that tells the members of two lists apart tells the lists apart. -/
theorem eq_of_map_eq {α β : Type} {f : α → β} {l l' : List α} (hf : ∀ x ∈ l, ∀ y ∈ l', f x = f y → x = y)
    (h : l.map f = l'.map f) : l = l' := by
  induction l generalizing l' with
  | nil => exact (List.map_eq_nil_iff.mp h.symm).symm
  | cons x l ih =>
      cases l' with
      | nil => cases h
      | cons y l' =>
          obtain ⟨hhead, htail⟩ := List.cons.inj h
          rw [hf x (List.mem_cons_self ..) y (List.mem_cons_self ..) hhead,
            ih (fun x' hx' y' hy' => hf x' (List.mem_cons_of_mem _ hx') y' (List.mem_cons_of_mem _ hy')) htail]

/-- Entries with equal digests and paths are equal. -/
theorem sortedEntries_eq_of_digested (hcf : CollisionFreeOn sha256 (hashInputs sha256 a ++ hashInputs sha256 b))
    (h : (sortedEntries a).map (digested sha256) = (sortedEntries b).map (digested sha256)) :
    sortedEntries a = sortedEntries b := by
  have hinput : ∀ c : ArchiveContents, ∀ e ∈ sortedEntries c, e.2 ∈ hashInputs sha256 c := by
    intro c e he
    have hcovered : e ∈ coveredEntries c := (List.mem_insertionSort _).mp he
    exact List.mem_cons_of_mem _ (List.mem_map_of_mem hcovered)
  apply eq_of_map_eq ?_ h
  intro x hx y hy hxy
  obtain ⟨hdigest, hpath⟩ := Prod.mk.inj hxy
  have hbytes := hcf x.2 (List.mem_append_left _ (hinput a x hx)) y.2 (List.mem_append_right _ (hinput b y hy))
    (Vector.toList_inj.mp hdigest)
  exact Prod.ext (Json.utf8_injective hpath) hbytes

/-- **What the content hash binds.** Two archives that are read and hash the same are the same capsule exactly when
    nothing in them is ambiguous. -/
theorem content_hash_binds {unpack : Unpack} {archive archive' : List UInt8} {cap cap' : ℕ}
    (ha : readArchiveCapped unpack archive cap = .ok a) (hb : readArchiveCapped unpack archive' cap' = .ok b)
    (hcf : CollisionFreeOn sha256 (hashInputs sha256 a ++ hashInputs sha256 b))
    (hhash : computeContentHash sha256 a = computeContentHash sha256 b) :
    SameCapsule a b ↔ Unambiguous a b := by
  have hlength : ∀ c : ArchiveContents, ∀ p ∈ (sortedEntries c).map (digested sha256), p.1.length = 32 := by
    intro c p hp
    obtain ⟨e, -, rfl⟩ := List.mem_map.mp hp
    simp [digested]
  have hpaths : ∀ c : ArchiveContents, ((sortedEntries c).map (digested sha256)).map Prod.snd = pathsOf c := by
    intro c
    rw [List.map_map]
    rfl
  have hapart := Juxtaposed.eq_iff_told_apart (by decide) (hlength a) (hlength b) (juxtapose_eq hcf hhash)
  rw [hpaths, hpaths] at hapart
  -- Where the paths are told apart the entries are the same, and so are the parts and the normalized manifests.
  have hparts : Juxtaposed.ToldApart (pathsOf a) (pathsOf b) → SameParts a b ∧
      (SameLines (byteLines a.manifest) (byteLines b.manifest) ↔
        AgreedLines (byteLines a.manifest) (byteLines b.manifest)) := by
    intro htold
    obtain ⟨hmanifest, hsame⟩ := parts_of_sortedEntries_eq (readArchiveCapped_arranged ha)
      (readArchiveCapped_arranged hb) (sortedEntries_eq_of_digested hcf (hapart.mpr htold))
    exact ⟨hsame, sameLines_iff (normalizeLines_eq hmanifest)⟩
  constructor
  · intro hsame
    have htold : Juxtaposed.ToldApart (pathsOf a) (pathsOf b) := by
      rw [pathsOf_eq hsame.toSameParts]
      exact .refl _
    exact ⟨(hparts htold).2.mp hsame.manifest, htold⟩
  · rintro ⟨hmanifest, htold⟩
    obtain ⟨hsame, hlines⟩ := hparts htold
    exact ⟨hsame, hlines.mpr hmanifest⟩

end

/-! ## A manifest that is not text -/

namespace LostByte

/-- What unpacking yields of a capsule with this manifest. -/
def unpack : Unpack := fun manifest _ =>
  .ok [.ok ⟨Json.utf8 "manifest.toml", manifest⟩, .ok ⟨Json.utf8 "capsule.wit", [1]⟩,
    .ok ⟨Json.utf8 "capsule.wasm", [1]⟩, .ok ⟨Json.utf8 "procedure.md", [1]⟩,
    .ok ⟨Json.utf8 "SIGNATURES/publisher.sig", [2]⟩]

def contents (manifest : List UInt8) : ArchiveContents where
  manifest := manifest
  wit := [1]
  wasm := [1]
  procedure := [1]
  gherkin := []
  specs := []
  signatures := [("publisher.sig", [2])]

/-- Two manifests of one byte each that is no UTF-8: both are hashed as one replacement character. -/
theorem same_hash :
    readArchiveCapped unpack [0xFF] 1000 = .ok (contents [0xFF]) ∧
      readArchiveCapped unpack [0xFE] 1000 = .ok (contents [0xFE]) ∧
      computeContentHash Sha256.hash (contents [0xFF]) = computeContentHash Sha256.hash (contents [0xFE]) ∧
      ¬ SameLines (byteLines (contents [0xFF]).manifest) (byteLines (contents [0xFE]).manifest) := by
  have hnormal : normalizeManifestForHash [0xFF] = normalizeManifestForHash [0xFE] := by decide
  refine ⟨by decide, by decide, ?_, ?_⟩
  · unfold computeContentHash bundleBytes sortedEntries coveredEntries contents
    rw [hnormal]
  · have hlines : byteLines (contents [0xFF]).manifest = [[0xFF]] ∧ byteLines (contents [0xFE]).manifest = [[0xFE]] := by
      decide
    rw [hlines.1, hlines.2]
    intro hsame
    have hkey : ¬ BothKey [0xFF] [0xFE] := by decide
    unfold SameLines at hsame
    rw [if_neg hkey] at hsame
    exact absurd hsame.1 (by decide)

/-- The digests of a capsule whose manifest is the text `v` differ where they must. -/
theorem digests_differ :
    Sha256.hash [1] ≠ Sha256.hash [118, 10] ∧
      Sha256.hash (bundleBytes Sha256.hash (contents [118])) ≠ Sha256.hash [1] ∧
      Sha256.hash (bundleBytes Sha256.hash (contents [118])) ≠ Sha256.hash [118, 10] := by
  refine ⟨?_, ?_, ?_⟩
  · decide +kernel
  · decide +kernel
  · decide +kernel

theorem collisionFree : CollisionFreeOn Sha256.hash
    (hashInputs Sha256.hash (contents [118]) ++ hashInputs Sha256.hash (contents [118])) := by
  have hnormal : normalizeManifestForHash [118] = [118, 10] := by decide
  have hcases : ∀ x ∈ hashInputs Sha256.hash (contents [118]) ++ hashInputs Sha256.hash (contents [118]),
      x = bundleBytes Sha256.hash (contents [118]) ∨ x = [118, 10] ∨ x = [1] := by
    intro x hx
    rw [List.mem_append, or_self] at hx
    rcases List.mem_cons.mp hx with hx | hx
    · exact .inl hx
    · have hcovered : (coveredEntries (contents [118])).map Prod.snd = [[118, 10], [1], [1], [1]] := by
        unfold coveredEntries contents
        rw [hnormal]
        rfl
      rw [hcovered] at hx
      right
      simpa using hx
  obtain ⟨hone, hbundle, hbundle'⟩ := digests_differ
  intro x hx y hy hxy
  rcases hcases x hx with rfl | rfl | rfl
  · rcases hcases y hy with rfl | rfl | rfl
    · rfl
    · exact absurd hxy hbundle'
    · exact absurd hxy hbundle
  · rcases hcases y hy with rfl | rfl | rfl
    · exact absurd hxy.symm hbundle'
    · rfl
    · exact absurd hxy.symm hone
  · rcases hcases y hy with rfl | rfl | rfl
    · exact absurd hxy.symm hbundle
    · exact absurd hxy hone
    · rfl

theorem same_capsule_iff :
    SameCapsule (contents [118]) (contents [118]) ↔ Unambiguous (contents [118]) (contents [118]) := by
  have hread : readArchiveCapped unpack [118] 1000 = .ok (contents [118]) := by decide
  exact content_hash_binds hread hread collisionFree rfl

end LostByte

end AgentRuntime.Capsule
