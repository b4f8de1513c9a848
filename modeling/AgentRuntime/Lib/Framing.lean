import AgentRuntime.Lib.Json
import AgentRuntime.Lib.Words

/-!
# `Lib.Framing` — byte strings written before each other with their lengths

`Shows P enc f`: at the front of any stream, `enc a` shows `f a` and where it ends. An encoder of a record is the
encoders of its fields one after the other, and what the fields show is collected along the way (`Shows.append`). A
string that has its length in front of it shows itself (`shows_frame`), and so does a list that has its count in front
of it, when its elements do (`shows_counted`). The numbers in front have a fixed width, so this holds below a bound.
-/

namespace Framing

open Words Json

variable {α β γ δ ε : Type*}

/-- Whatever follows it, `enc a` shows `f a` and where it ends, for the values of `P`. -/
def Shows (P : α → Prop) (enc : α → List β) (f : α → γ) : Prop :=
  ∀ a b, P a → P b → ∀ r s, enc a ++ r = enc b ++ s → f a = f b ∧ r = s

section

variable {P : α → Prop} {enc enc' : α → List β} {f : α → γ} {g : α → δ}

/-- Equal encodings show the same. -/
theorem Shows.eq (h : Shows P enc f) {a b : α} (ha : P a) (hb : P b) (heq : enc a = enc b) : f a = f b :=
  (h a b ha hb [] [] (by rw [heq])).1

theorem Shows.append (h : Shows P enc f) (h' : Shows P enc' g) :
    Shows P (fun a => enc a ++ enc' a) (fun a => (f a, g a)) := by
  intro a b ha hb r s heq
  simp only [List.append_assoc] at heq
  obtain ⟨hf, hrest⟩ := h a b ha hb _ _ heq
  obtain ⟨hg, hrs⟩ := h' a b ha hb _ _ hrest
  exact ⟨Prod.ext hf hg, hrs⟩

theorem Shows.congr (h : Shows P enc f) (heq : ∀ a, enc' a = enc a) : Shows P enc' f := by
  obtain rfl : enc' = enc := funext heq
  exact h

/-- What is a function of what is shown is shown. -/
theorem Shows.imp (h : Shows P enc f) (hfg : ∀ a b, P a → P b → f a = f b → g a = g b) : Shows P enc g := by
  intro a b ha hb r s heq
  obtain ⟨hf, hrs⟩ := h a b ha hb r s heq
  exact ⟨hfg a b ha hb hf, hrs⟩

theorem Shows.comp (h : Shows P enc f) {Q : ε → Prop} {k : ε → α} (hk : ∀ c, Q c → P (k c)) :
    Shows Q (fun c => enc (k c)) (fun c => f (k c)) :=
  fun a b ha hb r s heq => h (k a) (k b) (hk a ha) (hk b hb) r s heq

/-- A text that is always there shows nothing. -/
theorem shows_const (w : List β) : Shows P (fun _ => w) fun _ => () :=
  fun _ _ _ _ _ _ heq => ⟨rfl, List.append_cancel_left heq⟩

/-- An encoder of one width. -/
theorem shows_fixed {n : ℕ} (hlength : ∀ a, P a → (enc a).length = n)
    (hf : ∀ a b, P a → P b → enc a = enc b → f a = f b) : Shows P enc f := by
  intro a b ha hb r s heq
  obtain ⟨henc, hrs⟩ := List.append_inj heq ((hlength a ha).trans (hlength b hb).symm)
  exact ⟨hf a b ha hb henc, hrs⟩

/-- A byte that tells whether a value is there, and then the value. -/
theorem shows_option (no yes : β) (hne : no ≠ yes) (h : Shows P enc f) :
    Shows (fun o : Option α => ∀ a, o = some a → P a)
      (fun o => match o with | some a => yes :: enc a | none => [no]) (Option.map f) := by
  intro o o' ho ho' r s heq
  cases o with
  | none =>
      cases o' with
      | none => exact ⟨rfl, (List.cons.inj heq).2⟩
      | some b => exact absurd (List.cons.inj heq).1 hne
  | some a =>
      cases o' with
      | none => exact absurd (List.cons.inj heq).1.symm hne
      | some b =>
          obtain ⟨hf, hrs⟩ := h a b (ho a rfl) (ho' b rfl) r s (List.cons.inj heq).2
          exact ⟨congrArg some hf, hrs⟩

/-! ## Lists -/

/-- As many elements as are known to come. -/
theorem Shows.flatMap (h : Shows P enc f) (n : ℕ) :
    Shows (fun l : List α => l.length = n ∧ ∀ a ∈ l, P a) (fun l => l.flatMap enc) (List.map f) := by
  intro l m hl hm r s heq
  induction l generalizing m n with
  | nil =>
      obtain rfl := List.length_eq_zero_iff.mp (hm.1.trans hl.1.symm)
      exact ⟨rfl, heq⟩
  | cons a l ih =>
      cases m with
      | nil => exact absurd (hl.1.trans hm.1.symm) (by simp)
      | cons b m =>
          simp only [List.flatMap_cons, List.append_assoc] at heq
          obtain ⟨hab, hrest⟩ := h a b (hl.2 a List.mem_cons_self) (hm.2 b List.mem_cons_self) _ _ heq
          have hlength : m.length = l.length := by simpa using hm.1.trans hl.1.symm
          obtain ⟨hlm, hrs⟩ := ih l.length m ⟨rfl, fun x hx => hl.2 x (List.mem_cons_of_mem _ hx)⟩
            ⟨hlength, fun x hx => hm.2 x (List.mem_cons_of_mem _ hx)⟩ hrest
          exact ⟨by rw [List.map_cons, List.map_cons, hab, hlm], hrs⟩

end

section

variable {num : ℕ → List β} {bound : ℕ}

/-- A list with its count in front. -/
theorem shows_counted (hnum : Shows (· < bound) num id) {P : α → Prop} {enc : α → List β} {f : α → γ}
    (h : Shows P enc f) :
    Shows (fun l : List α => l.length < bound ∧ ∀ a ∈ l, P a) (fun l => num l.length ++ l.flatMap enc)
      (List.map f) := by
  intro l m hl hm r s heq
  simp only [List.append_assoc] at heq
  -- the counts agree first, so both streams have the same number of elements to read
  obtain ⟨hlength, hrest⟩ := hnum _ _ hl.1 hm.1 _ _ heq
  exact h.flatMap m.length l m ⟨hlength, hl.2⟩ ⟨rfl, hm.2⟩ r s hrest

/-- A string with its length in front. -/
theorem shows_frame (hnum : Shows (· < bound) num id) :
    Shows (fun l : List β => l.length < bound) (fun l => num l.length ++ l) id := by
  intro l m hl hm r s heq
  simp only [List.append_assoc] at heq
  obtain ⟨hlength, hrest⟩ := hnum _ _ hl hm _ _ heq
  exact List.append_inj hrest hlength

end

/-! ## Numbers -/

theorem shows_beBytes (n : ℕ) : Shows (· < 256 ^ n) (beBytes n) id :=
  shows_fixed (fun _ _ => length_beBytes ..) fun _ _ ha hb => beBytes_inj ha hb

/-- Little-endian bytes of `x`, exactly `n` of them. -/
def leBytes (n x : ℕ) : List UInt8 := (beBytes n x).reverse

theorem shows_leBytes (n : ℕ) : Shows (· < 256 ^ n) (leBytes n) id := by
  refine shows_fixed (n := n) (fun x _ => ?_) fun x y hx hy heq => ?_
  · rw [leBytes, List.length_reverse, length_beBytes]
  · exact beBytes_inj hx hy (List.reverse_injective heq)

theorem eight_bytes : (256 : ℕ) ^ 8 = u64Bound := by norm_num

theorem shows_u64_be : Shows (· < u64Bound) (beBytes 8) id := eight_bytes ▸ shows_beBytes 8

theorem shows_u64_le : Shows (· < u64Bound) (leBytes 8) id := eight_bytes ▸ shows_leBytes 8

/-! ## Texts -/

/-- The bytes of a string in memory are counted by a `usize`, which 64 bits hold. -/
def TextInMemory (s : String) : Prop := (utf8 s).length < u64Bound

instance (s : String) : Decidable (TextInMemory s) := by
  unfold TextInMemory
  infer_instance

/-- A text with the length of its bytes in front. -/
theorem shows_text {num : ℕ → List UInt8} (hnum : Shows (· < u64Bound) num id) :
    Shows TextInMemory (fun s => num (utf8 s).length ++ utf8 s) id :=
  ((shows_frame hnum).comp fun _ h => h).imp fun _ _ _ _ heq => utf8_injective heq

end Framing
