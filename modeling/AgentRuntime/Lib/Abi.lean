import AgentRuntime.Lib.Json
import AgentRuntime.Lib.Words

/-!
# `Lib.Abi` — the contract ABI, and a strict decoder

A list of values is laid out as one word for each, its head, and then the tails: a value without a fixed size has the
offset of its tail in its head. `decode` takes nothing else than that layout: each offset is where the tail before it
ended, each text is padded to a word with zeros, and nothing follows the last tail.

`decode_encode` is the round trip. What reads a piece from the start of the data is said by `Reads`, which composes
along `>>=`.
-/

namespace Abi

open Words Json

/-! ## Types and values -/

inductive Ty where
  | bytes32
  | uint (bits : ℕ)
  | address
  | bytes
  | string
  | array (elem : Ty)
deriving DecidableEq

inductive Value where
  | word (w : List UInt8)
  | uint (n : ℕ)
  | address (a : List UInt8)
  | bytes (b : List UInt8)
  | text (s : String)
  | array (vs : List Value)

/-! ## The layout -/

/-- What a value takes: one word in the head, or a tail. -/
inductive Slot where
  | inline (w : List UInt8)
  | tail (t : List UInt8)

/-- A number as a word. -/
def number (n : ℕ) : List UInt8 := beBytes 32 n

/-- The heads, when the next tail is at `pos`. -/
def heads : ℕ → List Slot → List UInt8
  | _, [] => []
  | pos, .inline w :: rest => w ++ heads pos rest
  | pos, .tail t :: rest => number pos ++ heads (pos + t.length) rest

def tails : List Slot → List UInt8
  | [] => []
  | .inline _ :: rest => tails rest
  | .tail t :: rest => t ++ tails rest

def layout (slots : List Slot) : List UInt8 := heads (32 * slots.length) slots ++ tails slots

/-- How many zeros fill up a word. -/
def padding (n : ℕ) : ℕ := (32 - n % 32) % 32

/-- The length, and the bytes filled up to a word. -/
def encodeBytes (b : List UInt8) : List UInt8 :=
  number b.length ++ (b ++ List.replicate (padding b.length) 0)

def slot : Ty → Value → Slot
  | .bytes32, .word w => .inline w
  | .uint _, .uint n => .inline (number n)
  | .address, .address a => .inline (List.replicate 12 0 ++ a)
  | .bytes, .bytes b => .tail (encodeBytes b)
  | .string, .text s => .tail (encodeBytes (utf8 s))
  | .array t, .array vs => .tail (number vs.length ++ layout (vs.map (slot t)))
  | _, _ => .inline []

/-- `abi.encode` of the values. -/
def encode (ts : List Ty) (vs : List Value) : List UInt8 := layout (List.zipWith slot ts vs)

/-- A value of the type, of which every length can be written. -/
def Fits : Ty → Value → Prop
  | .bytes32, .word w => w.length = 32
  | .uint bits, .uint n => n < 2 ^ bits ∧ n < 2 ^ 256
  | .address, .address a => a.length = 20
  | .bytes, .bytes b => b.length < 2 ^ 256
  | .string, .text s => (utf8 s).length < 2 ^ 256
  | .array t, .array vs =>
      vs.length < 2 ^ 256 ∧ (layout (vs.map (slot t))).length < 2 ^ 256 ∧ ∀ v ∈ vs, Fits t v
  | _, _ => False

/-! ## The strict decoder -/

/-- Reads from the start of the data. -/
abbrev Reader : Type → Type := StateT (List UInt8) Option

/-- The value of a big-endian number. -/
def toNat (w : List UInt8) : ℕ := w.foldl (fun n b => 256 * n + b.toNat) 0

def readExact (n : ℕ) : Reader (List UInt8) := fun s =>
  if n ≤ s.length then some (s.take n, s.drop n) else none

def readNumber : Reader ℕ := do
  let w ← readExact 32
  pure (toNat w)

/-- Refuses unless the condition holds. -/
def require (p : Prop) [Decidable p] : Reader Unit := fun s => if p then some ((), s) else none

/-- What can be missing, is refused. -/
def ofOption {α : Type} (found : Option α) : Reader α := fun s => found.map fun a => (a, s)

/-- Bytes of an exact length, and zeros up to the end of the word. -/
def readBytes : Reader (List UInt8) := do
  let n ← readNumber
  let b ← readExact n
  let pad ← readExact (padding n)
  require (pad = List.replicate (padding n) 0)
  pure b

/-- How a value is read: from its word, or from its tail. -/
inductive Component where
  | static (read : List UInt8 → Option Value)
  | dynamic (read : Reader Value)

/-- What a head says: the value, or where its tail begins. -/
inductive Head where
  | found (v : Value)
  | offset (read : Reader Value) (start : ℕ)

def readHead : Component → Reader Head
  | .static read => do
      let w ← readExact 32
      let v ← ofOption (read w)
      pure (.found v)
  | .dynamic read => do
      let start ← readNumber
      pure (.offset read start)

/-- The tails, of which the next begins at `pos`: an offset that says something else is refused. -/
def readTails : ℕ → List Head → Reader (List Value)
  | _, [] => pure []
  | pos, .found v :: rest => do
      let vs ← readTails pos rest
      pure (v :: vs)
  | pos, .offset read start :: rest => do
      require (start = pos)
      let before ← get
      let v ← read
      let after ← get
      let vs ← readTails (pos + (before.length - after.length)) rest
      pure (v :: vs)

def readAll (cs : List Component) : Reader (List Value) := do
  let hs ← cs.mapM readHead
  readTails (32 * cs.length) hs

def component : Ty → Component
  | .bytes32 => .static fun w => some (.word w)
  | .uint bits => .static fun w => if toNat w < 2 ^ bits then some (.uint (toNat w)) else none
  | .address => .static fun w => if w.take 12 = List.replicate 12 0 then some (.address (w.drop 12)) else none
  | .bytes => .dynamic do
      let b ← readBytes
      pure (.bytes b)
  | .string => .dynamic do
      let b ← readBytes
      let s ← ofOption (String.fromUTF8? b.toByteArray)
      pure (.text s)
  | .array t => .dynamic do
      let n ← readNumber
      let vs ← readAll (List.replicate n (component t))
      pure (.array vs)

/-- The values of exactly this data. -/
def decode (ts : List Ty) (data : List UInt8) : Option (List Value) :=
  match readAll (ts.map component) data with
  | some (vs, []) => some vs
  | _ => none

/-! ## Reading what was written -/

/-- The reader takes these bytes from the start of any data, and gives this value. -/
def Reads {α : Type} (r : Reader α) (bytes : List UInt8) (a : α) : Prop := ∀ rest, r (bytes ++ rest) = some (a, rest)

section

variable {α β : Type}

theorem Reads.pure (a : α) : Reads (Pure.pure a) [] a := fun _ => rfl

theorem Reads.bind {r : Reader α} {f : α → Reader β} {bytes bytes' : List UInt8} {a : α} {b : β}
    (h : Reads r bytes a) (h' : Reads (f a) bytes' b) : Reads (r >>= f) (bytes ++ bytes') b := by
  intro rest
  show (r (bytes ++ bytes' ++ rest)).bind (fun x => f x.1 x.2) = _
  rw [List.append_assoc, h (bytes' ++ rest)]
  exact h' rest

/-- The last step takes nothing more. -/
theorem Reads.map {r : Reader α} {f : α → β} {bytes : List UInt8} {a : α} (h : Reads r bytes a) :
    Reads (r >>= fun a => Pure.pure (f a)) bytes (f a) := by
  have hbind := h.bind (f := fun a => Pure.pure (f a)) (.pure (f a))
  rwa [List.append_nil] at hbind

theorem reads_exact (bytes : List UInt8) : Reads (readExact bytes.length) bytes bytes := by
  intro rest
  unfold readExact
  rw [if_pos (by rw [List.length_append]; omega), List.take_left, List.drop_left]

theorem reads_require {p : Prop} [Decidable p] (h : p) : Reads (require p) [] () := by
  intro rest
  unfold require
  rw [if_pos h]
  rfl

theorem reads_ofOption (a : α) : Reads (ofOption (some a)) [] a := fun _ => rfl

end

/-- A number of 64 bits fills the end of its word. -/
theorem number_u64 {n : ℕ} (h : n < u64Bound) : number n = List.replicate 24 0 ++ beBytes 8 n := by
  have hzero : n / 256 ^ 8 = 0 := Nat.div_eq_of_lt (by omega)
  have hsplit := beBytes_add 24 8 n
  rw [hzero, beBytes_zero] at hsplit
  exact hsplit

/-- A word holds a number below `2 ^ 256`. -/
theorem toNat_number {n : ℕ} (h : n < 2 ^ 256) : toNat (number n) = n := by
  have hfold : ∀ k acc x : ℕ,
      (beBytes k x).foldl (fun n b => 256 * n + b.toNat) acc = acc * 256 ^ k + x % 256 ^ k := by
    intro k
    induction k with
    | zero =>
        intro acc x
        simp [beBytes, Nat.mod_one]
    | succ k ih =>
        intro acc x
        have hbyte : (UInt8.ofNat (x / 256 ^ k)).toNat = x / 256 ^ k % 256 := by simp
        rw [beBytes, List.foldl_cons, ih, hbyte, Nat.mod_pow_succ, Nat.pow_succ]
        ring
  unfold toNat number
  rw [hfold, Nat.zero_mul, Nat.zero_add, Nat.mod_eq_of_lt]
  calc n < 2 ^ 256 := h
    _ = 256 ^ 32 := by norm_num

theorem reads_number {n : ℕ} (h : n < 2 ^ 256) : Reads readNumber (number n) n := by
  have hword : Reads (readExact 32) (number n) (number n) := by
    have hexact := reads_exact (number n)
    rwa [number, length_beBytes] at hexact
  have hmap := hword.map (f := toNat)
  rwa [toNat_number h] at hmap

theorem reads_bytes {b : List UInt8} (h : b.length < 2 ^ 256) : Reads readBytes (encodeBytes b) b := by
  have hpad : Reads (readExact (padding b.length)) (List.replicate (padding b.length) 0)
      (List.replicate (padding b.length) 0) := by
    have hexact := reads_exact (List.replicate (padding b.length) (0 : UInt8))
    rwa [List.length_replicate] at hexact
  have hzeros : Reads (do
      let pad ← readExact (padding b.length)
      require (pad = List.replicate (padding b.length) 0)
      pure b) (List.replicate (padding b.length) 0 ++ ([] ++ [])) b :=
    hpad.bind ((reads_require rfl).bind (.pure b))
  rw [List.append_nil, List.append_nil] at hzeros
  exact (reads_number h).bind ((reads_exact b).bind hzeros)

/-! ## The whole layout -/

/-- The component reads the value from what the slot writes. -/
def Codes : Component → Slot → Value → Prop
  | .static read, .inline w, v => w.length = 32 ∧ read w = some v
  | .dynamic read, .tail t, v => Reads read t v
  | _, _, _ => False

/-- A value of the layout, with its component and what it takes. -/
structure Field where
  component : Component
  slot : Slot
  value : Value

/-- What the heads say, when the next tail is at `pos`. -/
def headsOf : ℕ → List Field → List Head
  | _, [] => []
  | pos, ⟨.dynamic read, .tail t, _⟩ :: rest => .offset read pos :: headsOf (pos + t.length) rest
  | pos, ⟨_, _, v⟩ :: rest => .found v :: headsOf pos rest

theorem length_heads {fields : List Field} (h : ∀ x ∈ fields, Codes x.component x.slot x.value) (pos : ℕ) :
    (heads pos (fields.map Field.slot)).length = 32 * fields.length := by
  induction fields generalizing pos with
  | nil => rfl
  | cons x rest ih =>
      obtain ⟨hx, hrest⟩ := List.forall_mem_cons.mp h
      obtain ⟨c, s, v⟩ := x
      rw [List.map_cons, List.length_cons]
      cases s with
      | inline w =>
          cases c with
          | static read =>
              rw [heads, List.length_append, ih hrest, hx.1]
              ring
          | dynamic read => exact absurd hx id
      | tail t =>
          rw [heads, List.length_append, ih hrest, number, length_beBytes]
          ring

/-- The heads of a layout say where the tails are. -/
theorem reads_heads {fields : List Field} (h : ∀ x ∈ fields, Codes x.component x.slot x.value) {pos : ℕ}
    (hpos : pos + (tails (fields.map Field.slot)).length < 2 ^ 256) :
    Reads ((fields.map Field.component).mapM readHead) (heads pos (fields.map Field.slot)) (headsOf pos fields) := by
  induction fields generalizing pos with
  | nil => exact .pure _
  | cons x rest ih =>
      obtain ⟨hx, hrest⟩ := List.forall_mem_cons.mp h
      obtain ⟨c, s, v⟩ := x
      rw [List.map_cons, List.mapM_cons]
      cases c with
      | static read =>
          cases s with
          | inline w =>
              obtain ⟨hlength, hread⟩ := hx
              have hword : Reads (readExact 32) w w := by
                have hexact := reads_exact w
                rwa [hlength] at hexact
              have hfound : Reads (readHead (.static read)) (w ++ ([] ++ [])) (.found v) := by
                refine hword.bind (Reads.bind (a := v) ?_ (.pure _))
                rw [hread]
                exact reads_ofOption v
              rw [List.append_nil, List.append_nil] at hfound
              exact hfound.bind (ih hrest hpos).map
          | tail t => exact absurd hx id
      | dynamic read =>
          cases s with
          | inline w => exact absurd hx id
          | tail t =>
              rw [List.map_cons, tails, List.length_append] at hpos
              have hoffset : Reads (readHead (.dynamic read)) (number pos) (.offset read pos) :=
                (reads_number (by omega)).map
              exact hoffset.bind (ih hrest (by omega)).map

/-- The tails follow each other as the heads say. -/
theorem reads_tails {fields : List Field} (h : ∀ x ∈ fields, Codes x.component x.slot x.value) (pos : ℕ) :
    Reads (readTails pos (headsOf pos fields)) (tails (fields.map Field.slot)) (fields.map Field.value) := by
  induction fields generalizing pos with
  | nil => exact .pure _
  | cons x rest ih =>
      obtain ⟨hx, hrest⟩ := List.forall_mem_cons.mp h
      obtain ⟨c, s, v⟩ := x
      cases c with
      | static read =>
          cases s with
          | inline w => exact (ih hrest pos).map
          | tail t => exact absurd hx id
      | dynamic read =>
          cases s with
          | inline w => exact absurd hx id
          | tail t =>
              intro data
              have hlength : (t ++ (tails (rest.map Field.slot) ++ data)).length -
                  (tails (rest.map Field.slot) ++ data).length = t.length := by
                rw [List.length_append]
                omega
              have hread := hx (tails (rest.map Field.slot) ++ data)
              have htails := (ih hrest (pos + t.length)).map (f := fun vs => v :: vs) data
              -- The tail is taken off, and its length is what the position moves on by.
              show (do
                require (pos = pos)
                let before ← get
                let v ← read
                let after ← get
                let vs ← readTails (pos + (before.length - after.length)) (headsOf (pos + t.length) rest)
                Pure.pure (v :: vs) : Reader (List Value)) (t ++ tails (rest.map Field.slot) ++ data) = _
              rw [List.append_assoc]
              show ((require (pos = pos)) _).bind _ = _
              rw [require, if_pos rfl]
              show (read (t ++ (tails (rest.map Field.slot) ++ data))).bind _ = _
              rw [hread]
              show ((do
                let vs ← readTails (pos + ((t ++ (tails (rest.map Field.slot) ++ data)).length -
                  (tails (rest.map Field.slot) ++ data).length)) (headsOf (pos + t.length) rest)
                Pure.pure (v :: vs) : Reader (List Value)) (tails (rest.map Field.slot) ++ data)) = _
              rw [hlength]
              exact htails

theorem reads_layout {fields : List Field} (h : ∀ x ∈ fields, Codes x.component x.slot x.value)
    (hsize : (layout (fields.map Field.slot)).length < 2 ^ 256) :
    Reads (readAll (fields.map Field.component)) (layout (fields.map Field.slot)) (fields.map Field.value) := by
  have hheads := length_heads h (32 * fields.length)
  rw [layout, List.length_append, List.length_map, hheads] at hsize
  have hread := (reads_heads h hsize).bind (f := readTails (32 * fields.length)) (reads_tails h _)
  unfold readAll layout
  rw [List.length_map, List.length_map]
  exact hread

/-! ## The types -/

theorem fromUTF8?_utf8 (s : String) : String.fromUTF8? (utf8 s).toByteArray = some s := by
  have hbytes : (utf8 s).toByteArray = s.toByteArray := ByteArray.ext (by rw [utf8, List.data_toByteArray])
  unfold String.fromUTF8?
  rw [hbytes, dif_pos s.isValidUTF8]
  rfl

/-- **Each type reads what it writes.** -/
theorem codes_slot (t : Ty) {v : Value} (h : Fits t v) : Codes (component t) (slot t v) v := by
  induction t generalizing v with
  | bytes32 =>
      cases v with
      | word w => exact ⟨h, rfl⟩
      | _ => exact absurd h id
  | uint bits =>
      cases v with
      | uint n =>
          obtain ⟨hbits, hword⟩ := h
          refine ⟨length_beBytes 32 n, ?_⟩
          simp only [toNat_number hword, if_pos hbits]
      | _ => exact absurd h id
  | address =>
      cases v with
      | address a =>
          have hlength : a.length = 20 := h
          refine ⟨by rw [List.length_append, List.length_replicate, hlength], ?_⟩
          have htake : (List.replicate 12 (0 : UInt8) ++ a).take 12 = List.replicate 12 0 := by
            rw [List.take_left' (List.length_replicate ..)]
          have hdrop : (List.replicate 12 (0 : UInt8) ++ a).drop 12 = a := by
            rw [List.drop_left' (List.length_replicate ..)]
          simp only [htake, hdrop, if_true]
      | _ => exact absurd h id
  | bytes =>
      cases v with
      | bytes b => exact (reads_bytes h).map
      | _ => exact absurd h id
  | string =>
      cases v with
      | text s =>
          have htext : Reads (do
              let s ← ofOption (String.fromUTF8? (utf8 s).toByteArray)
              pure (Value.text s)) ([] ++ []) (.text s) := by
            refine Reads.bind (a := s) ?_ (.pure _)
            rw [fromUTF8?_utf8]
            exact reads_ofOption s
          have hread : Reads (do
              let b ← readBytes
              let s ← ofOption (String.fromUTF8? b.toByteArray)
              pure (Value.text s)) (encodeBytes (utf8 s) ++ ([] ++ [])) (.text s) := (reads_bytes h).bind htext
          rw [List.append_nil, List.append_nil] at hread
          exact hread
      | _ => exact absurd h id
  | array t ih =>
      cases v with
      | array vs =>
          obtain ⟨hlength, hsize, helems⟩ := h
          let fields := vs.map fun v => Field.mk (component t) (slot t v) v
          have hcodes : ∀ x ∈ fields, Codes x.component x.slot x.value := by
            intro x hx
            obtain ⟨v, hv, rfl⟩ := List.mem_map.mp hx
            exact ih (helems v hv)
          have hcomponents : fields.map Field.component = List.replicate vs.length (component t) := by
            rw [List.map_map]
            exact List.map_const' ..
          have hslots : fields.map Field.slot = vs.map (slot t) := by
            rw [List.map_map]
            rfl
          have hvalues : fields.map Field.value = vs := by
            rw [List.map_map]
            exact List.map_id' vs
          have hlayout := reads_layout hcodes (by rw [hslots]; exact hsize)
          rw [hcomponents, hslots, hvalues] at hlayout
          exact (reads_number hlength).bind hlayout.map
      | _ => exact absurd h id

/-- The fields of a list of values. -/
theorem exists_fields {ts : List Ty} {vs : List Value} (h : List.Forall₂ Fits ts vs) :
    ∃ fields : List Field, (∀ x ∈ fields, Codes x.component x.slot x.value) ∧
      fields.map Field.component = ts.map component ∧ fields.map Field.slot = List.zipWith slot ts vs ∧
      fields.map Field.value = vs := by
  induction h with
  | nil => exact ⟨[], fun x hx => absurd hx List.not_mem_nil, rfl, rfl, rfl⟩
  | @cons t v ts vs ht _ ih =>
      obtain ⟨fields, hcodes, hcomponents, hslots, hvalues⟩ := ih
      refine ⟨⟨component t, slot t v, v⟩ :: fields, List.forall_mem_cons.mpr ⟨codes_slot t ht, hcodes⟩, ?_, ?_, ?_⟩
      · rw [List.map_cons, List.map_cons, hcomponents]
      · rw [List.map_cons, List.zipWith_cons_cons, hslots]
      · rw [List.map_cons, hvalues]

/-- **The round trip**: the strict decoder gives back the values. -/
theorem decode_encode {ts : List Ty} {vs : List Value} (h : List.Forall₂ Fits ts vs)
    (hsize : (encode ts vs).length < 2 ^ 256) : decode ts (encode ts vs) = some vs := by
  obtain ⟨fields, hcodes, hcomponents, hslots, hvalues⟩ := exists_fields h
  have hread := reads_layout hcodes (by rw [hslots]; exact hsize) []
  rw [hcomponents, hslots, hvalues, List.append_nil] at hread
  unfold decode encode
  rw [hread]

end Abi
