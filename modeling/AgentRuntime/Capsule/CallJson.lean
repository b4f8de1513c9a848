import AgentRuntime.Capsule.Fleet
import AgentRuntime.Lib.Acceptor
import AgentRuntime.Lib.JsonValue

/-!
# `Capsule.CallJson` — calling a capsule from JSON (`agent/core/src/capsule/dispatch.rs`)

The function to call is looked up in the exports of the component, and each argument is mapped to a value of the type the
function declares. What wasmtime does is the parameter `Host`; a call is a list of the events in which capsule code runs,
and a result.

A value is taken as what it denotes, but a text of bytes may repeat its `0x` (`jsonToVal_ok`), and of several functions
the first is called: no wrong call is made exactly for plain arguments (`call_json_iff`).
-/

namespace AgentRuntime.Capsule

open Json

/-! ## Components -/

/-- A type of the component model, as far as a call tells them apart. -/
inductive WitType where
  | string
  | bool
  | u8
  | u16
  | u32
  | u64
  | list (element : WitType)
  | other (name : String)

abbrev Params : Type := List (String × WitType)

inductive ComponentItem where
  | componentFunc (params : Params)
  | componentInstance (exports : List (String × ComponentItem))
  | other

structure ComponentType where
  exports : List (String × ComponentItem)

inductive Val where
  | bool (b : Bool)
  | s8 (n : ℤ)
  | u8 (n : ℕ)
  | s16 (n : ℤ)
  | u16 (n : ℕ)
  | s32 (n : ℤ)
  | u32 (n : ℕ)
  | s64 (n : ℤ)
  | u64 (n : ℕ)
  | float32 (f : Float32)
  | float64 (f : Float)
  | char (c : Char)
  | string (s : String)
  | list (items : List Val)
  | record (fields : List (String × Val))
  | tuple (items : List Val)
  | variant (name : String) (payload : Option Val)
  | enum (name : String)
  | option (o : Option Val)
  | result (r : Except (Option Val) (Option Val))
  | flags (names : List String)
  | other (debug : String)

/-- A function of an exported interface. -/
structure Entry where
  iface : String
  func : String
  params : Params

def functionOf (iface : String) (item : String × ComponentItem) : Option Entry :=
  match item with
  | (func, .componentFunc params) => some ⟨iface, func, params⟩
  | _ => none

/-- The functions of one export, when it is an interface. -/
def functionsOf (item : String × ComponentItem) : List Entry :=
  match item with
  | (iface, .componentInstance inst) => inst.filterMap (functionOf iface)
  | _ => []

def ComponentType.interfaceFunctions (component : ComponentType) : List Entry := component.exports.flatMap functionsOf

/-! ## The mapping -/

section

variable (debug : String → String) (debugType : WitType → String)

def discoverSingleEntry (component : ComponentType) (capsuleName : String) : Except AgentError Entry :=
  let found := component.exports.findSome? fun item =>
    match item with
    | (iface, .componentInstance inst) => inst.findSome? (functionOf iface)
    | _ => none
  match found with
  | some entry => .ok entry
  | none =>
      .error (.capsule ("capsule " ++ debug capsuleName ++ " exports no interface function — call_json needs one " ++
        "exported interface with a function"))

/-- `str::trim_start_matches("0x")`. -/
def trimStart0x : List Char → List Char
  | '0' :: 'x' :: rest => trimStart0x rest
  | s => s

def expected (name want : String) : AgentError := .capsule ("arg " ++ debug name ++ ": expected " ++ want)

def outOfRange (name want : String) (n : ℕ) : AgentError :=
  .capsule ("arg " ++ debug name ++ ": " ++ toString n ++ " is out of range for " ++ want)

/-- An unsigned integer of the given width. -/
def narrow (name want element : String) (bits : ℕ) (v : Value) : Except AgentError ℕ :=
  match v.asU64 with
  | none => .error (expected debug name want)
  | some n => if n < 2 ^ bits then .ok n else .error (outOfRange debug name element n)

def jsonToBytes (v : Value) (name : String) : Except AgentError (List ℕ) :=
  match v.asStr with
  | some s =>
      match Hex.decodeBytes? (trimStart0x s.toList) with
      | some bytes => .ok (bytes.map UInt8.toNat)
      | none => .error (expected debug name "hex byte string")
  | none =>
      match v.asArray with
      | some arr => arr.mapM (narrow debug name "byte array" "a byte (u8) array element" 8)
      | none => .error (expected debug name "hex string or byte array")

def jsonToVal (ty : WitType) (v : Value) (name : String) : Except AgentError Val :=
  match ty with
  | .string => (v.asStr.map Val.string).elim (.error (expected debug name "string")) .ok
  | .bool => (v.asBool.map Val.bool).elim (.error (expected debug name "bool")) .ok
  | .u8 => (narrow debug name "u8" "u8" 8 v).map .u8
  | .u16 => (narrow debug name "u16" "u16" 16 v).map .u16
  | .u32 => (narrow debug name "u32" "u32" 32 v).map .u32
  | .u64 => (v.asU64.map Val.u64).elim (.error (expected debug name "u64")) .ok
  | .list .u8 => (jsonToBytes debug v name).map fun bytes => .list (bytes.map .u8)
  | other =>
      .error (.capsule ("arg " ++ debug name ++ ": WIT type " ++ debugType other ++ " not supported by call_json " ++
        "(skills use string/bool/uN/list<u8>)"))

def jsonToVals (obj : Value) (capsuleName : String) (params : Params) : Except AgentError (List Val) :=
  params.mapM fun p =>
    match obj.get p.1 with
    | none => .error (.capsule ("missing arg " ++ debug p.1 ++ " for " ++ capsuleName))
    | some v => jsonToVal debug debugType p.2 v p.1

end

def intValue (n : ℤ) : Value := .number (if 0 ≤ n then .posInt n.toNat else .negInt n)

/-- A float that is not finite has no JSON. -/
def floatValue (f : Float) : Value := if f.isFinite then .number (.float f) else .null

def byteOf : Val → Option ℕ
  | .u8 n => some n
  | _ => none

mutual

def valToJson : Val → Value
  | .bool b => .bool b
  | .s8 n | .s16 n | .s32 n | .s64 n => intValue n
  | .u8 n | .u16 n | .u32 n | .u64 n => .number (.posInt n)
  | .float32 f => floatValue f.toFloat
  | .float64 f => floatValue f
  | .char c => .string (String.singleton c)
  | .string s => .string s
  | .list items =>
      match items.mapM byteOf with
      | some (b :: bytes) => .string ("0x" ++ String.ofList (Hex.encodeBytes ((b :: bytes).map UInt8.ofNat)))
      | _ => .array (valsToJson items)
  | .record fields => .ofEntries (fieldsToJson fields)
  | .tuple items => .array (valsToJson items)
  | .result (.ok inner) => .object [("ok", optionToJson inner)]
  | .result (.error inner) => .object [("err", optionToJson inner)]
  | .option o => optionToJson o
  | .enum name => .string name
  | .flags names => .array (names.map .string)
  | .variant name payload => .ofEntries [("variant", .string name), ("value", optionToJson payload)]
  | .other text => .string text

def valsToJson : List Val → List Value
  | [] => []
  | v :: vs => valToJson v :: valsToJson vs

def fieldsToJson : List (String × Val) → List (String × Value)
  | [] => []
  | (k, v) :: fields => (k, valToJson v) :: fieldsToJson fields

def optionToJson : Option Val → Value
  | none => .null
  | some v => valToJson v

end

/-! ## The call -/

/-- Why a call of a function fails. -/
inductive CallFailure where
  | trapped (e : String)
  | panicked (msg : String)

/-- What runs capsules: the parser of components, the plan of the call's sandbox, the linker, and the instance. -/
structure Host (Plan : Type) where
  component : List UInt8 → Except String ComponentType
  plan : Manifest → Except AgentError Plan
  prepareLinker : Capsule → Except AgentError Unit
  instantiate : Capsule → Plan → Except AgentError Unit
  call : Capsule → Entry → List Val → Except CallFailure Val

/-- Where capsule code runs. -/
inductive Event where
  | instantiated
  | invoked (entry : Entry) (vals : List Val)

abbrev Traced (α : Type) : Type := List Event × Except AgentError α

section

variable {Plan : Type} (debug : String → String) (debugType : WitType → String) (host : Host Plan)

/-- The function that the instance exports under the two names. -/
def resolve (exports : List (String × ComponentItem)) (capsuleName iface func : String) : Except AgentError Entry :=
  match exports.lookup iface with
  | none => .error (.capsule ("capsule " ++ debug capsuleName ++ " missing interface " ++ debug iface))
  | some item =>
      let inner :=
        match item with
        | .componentInstance inst => inst.lookup func
        | _ => none
      match inner with
      | none =>
          .error (.capsule ("capsule " ++ debug capsuleName ++ " interface " ++ debug iface ++ " missing func " ++
            debug func))
      | some (.componentFunc params) => .ok ⟨iface, func, params⟩
      | some _ => .error (.capsule ("capsule " ++ debug capsuleName ++ " func " ++ debug func ++ " resolve failed"))

/-- What a call does with the capsule it may run. -/
def runRaw (component : ComponentType) (capsuleName iface func : String) (vals : List Val) (capsule : Capsule) :
    Traced Val :=
  match host.plan capsule.manifest with
  | .error e => ([], .error e)
  | .ok plan =>
      match host.prepareLinker capsule with
      | .error e => ([], .error e)
      | .ok () =>
          match host.instantiate capsule plan with
          | .error e => ([.instantiated], .error e)
          | .ok () =>
              match resolve debug component.exports capsuleName iface func with
              | .error e => ([.instantiated], .error e)
              | .ok entry =>
                  match host.call capsule entry vals with
                  | .ok val => ([.instantiated, .invoked entry vals], .ok val)
                  | .error (.trapped e) => ([.instantiated, .invoked entry vals], .error (.capsule ("capsule call: " ++ e)))
                  | .error (.panicked msg) =>
                      ([.instantiated, .invoked entry vals],
                        .error (.capsule ("capsule call panicked (host-side lift/transcode panic; see " ++
                          "RUSTSEC-2026-0085, 2026-0092 and F-04 in the audit): " ++ msg)))

namespace CapsuleDispatch

variable (d : CapsuleDispatch)

def callJsonIn (capsuleName : String) (args : Value) : Traced Value :=
  match d.gate debug capsuleName with
  | .error e => ([], .error e)
  | .ok capsule =>
      match host.component capsule.archive.wasm with
      | .error e => ([], .error (.capsule ("component parse: " ++ e)))
      | .ok component =>
          match discoverSingleEntry debug component capsuleName with
          | .error e => ([], .error e)
          | .ok entry =>
              match args.asObject with
              | none => ([], .error (.capsule ("args for " ++ capsuleName ++ " must be a JSON object")))
              | some _ =>
                  match jsonToVals debug debugType args capsuleName entry.params with
                  | .error e => ([], .error e)
                  | .ok vals =>
                      match d.callRawIn debug
                          (fun c => .ok (runRaw debug host component capsuleName entry.iface entry.func vals c))
                          capsuleName with
                      | .error e => ([], .error e)
                      | .ok (events, result) => (events, result.map valToJson)

end CapsuleDispatch

end

/-! ## What a value denotes -/

/-- The value a JSON value denotes at a type: the same text, truth value, integer or bytes. -/
inductive Denotes : WitType → Value → Val → Prop
  | string (s : String) : Denotes .string (.string s) (.string s)
  | bool (b : Bool) : Denotes .bool (.bool b) (.bool b)
  | u8 {n : ℕ} (h : n < 2 ^ 8) : Denotes .u8 (.number (.posInt n)) (.u8 n)
  | u16 {n : ℕ} (h : n < 2 ^ 16) : Denotes .u16 (.number (.posInt n)) (.u16 n)
  | u32 {n : ℕ} (h : n < 2 ^ 32) : Denotes .u32 (.number (.posInt n)) (.u32 n)
  | u64 (n : ℕ) : Denotes .u64 (.number (.posInt n)) (.u64 n)
  | hex {s : String} {bytes : List UInt8} (h : Hex.decodeBytes? s.toList = some bytes) :
      Denotes (.list .u8) (.string s) (.list (bytes.map fun b => .u8 b.toNat))
  | hex0x {s : String} {digits : List Char} {bytes : List UInt8} (hs : s.toList = '0' :: 'x' :: digits)
      (h : Hex.decodeBytes? digits = some bytes) :
      Denotes (.list .u8) (.string s) (.list (bytes.map fun b => .u8 b.toNat))
  | bytes {ns : List ℕ} (h : ∀ n ∈ ns, n < 2 ^ 8) :
      Denotes (.list .u8) (.array (ns.map fun n => .number (.posInt n))) (.list (ns.map .u8))

/-- A text of bytes that begins with `0x` twice or more. -/
inductive Doubled : WitType → Value → Val → Prop
  | mk {s : String} {rest : List Char} {bytes : List UInt8} (hs : s.toList = '0' :: 'x' :: '0' :: 'x' :: rest)
      (h : Hex.decodeBytes? (trimStart0x rest) = some bytes) :
      Doubled (.list .u8) (.string s) (.list (bytes.map fun b => .u8 b.toNat))

theorem decodeBytes?_0x (rest : List Char) : Hex.decodeBytes? ('0' :: 'x' :: rest) = none := by
  have hx : Hex.digitValue? 'x' = none := by decide
  simp [Hex.decodeBytes?, hx]

/-- A text either begins with `0x`, or nothing of it is trimmed. -/
theorem trimStart0x_cases (s : List Char) : (∃ rest, s = '0' :: 'x' :: rest) ∨ trimStart0x s = s := by
  unfold trimStart0x
  split
  · exact .inl ⟨_, rfl⟩
  · exact .inr rfl

theorem trimStart0x_decode {digits : List Char} {bytes : List UInt8} (h : Hex.decodeBytes? digits = some bytes) :
    trimStart0x digits = digits := by
  rcases trimStart0x_cases digits with ⟨rest, rfl⟩ | heq
  · rw [decodeBytes?_0x] at h
    cases h
  · exact heq

theorem Doubled.not_denotes {ty : WitType} {v : Value} {val val' : Val} (h : Doubled ty v val) : ¬ Denotes ty v val' := by
  obtain ⟨hs, -⟩ := h
  intro hd
  cases hd with
  | hex hdec =>
      rw [hs, decodeBytes?_0x] at hdec
      cases hdec
  | hex0x hs' hdec =>
      rw [hs] at hs'
      have hdigits := (List.cons.inj (List.cons.inj hs').2).2
      rw [← hdigits, decodeBytes?_0x] at hdec
      cases hdec

section

variable {debug : String → String} {debugType : WitType → String}

theorem narrow_ok {name want element : String} {bits : ℕ} {v : Value} {n : ℕ} :
    narrow debug name want element bits v = .ok n ↔ v = .number (.posInt n) ∧ n < 2 ^ bits := by
  unfold narrow
  cases v with
  | number num =>
      cases num with
      | posInt m =>
          by_cases hm : m < 2 ^ bits
          · simp only [Value.asU64, Number.asU64, if_pos hm]
            constructor
            · rintro ⟨⟩
              exact ⟨rfl, hm⟩
            · rintro ⟨⟨⟩, -⟩
              rfl
          · simp only [Value.asU64, Number.asU64, if_neg hm]
            constructor
            · rintro ⟨⟩
            · rintro ⟨⟨⟩, hn⟩
              exact absurd hn hm
      | negInt i => simp [Value.asU64, Number.asU64]
      | float f => simp [Value.asU64, Number.asU64]
  | _ => simp [Value.asU64]

theorem narrow_mapM_ok {name want element : String} {bits : ℕ} {vs : List Value} {ns : List ℕ} :
    vs.mapM (narrow debug name want element bits) = .ok ns ↔
      vs = ns.map (fun n => .number (.posInt n)) ∧ ∀ n ∈ ns, n < 2 ^ bits := by
  induction vs generalizing ns with
  | nil =>
      simp only [List.mapM_nil]
      constructor
      · rintro ⟨⟩
        exact ⟨rfl, by simp⟩
      · rintro ⟨h, -⟩
        rw [eq_comm, List.map_eq_nil_iff] at h
        rw [h]
        rfl
  | cons v vs ih =>
      rw [List.mapM_cons]
      constructor
      · intro h
        cases hv : narrow debug name want element bits v with
        | error e =>
            rw [hv] at h
            cases h
        | ok n =>
            cases hvs : vs.mapM (narrow debug name want element bits) with
            | error e =>
                rw [hv, hvs] at h
                cases h
            | ok rest =>
                rw [hv, hvs] at h
                cases h
                obtain ⟨rfl, hn⟩ := narrow_ok.mp hv
                obtain ⟨rfl, hrest⟩ := ih.mp hvs
                exact ⟨rfl, by simpa using ⟨hn, hrest⟩⟩
      · rintro ⟨h, hns⟩
        cases ns with
        | nil => cases h
        | cons n ns =>
            obtain ⟨rfl, rfl⟩ := List.cons.inj h
            rw [narrow_ok.mpr ⟨rfl, hns n List.mem_cons_self⟩,
              ih.mpr ⟨rfl, fun m hm => hns m (List.mem_cons_of_mem _ hm)⟩]
            rfl

/-- A text of bytes: hex digits, after a `0x` or several. -/
theorem trimmed_hex {s : String} {bytes : List UInt8} {v : Value} (hv : v = .string s)
    (h : Hex.decodeBytes? (trimStart0x s.toList) = some bytes) :
    Denotes (.list .u8) v (.list (bytes.map fun b => .u8 b.toNat)) ∨
      Doubled (.list .u8) v (.list (bytes.map fun b => .u8 b.toNat)) := by
  subst hv
  rcases trimStart0x_cases s.toList with ⟨rest, hs⟩ | heq
  · rw [hs] at h
    rcases trimStart0x_cases rest with ⟨rest', rfl⟩ | heq
    · exact .inr ⟨hs, h⟩
    · rw [trimStart0x, heq] at h
      exact .inl (.hex0x hs h)
  · rw [heq] at h
    exact .inl (.hex h)

/-- Bytes are hex of a text, or numbers of an array. -/
theorem jsonToBytes_reads {v : Value} {name : String} {ns : List ℕ} (h : jsonToBytes debug v name = .ok ns) :
    Denotes (.list .u8) v (.list (ns.map .u8)) ∨ Doubled (.list .u8) v (.list (ns.map .u8)) := by
  unfold jsonToBytes at h
  cases v with
  | string s =>
      simp only [Value.asStr] at h
      split at h
      · rename_i bytes hdec
        cases h
        rw [List.map_map]
        exact trimmed_hex rfl hdec
      · cases h
  | array items =>
      obtain ⟨rfl, hns⟩ := narrow_mapM_ok.mp h
      exact .inl (.bytes hns)
  | _ => cases h

/-- A mapped result is the image of a result. -/
theorem map_ok {α β ε : Type} {f : α → β} {x : Except ε α} {b : β} : x.map f = .ok b ↔ ∃ a, x = .ok a ∧ f a = b := by
  cases x with
  | error e => simp [Except.map]
  | ok a => simp [Except.map]

theorem jsonToVal_hex {s name : String} {bytes : List UInt8} (h : Hex.decodeBytes? (trimStart0x s.toList) = some bytes) :
    jsonToVal debug debugType (.list .u8) (.string s) name = .ok (.list (bytes.map fun b => .u8 b.toNat)) := by
  have hbytes : jsonToBytes debug (.string s) name = .ok (bytes.map UInt8.toNat) := by
    simp only [jsonToBytes, Value.asStr, h]
  refine map_ok.mpr ⟨_, hbytes, ?_⟩
  rw [List.map_map]
  rfl

/-- A value is mapped to what it denotes, or as a text that repeats its `0x`. -/
theorem jsonToVal_ok {ty : WitType} {v : Value} {name : String} {val : Val} :
    jsonToVal debug debugType ty v name = .ok val ↔ Denotes ty v val ∨ Doubled ty v val := by
  constructor
  · intro h
    unfold jsonToVal at h
    split at h
    · cases v with
      | string s =>
          cases h
          exact .inl (.string s)
      | _ => cases h
    · cases v with
      | bool b =>
          cases h
          exact .inl (.bool b)
      | _ => cases h
    · obtain ⟨n, hn, rfl⟩ := map_ok.mp h
      obtain ⟨rfl, hlt⟩ := narrow_ok.mp hn
      exact .inl (.u8 hlt)
    · obtain ⟨n, hn, rfl⟩ := map_ok.mp h
      obtain ⟨rfl, hlt⟩ := narrow_ok.mp hn
      exact .inl (.u16 hlt)
    · obtain ⟨n, hn, rfl⟩ := map_ok.mp h
      obtain ⟨rfl, hlt⟩ := narrow_ok.mp hn
      exact .inl (.u32 hlt)
    · cases v with
      | number num =>
          cases num with
          | posInt n =>
              cases h
              exact .inl (.u64 n)
          | _ => cases h
      | _ => cases h
    · obtain ⟨ns, hns, rfl⟩ := map_ok.mp h
      exact jsonToBytes_reads hns
    · cases h
  · rintro (h | h)
    · cases h with
      | string s => rfl
      | bool b => rfl
      | u8 hlt => exact map_ok.mpr ⟨_, narrow_ok.mpr ⟨rfl, hlt⟩, rfl⟩
      | u16 hlt => exact map_ok.mpr ⟨_, narrow_ok.mpr ⟨rfl, hlt⟩, rfl⟩
      | u32 hlt => exact map_ok.mpr ⟨_, narrow_ok.mpr ⟨rfl, hlt⟩, rfl⟩
      | u64 n => rfl
      | hex hdec =>
          refine jsonToVal_hex ?_
          rw [trimStart0x_decode hdec]
          exact hdec
      | hex0x hs hdec =>
          refine jsonToVal_hex ?_
          rw [hs, trimStart0x, trimStart0x_decode hdec]
          exact hdec
      | bytes hns => exact map_ok.mpr ⟨_, narrow_mapM_ok.mpr ⟨rfl, hns⟩, rfl⟩
    · obtain ⟨hs, hdec⟩ := h
      refine jsonToVal_hex ?_
      rw [hs]
      exact hdec

theorem jsonToVals_ok {obj : Value} {capsuleName : String} {params : Params} {vals : List Val} :
    jsonToVals debug debugType obj capsuleName params = .ok vals ↔
      List.Forall₂ (fun p val => ∃ v, obj.get p.1 = some v ∧ (Denotes p.2 v val ∨ Doubled p.2 v val)) params vals := by
  unfold jsonToVals
  induction params generalizing vals with
  | nil =>
      rw [List.mapM_nil, List.forall₂_nil_left_iff]
      constructor
      · rintro ⟨⟩
        rfl
      · rintro rfl
        rfl
  | cons p params ih =>
      rw [List.mapM_cons, List.forall₂_cons_left_iff]
      constructor
      · intro h
        obtain ⟨val, hval, h⟩ := Except.bind_eq_ok.mp h
        obtain ⟨rest, hrest, h⟩ := Except.bind_eq_ok.mp h
        cases h
        cases hv : obj.get p.1 with
        | none =>
            simp only [hv] at hval
            cases hval
        | some v =>
            simp only [hv] at hval
            exact ⟨val, rest, ⟨v, rfl, jsonToVal_ok.mp hval⟩, ih.mp hrest, rfl⟩
      · rintro ⟨val, rest, ⟨v, hv, hval⟩, hrest, rfl⟩
        have hfirst : jsonToVal debug debugType p.2 v p.1 = .ok val := jsonToVal_ok.mpr hval
        refine Except.bind_eq_ok.mpr ⟨val, ?_, Except.bind_eq_ok.mpr ⟨rest, ih.mpr hrest, rfl⟩⟩
        simp only [hv]
        exact hfirst

/-- The entry is the first of the functions of the interfaces. -/
theorem discoverSingleEntry_ok {component : ComponentType} {capsuleName : String} {entry : Entry} :
    discoverSingleEntry debug component capsuleName = .ok entry ↔ component.interfaceFunctions.head? = some entry := by
  have hfound : (component.exports.findSome? fun item =>
      match item with
      | (iface, .componentInstance inst) => inst.findSome? (functionOf iface)
      | _ => none) = component.interfaceFunctions.head? := by
    unfold ComponentType.interfaceFunctions
    rw [List.head?_flatMap]
    congr 1
    funext item
    unfold functionsOf
    split
    · rw [List.head?_filterMap]
    · rfl
  unfold discoverSingleEntry
  rw [hfound]
  cases component.interfaceFunctions.head? with
  | none => simp
  | some e => simp

/-! ## No wrong call -/

/-- The only function of the component, and the values of its parameters: each is what the argument of that name
    denotes. -/
def Requested (component : ComponentType) (args : Value) (entry : Entry) (vals : List Val) : Prop :=
  component.interfaceFunctions = [entry] ∧
    List.Forall₂ (fun p val => ∃ v, args.get p.1 = some v ∧ Denotes p.2 v val) entry.params vals

/-- The calls among the events. -/
def calls (events : List Event) : List (Entry × List Val) :=
  events.filterMap fun e =>
    match e with
    | .invoked entry vals => some (entry, vals)
    | .instantiated => none

/-- A call invokes what was requested, once, and a request that is none is an error before capsule code runs. -/
structure Right (component : ComponentType) (args : Value) (r : Traced Value) : Prop where
  invoked : ∀ c ∈ calls r.1, Requested component args c.1 c.2
  once : (calls r.1).length ≤ 1
  refused : (¬ ∃ entry vals, Requested component args entry vals) → r.1 = [] ∧ ∃ e, r.2 = .error e

/-- The arguments fit the parameters, if a `0x` may be repeated. -/
def Fits (args : Value) (params : Params) : Prop :=
  ∀ p ∈ params, ∃ v val, args.get p.1 = some v ∧ (Denotes p.2 v val ∨ Doubled p.2 v val)

/-- Arguments that fit the first function are for the only one, and repeat no `0x`. -/
def Plain (component : ComponentType) (args : Value) : Prop :=
  ∀ entry rest, component.interfaceFunctions = entry :: rest → args.asObject.isSome = true → Fits args entry.params →
    rest = [] ∧ ∀ p ∈ entry.params, ∀ v val, args.get p.1 = some v → ¬ Doubled p.2 v val

/-- An error before capsule code runs. -/
theorem Right.of_error (component : ComponentType) (args : Value) (e : AgentError) :
    Right component args ([], .error e) where
  invoked := by simp [calls]
  once := by simp [calls]
  refused _ := ⟨rfl, e, rfl⟩

theorem resolve_mem {exports : List (String × ComponentItem)} {capsuleName iface func : String} {entry : Entry}
    (h : resolve debug exports capsuleName iface func = .ok entry) :
    entry ∈ (ComponentType.mk exports).interfaceFunctions := by
  have hmem {items : List (String × ComponentItem)} {key : String} {item : ComponentItem}
      (hlookup : items.lookup key = some item) : (key, item) ∈ items := by
    obtain ⟨before, after, rfl, -⟩ := List.lookup_eq_some_iff.mp hlookup
    simp
  unfold resolve at h
  split at h
  · cases h
  · rename_i item hiface
    cases item with
    | componentInstance inst =>
        simp only at h
        split at h
        · cases h
        · rename_i params hfunc
          cases h
          refine List.mem_flatMap.mpr ⟨_, hmem hiface, ?_⟩
          exact List.mem_filterMap.mpr ⟨_, hmem hfunc, rfl⟩
        · cases h
    | componentFunc params => cases h
    | other => cases h

/-- A run of the capsule makes at most one call, of an interface function with the given values. -/
theorem runRaw_calls {Plan : Type} (host : Host Plan) (component : ComponentType) (capsuleName iface func : String)
    (vals : List Val) (capsule : Capsule) :
    calls (runRaw debug host component capsuleName iface func vals capsule).1 = [] ∨
      ∃ entry ∈ component.interfaceFunctions,
        calls (runRaw debug host component capsuleName iface func vals capsule).1 = [(entry, vals)] := by
  unfold runRaw
  split
  · exact .inl rfl
  · split
    · exact .inl rfl
    · split
      · exact .inl rfl
      · split
        · exact .inl rfl
        · rename_i entry hresolve
          refine .inr ⟨entry, resolve_mem hresolve, ?_⟩
          split
          all_goals rfl

end

section

variable {debug : String → String} {debugType : WitType → String} {component : ComponentType} {args : Value}

theorem Fits.vals {params : Params} (h : Fits args params) (capsuleName : String) :
    ∃ vals, jsonToVals debug debugType args capsuleName params = .ok vals := by
  have hvals : ∃ vals, List.Forall₂
      (fun p val => ∃ v, args.get p.1 = some v ∧ (Denotes p.2 v val ∨ Doubled p.2 v val)) params vals := by
    induction params with
    | nil => exact ⟨[], .nil⟩
    | cons p params ih =>
        obtain ⟨v, val, hv, hval⟩ := h p List.mem_cons_self
        obtain ⟨vals, hvals⟩ := ih fun q hq => h q (List.mem_cons_of_mem _ hq)
        exact ⟨val :: vals, .cons ⟨v, hv, hval⟩ hvals⟩
  obtain ⟨vals, hvals⟩ := hvals
  exact ⟨vals, jsonToVals_ok.mpr hvals⟩

theorem Fits.of_vals {params : Params} {capsuleName : String} {vals : List Val}
    (h : jsonToVals debug debugType args capsuleName params = .ok vals) : Fits args params := by
  intro p hp
  obtain ⟨i, hi, rfl⟩ := List.getElem_of_mem hp
  have hvals := jsonToVals_ok.mp h
  have hlen := hvals.length_eq
  obtain ⟨v, hv, hval⟩ := hvals.get hi (hlen ▸ hi)
  exact ⟨v, _, hv, hval⟩

theorem Plain.right {Plan : Type} (h : Plain component args) (host : Host Plan) (d : CapsuleDispatch) (name : String)
    {capsule : Capsule} (hgate : d.gate debug name = .ok capsule)
    (hcomponent : host.component capsule.archive.wasm = .ok component) :
    Right component args (d.callJsonIn debug debugType host name args) := by
  unfold CapsuleDispatch.callJsonIn CapsuleDispatch.callRawIn
  simp only [hgate, hcomponent]
  split
  · exact .of_error ..
  · rename_i entry hentry
    split
    · exact .of_error ..
    · rename_i entries hobj
      split
      · exact .of_error ..
      · rename_i vals hvals
        obtain ⟨rest, hfunctions⟩ := List.head?_eq_some_iff.mp (discoverSingleEntry_ok.mp hentry)
        obtain ⟨rfl, hplain⟩ := h entry rest hfunctions (by rw [hobj]; rfl) (.of_vals hvals)
        have hdenotes : List.Forall₂ (fun p val => ∃ v, args.get p.1 = some v ∧ Denotes p.2 v val) entry.params vals := by
          refine List.forall₂_iff_zip.mpr ⟨(jsonToVals_ok.mp hvals).length_eq, fun {p val} hmem => ?_⟩
          obtain ⟨v, hv, hval⟩ := (List.forall₂_iff_zip.mp (jsonToVals_ok.mp hvals)).2 hmem
          exact ⟨v, hv, hval.resolve_right (hplain p (List.of_mem_zip hmem).1 v val hv)⟩
        have hrequested : Requested component args entry vals := ⟨hfunctions, hdenotes⟩
        show Right component args ((runRaw debug host component name entry.iface entry.func vals capsule).1, _)
        refine ⟨?_, ?_, fun hnone => absurd ⟨entry, vals, hrequested⟩ hnone⟩
        · rcases runRaw_calls host component name entry.iface entry.func vals capsule with hcalls | ⟨e, he, hcalls⟩
          · rw [hcalls]
            simp
          · rw [hcalls]
            rw [hfunctions, List.mem_singleton] at he
            rintro c hc
            rw [List.mem_singleton.mp hc, he]
            exact hrequested
        · rcases runRaw_calls host component name entry.iface entry.func vals capsule with hcalls | ⟨e, he, hcalls⟩
          · rw [hcalls]
            simp
          · rw [hcalls]
            simp

/-- A host in which every call runs. -/
def readyHost (component : ComponentType) : Host Unit where
  component _ := .ok component
  plan _ := .ok ()
  prepareLinker _ := .ok ()
  instantiate _ _ := .ok ()
  call _ _ _ := .ok (.bool true)

/-- A dispatch that holds one capsule. -/
def holding (capsule : Capsule) : CapsuleDispatch := { CapsuleDispatch.empty with capsules := fun _ => some capsule }

/-- Arguments that fit the first function reach the capsule. -/
theorem Fits.instantiated {entry : Entry} {rest : List Entry} (h : Fits args entry.params)
    (hobj : args.asObject.isSome = true) (hfunctions : component.interfaceFunctions = entry :: rest)
    (capsule : Capsule) :
    ((holding capsule).callJsonIn debug debugType (readyHost component) "" args).1 ≠ [] := by
  obtain ⟨entries, hentries⟩ := Option.isSome_iff_exists.mp hobj
  obtain ⟨vals, hvals⟩ : ∃ vals, jsonToVals debug debugType args "" entry.params = .ok vals := h.vals ""
  have hgate : (holding capsule).gate debug "" = .ok capsule := CapsuleDispatch.gate_ok.mpr ⟨rfl, List.not_mem_nil⟩
  have hentry : discoverSingleEntry debug component "" = .ok entry :=
    discoverSingleEntry_ok.mpr (by rw [hfunctions]; rfl)
  have hcomponent : (readyHost component).component capsule.archive.wasm = .ok component := rfl
  unfold CapsuleDispatch.callJsonIn CapsuleDispatch.callRawIn
  simp only [hgate, hcomponent, hentry, hentries, hvals]
  show (runRaw debug (readyHost component) component "" entry.iface entry.func vals capsule).1 ≠ []
  simp only [runRaw, readyHost]
  split
  all_goals simp

/-- **Calls from JSON.** A call of a component is right, for every host and every dispatch that runs it, exactly for
    plain arguments. -/
theorem call_json_iff (debug : String → String) (debugType : WitType → String) (capsule : Capsule)
    (component : ComponentType) (args : Value) :
    (∀ (Plan : Type) (host : Host Plan) (d : CapsuleDispatch) (name : String), d.gate debug name = .ok capsule →
        host.component capsule.archive.wasm = .ok component →
        Right component args (d.callJsonIn debug debugType host name args)) ↔
      Plain component args := by
  constructor
  · intro h entry rest hfunctions hobj hfits
    have hright := h Unit (readyHost component) (holding capsule) ""
      (CapsuleDispatch.gate_ok.mpr ⟨rfl, List.not_mem_nil⟩) rfl
    -- capsule code ran, so a call was requested
    have hrequested : ∃ e vals, Requested component args e vals := by
      by_contra hnone
      exact hfits.instantiated hobj hfunctions capsule (hright.refused hnone).1
    obtain ⟨e, vals, honly, hvals⟩ := hrequested
    obtain ⟨rfl, rfl⟩ := List.cons.inj (hfunctions.symm.trans honly)
    refine ⟨rfl, ?_⟩
    intro p hp v val hv hdoubled
    obtain ⟨i, hi, rfl⟩ := List.getElem_of_mem hp
    obtain ⟨v', hv', hdenotes⟩ := hvals.get hi (hvals.length_eq ▸ hi)
    obtain rfl := Option.some.inj (hv'.symm.trans hv)
    exact hdoubled.not_denotes hdenotes
  · intro h Plan host d name hgate hcomponent
    exact h.right host d name hgate hcomponent

/-- Two functions of one interface, without parameters. -/
def twoFunctions : ComponentType where
  exports := [("demo:two/api", .componentInstance [("first", .componentFunc []), ("second", .componentFunc [])])]

/-- A capsule without files. -/
def bareCapsule : Capsule where
  manifest :=
    { capsule := { name := "two", version := "1.0.0", contentHash := "" }
      capability := { network := .none, filesystem := [], subagentSpawn := false, networkAllow := [] }
      dataClass := { reads := [], writes := [], emits := [] }
      risk := { tier := .low, requiredRoles := [], breakGlassEligible := false }
      signing := .bundled }
  archive := .empty

/-- The first of two functions is called. -/
theorem first_of_two_called :
    ¬ ∀ (debug : String → String) (debugType : WitType → String) (capsule : Capsule) (component : ComponentType)
      (args : Value) (Plan : Type) (host : Host Plan) (d : CapsuleDispatch) (name : String),
      d.gate debug name = .ok capsule → host.component capsule.archive.wasm = .ok component →
        Right component args (d.callJsonIn debug debugType host name args) := by
  intro h
  have hright := h id (fun _ => "") bareCapsule twoFunctions (.object []) Unit (readyHost twoFunctions)
    (holding bareCapsule) "" (CapsuleDispatch.gate_ok.mpr ⟨rfl, List.not_mem_nil⟩) rfl
  have hcall : (⟨"demo:two/api", "first", []⟩, []) ∈
      calls ((holding bareCapsule).callJsonIn id (fun _ => "") (readyHost twoFunctions) "" (.object [])).1 := by
    exact List.mem_cons_self
  have honly := (hright.invoked _ hcall).1
  have hlength := congrArg List.length honly
  exact absurd hlength (by decide)

end

end AgentRuntime.Capsule
