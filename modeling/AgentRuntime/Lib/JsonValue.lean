import Mathlib.Data.List.Basic
import Mathlib.Data.Int.Notation
import Mathlib.Data.String.Basic
import AgentRuntime.Lib.SortedMap

/-!
# `Lib.JsonValue` — JSON values

A parsed JSON document and the ways of looking into it. The entries of an object stand in the order it is iterated
in. A float is the machine's own.
-/

namespace Json

/-- A number: an integer of 64 bits, or a float. -/
inductive Number where
  | posInt (n : ℕ)
  | negInt (i : ℤ)
  | float (f : Float)

namespace Number

def asU64 : Number → Option ℕ
  | .posInt n => some n
  | _ => none

def asI64 : Number → Option ℤ
  | .posInt n => if n < 2 ^ 63 then some n else none
  | .negInt i => some i
  | .float _ => none

def asF64 : Number → Float
  | .posInt n => Float.ofNat n
  | .negInt i => Float.ofInt i
  | .float f => f

end Number

inductive Value where
  | null
  | bool (b : Bool)
  | number (n : Number)
  | string (s : String)
  | array (items : List Value)
  | object (entries : List (String × Value))

namespace Value

def asBool : Value → Option Bool
  | .bool b => some b
  | _ => none

def asU64 : Value → Option ℕ
  | .number n => n.asU64
  | _ => none

def asI64 : Value → Option ℤ
  | .number n => n.asI64
  | _ => none

def asStr : Value → Option String
  | .string s => some s
  | _ => none

def asArray : Value → Option (List Value)
  | .array items => some items
  | _ => none

def asObject : Value → Option (List (String × Value))
  | .object entries => some entries
  | _ => none

/-- The member of an object. -/
def get (v : Value) (key : String) : Option Value := v.asObject.bind fun entries => entries.lookup key

def asF64 : Value → Option Float
  | .number n => some n.asF64
  | _ => none

/-- An object made of entries given in any order. -/
def ofEntries (entries : List (String × Value)) : Value :=
  .object (SortedMap.ofEntries entries)

/-- An index of an array, in the form a pointer writes it. -/
def pointerIndex (token : String) : Option ℕ :=
  let digits := token.toList
  if digits = [] ∨ (digits.head? = some '0' ∧ digits.length ≠ 1) ∨ ¬ digits.all Char.isDigit then none
  else some (digits.foldl (fun n c => 10 * n + (c.toNat - 48)) 0)

/-- One token of a pointer: a member of an object or an item of an array. -/
def descend (v : Value) (token : String) : Option Value :=
  match v with
  | .object entries => entries.lookup token
  | .array items => (pointerIndex token).bind fun i => items[i]?
  | _ => none

/-- What a pointer, given by its tokens, leads to. -/
def pointer (v : Value) (tokens : List String) : Option Value := tokens.foldlM descend v

end Value

end Json
