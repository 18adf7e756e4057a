/-
  Search bodies — documents.

  A document is a JSON value.  The entries of an object form a `KeyMap`, so an object
  has one representation and its keys ascend.

  * `Json.beq` is equality up to the sign of zero: numbers compare as numbers.
-/
import SearchBody.KeyMap
import SearchBody.Json.Number

set_option autoImplicit false

namespace SearchBody

/-- A JSON value. -/
inductive Json where
  | null
  | bool (value : Bool)
  | number (value : Number)
  | string (value : String)
  | array (items : List Json)
  | object (entries : KeyMap Json none)

namespace Json

instance : Inhabited Json := ⟨.null⟩

/-- An object of given entries; of two entries with one key the later one stays. -/
def ofEntries (entries : List (String × Json)) : Json := .object (.ofList entries)

/-- The value under a key of an object. -/
def get? (key : String) : Json → Option Json
  | .object entries => entries.get? key
  | _ => none

/-- A whole word as a value. -/
def ofUInt64 (n : UInt64) : Json := .number (.ofUInt64 n)

/-- A measure as a value: what is not finite is written `null`. -/
def ofMeasure (x : Measure) : Json :=
  match x.number? with
  | some n => .number n
  | none => .null

/-! ## Equality -/

mutual

/-- Equality of values, numbers compared as numbers. -/
def beq : Json → Json → Bool
  | .null, .null => true
  | .bool a, .bool b => a == b
  | .number a, .number b => a.beq b
  | .string a, .string b => a == b
  | .array a, .array b => beqItems a b
  | .object a, .object b => beqEntries a b
  | _, _ => false

/-- Equality of lists, item by item. -/
def beqItems : List Json → List Json → Bool
  | [], [] => true
  | a :: as, b :: bs => beq a b && beqItems as bs
  | _, _ => false

/-- Equality of maps, entry by entry. -/
def beqEntries : {lo lo' : Option String} → KeyMap Json lo → KeyMap Json lo' → Bool
  | _, _, .nil, .nil => true
  | _, _, .cons k a _ as, .cons l b _ bs => k == l && beq a b && beqEntries as bs
  | _, _, _, _ => false

end

instance : BEq Json := ⟨beq⟩

end Json

end SearchBody
