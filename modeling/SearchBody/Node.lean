/-
  Search bodies — the trees that a request is made of.

  A query, an aggregation and a script each carry a body of options.  The value of an
  option is a JSON value, another node, or a list or map of such values, so the four
  types are defined together.

  * `Query` has a wire type and, when its options belong to one field, that field.
  * `Aggregation` has a name, metadata and named sub-aggregations of its own.
  * `Script` has its body alone.
  * `Node` is any of the three, `Family` says which.
-/
import SearchBody.Json.Basic

set_option autoImplicit false

namespace SearchBody

/-! ## The tree -/

mutual

/-- A query, an aggregation or a script. -/
inductive Node where
  | query (q : Query)
  | aggregation (a : Aggregation)
  | script (s : Script)

/-- A condition on documents. -/
structure Query where
  wireType : String
  /-- the field that the options stand under -/
  field : Option String
  body : KeyMap OptionValue none

/-- A computation over documents, with named ones below it. -/
structure Aggregation where
  name : String
  wireType : String
  body : KeyMap OptionValue none
  /-- data returned unread with the result -/
  metadata : Option Json
  children : KeyMap Aggregation none

/-- A computed value. -/
structure Script where
  body : KeyMap OptionValue none

/-- What an option holds. -/
inductive OptionValue where
  | scalar (v : Json)
  | node (n : Node)
  | list (items : List OptionValue)
  | map (entries : KeyMap OptionValue none)

end

/-- The options of a node. -/
abbrev Body := KeyMap OptionValue none

/-- Named aggregations: those of a request, or those below an aggregation. -/
abbrev Aggregations := KeyMap Aggregation none

instance : Inhabited OptionValue := ⟨.scalar .null⟩

namespace OptionValue

/-- A string as an option. -/
def text (s : String) : OptionValue := .scalar (.string s)

/-- A truth value as an option. -/
def flag (b : Bool) : OptionValue := .scalar (.bool b)

/-- An unsigned word as an option. -/
def count (n : UInt64) : OptionValue := .scalar (.ofUInt64 n)

/-- A measure as an option. -/
def measure (x : Measure) : OptionValue := .scalar (.ofMeasure x)

/-- A query as an option. -/
def query (q : Query) : OptionValue := .node (.query q)

/-- A script as an option. -/
def script (s : Script) : OptionValue := .node (.script s)

end OptionValue

/-! ## Families -/

/-- The families of nodes. -/
inductive Family where
  | query
  | aggregation
  | script
deriving DecidableEq

/-- The word for a family. -/
def Family.word : Family → String
  | .query => "query"
  | .aggregation => "aggregation"
  | .script => "script"

/-- What the nodes of a family are. -/
def Family.Member : Family → Type
  | .query => Query
  | .aggregation => Aggregation
  | .script => Script

/-- A member of a family as a node. -/
def Family.node : (family : Family) → family.Member → Node
  | .query => .query
  | .aggregation => .aggregation
  | .script => .script

namespace Node

/-- The family of a node. -/
def family : Node → Family
  | .query _ => .query
  | .aggregation _ => .aggregation
  | .script _ => .script

/-- The wire type of a node; scripts have one in common. -/
def wireType : Node → String
  | .query q => q.wireType
  | .aggregation a => a.wireType
  | .script _ => "script"

end Node

/-- The direction of an order. -/
inductive SortOrder where
  | ascending
  | descending
deriving DecidableEq

/-- The word for a direction. -/
def SortOrder.word : SortOrder → String
  | .ascending => "asc"
  | .descending => "desc"

/-- `{key: direction}`. -/
def SortOrder.under (key : String) (order : SortOrder) : Json :=
  .object (.single key (.string order.word))

end SearchBody
