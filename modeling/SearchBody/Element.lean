/-
  Search bodies — arguments whose kind is known only at run time.

  Some calls take any value and accept it if it is a node of the family that they need.

  * `Element` is such an argument, `Element.kind` what it is, and `ElementKind.words`
    how a message names it.
  * `Element.check` and the readers `query?`, `aggregation?`, `script?` refuse a value of
    another kind with a `TypeMismatch` that names what was needed and what was given;
    `member?` is these three as one.
-/
import SearchBody.Node

set_option autoImplicit false

namespace SearchBody

/-- An argument of any kind. -/
inductive Element where
  | node (n : Node)
  | scalar (v : Json)

/-- The kinds of elements: nodes by family, scalars by kind of value. -/
inductive ElementKind where
  | node (family : Family)
  | null
  | boolean
  | number
  | string
  | array
  | object
deriving DecidableEq

/-- The name of a kind in a message. -/
def ElementKind.words : ElementKind → String
  | .node family => family.word ++ " node"
  | .null => "null"
  | .boolean => "boolean"
  | .number => "number"
  | .string => "string"
  | .array => "array"
  | .object => "object"

/-- A node of the family `expected` was needed, and something else was given. -/
structure TypeMismatch where
  expected : Family
  actual : ElementKind
deriving DecidableEq

/-- The text of the error. -/
def TypeMismatch.message (m : TypeMismatch) : String :=
  "Type mismatch: expected " ++ m.expected.word ++ " node, got " ++ m.actual.words

namespace Element

/-- The kind of an element. -/
def kind : Element → ElementKind
  | .node n => .node n.family
  | .scalar .null => .null
  | .scalar (.bool _) => .boolean
  | .scalar (.number _) => .number
  | .scalar (.string _) => .string
  | .scalar (.array _) => .array
  | .scalar (.object _) => .object

/-- How a message names the element. -/
def describe (e : Element) : String := e.kind.words

/-- Whether the element is a node of a family. -/
def check (e : Element) (family : Family) : Except TypeMismatch Unit :=
  if e.kind = .node family then .ok () else .error ⟨family, e.kind⟩

/-- The query that the element is. -/
def query? : Element → Except TypeMismatch Query
  | .node (.query q) => .ok q
  | e => .error ⟨.query, e.kind⟩

/-- The aggregation that the element is. -/
def aggregation? : Element → Except TypeMismatch Aggregation
  | .node (.aggregation a) => .ok a
  | e => .error ⟨.aggregation, e.kind⟩

/-- The script that the element is. -/
def script? : Element → Except TypeMismatch Script
  | .node (.script s) => .ok s
  | e => .error ⟨.script, e.kind⟩

/-- The member of a family that the element is. -/
def member? : (family : Family) → Element → Except TypeMismatch family.Member
  | .query => query?
  | .aggregation => aggregation?
  | .script => script?

end Element

end SearchBody
