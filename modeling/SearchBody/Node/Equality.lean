/-
  Search bodies — when two trees are equal.

  Trees are compared part by part.  Kinds of option values differ, so the empty JSON list
  is not the empty list of options, and numbers compare as numbers (`Json.beq`).

  * `Node.beq`, `Query.beq`, `Aggregation.beq`, `Script.beq`, `OptionValue.beq`, one for
    each type, with `BEq` instances.
-/
import SearchBody.Node

set_option autoImplicit false

namespace SearchBody

/-- Metadata are equal when both are absent or both are equal values. -/
def Json.beqMetadata : Option Json → Option Json → Bool
  | none, none => true
  | some v, some w => v.beq w
  | _, _ => false

mutual

/-- Equality of nodes of one family. -/
def Node.beq : Node → Node → Bool
  | .query q, .query r => q.beq r
  | .aggregation a, .aggregation b => a.beq b
  | .script s, .script t => s.beq t
  | _, _ => false
termination_by structural x => x

/-- Equality of queries: wire type, field and options. -/
def Query.beq : Query → Query → Bool
  | ⟨w, f, body⟩, ⟨w', f', body'⟩ => w == w' && f == f' && OptionValue.beqEntries body body'
termination_by structural x => x

/-- Equality of aggregations, children included. -/
def Aggregation.beq : Aggregation → Aggregation → Bool
  | ⟨n, w, body, m, below⟩, ⟨n', w', body', m', below'⟩ =>
    n == n' && w == w' && OptionValue.beqEntries body body' && Json.beqMetadata m m'
      && Aggregation.beqEntries below below'

/-- Equality of scripts. -/
def Script.beq : Script → Script → Bool
  | ⟨body⟩, ⟨body'⟩ => OptionValue.beqEntries body body'
termination_by structural x => x

/-- Equality of option values of one kind. -/
def OptionValue.beq : OptionValue → OptionValue → Bool
  | .scalar v, .scalar w => Json.beq v w
  | .node n, .node m => n.beq m
  | .list vs, .list ws => OptionValue.beqItems vs ws
  | .map vs, .map ws => OptionValue.beqEntries vs ws
  | _, _ => false
termination_by structural x => x

/-- Equality of lists, item by item. -/
def OptionValue.beqItems : List OptionValue → List OptionValue → Bool
  | [], [] => true
  | v :: vs, w :: ws => v.beq w && OptionValue.beqItems vs ws
  | _, _ => false
termination_by structural x => x

/-- Equality of options, key by key. -/
def OptionValue.beqEntries : {lo lo' : Option String} →
    KeyMap OptionValue lo → KeyMap OptionValue lo' → Bool
  | _, _, .nil, .nil => true
  | _, _, .cons k v _ vs, .cons l w _ ws =>
    k == l && v.beq w && OptionValue.beqEntries vs ws
  | _, _, _, _ => false
termination_by structural _ _ m => m

/-- Equality of named aggregations, name by name. -/
def Aggregation.beqEntries : {lo lo' : Option String} →
    KeyMap Aggregation lo → KeyMap Aggregation lo' → Bool
  | _, _, .nil, .nil => true
  | _, _, .cons k a _ as, .cons l b _ bs =>
    k == l && a.beq b && Aggregation.beqEntries as bs
  | _, _, _, _ => false
termination_by structural _ _ m => m

end

instance : BEq Node := ⟨Node.beq⟩
instance : BEq Query := ⟨Query.beq⟩
instance : BEq Aggregation := ⟨Aggregation.beq⟩
instance : BEq Script := ⟨Script.beq⟩
instance : BEq OptionValue := ⟨OptionValue.beq⟩

end SearchBody
