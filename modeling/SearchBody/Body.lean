/-
  Search bodies — writing options.

  Every option of a node is a slot of its body.  A slot is written in one of three ways,
  each a function of what it holds, so the slots of a body do not touch one another.

  * `Body.set` stores a value, `Body.push` appends to a list, `Body.setEntry` sets one
    entry of a map.
  * `SlotWrite` is such a write as data, `SlotWrite.apply` carries it out.
  * `get?_set`, `get?_push` and `get?_setEntry`: what a write does to a look-up.
-/
import SearchBody.Node

set_option autoImplicit false

namespace SearchBody

namespace OptionValue

/-- A slot after a push: a list grows at its end, anything else becomes the first item. -/
def pushed (slot : Option OptionValue) (v : OptionValue) : OptionValue :=
  match slot with
  | none => .list [v]
  | some (.list items) => .list (items ++ [v])
  | some w => .list [w, v]

/-- A slot after an entry is set: what is not a map gives way to a map of that entry. -/
def withEntry (slot : Option OptionValue) (entry : String) (v : OptionValue) : OptionValue :=
  match slot with
  | some (.map entries) => .map (entries.insert entry v)
  | _ => .map (.single entry v)

end OptionValue

namespace Body

/-- Store a value, in place of what the slot held. -/
def set (b : Body) (key : String) (v : OptionValue) : Body := b.insert key v

/-- Append a value to the list in a slot. -/
def push (b : Body) (key : String) (v : OptionValue) : Body :=
  b.insert key (.pushed (b.get? key) v)

/-- Set one entry of the map in a slot. -/
def setEntry (b : Body) (key entry : String) (v : OptionValue) : Body :=
  b.insert key (.withEntry (b.get? key) entry v)

theorem get?_set (b : Body) (key k : String) (v : OptionValue) :
    (b.set key v).get? k = if k = key then some v else b.get? k := by
  simp [set]

theorem get?_push (b : Body) (key k : String) (v : OptionValue) :
    (b.push key v).get? k = if k = key then some (.pushed (b.get? key) v) else b.get? k := by
  simp [push]

theorem get?_setEntry (b : Body) (key entry k : String) (v : OptionValue) :
    (b.setEntry key entry v).get? k =
      if k = key then some (.withEntry (b.get? key) entry v) else b.get? k := by
  simp [setEntry]

end Body

/-- A write to one slot. -/
inductive SlotWrite where
  | set (key : String) (v : OptionValue)
  | push (key : String) (v : OptionValue)
  | setEntry (key entry : String) (v : OptionValue)

/-- Carry out a write. -/
def SlotWrite.apply : SlotWrite → Body → Body
  | .set key v, b => b.set key v
  | .push key v, b => b.push key v
  | .setEntry key entry v, b => b.setEntry key entry v

end SearchBody
