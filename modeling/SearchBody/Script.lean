/-
  Search bodies — scripts.

  A script is given in full or by the id of a stored one.  Its parameters may be set all
  at once, as one JSON value, or one by one; a parameter set after an object of
  parameters joins it.

  * `Script.inline` and `Script.stored` start a script; `lang`, `params` and `param` set
    its options, and `ScriptCall` is such a call as data.
-/
import SearchBody.Body
import SearchBody.Event

set_option autoImplicit false

namespace SearchBody

namespace Script

/-- A script given by its source. -/
def inline (source : String) : Script := ⟨.single "source" (.text source)⟩

/-- A stored script. -/
def stored (id : String) : Script := ⟨.single "id" (.text id)⟩

/-- Store an option. -/
def set (s : Script) (key : String) (v : OptionValue) : Script := ⟨Body.set s.body key v⟩

/-- The language of the script. -/
def lang (s : Script) (name : String) : Script := s.set "lang" (.text name)

/-- Set all parameters at once. -/
def params (s : Script) (v : Json) : Script := s.set "params" (.scalar v)

/-- The parameters so far; an object given at once is opened into its entries. -/
def openParams (s : Script) : Option OptionValue :=
  match s.body.get? "params" with
  | some (.scalar (.object entries)) => some (.map (entries.map .scalar))
  | slot => slot

/-- Set one parameter and keep the others. -/
def param (s : Script) (key : String) (v : Json) : Script :=
  s.set "params" (.withEntry s.openParams key (.scalar v))

end Script

/-- A call on a script. -/
inductive ScriptCall where
  | lang (name : String)
  | params (v : Json)
  | param (key : String) (v : Json)

namespace ScriptCall

/-- The script after a call. -/
def apply : ScriptCall → Script → Script
  | .lang name, s => s.lang name
  | .params v, s => s.params v
  | .param key v, s => s.param key v

/-- What a call makes of a script. -/
def run (c : ScriptCall) (s : Script) : Outcome Script := .done (c.apply s)

end ScriptCall

/-- How a script starts. -/
inductive NewScript where
  | inline (source : String)
  | stored (id : String)

/-- The script that is started. -/
def NewScript.script : NewScript → Script
  | .inline source => .inline source
  | .stored id => .stored id

end SearchBody
