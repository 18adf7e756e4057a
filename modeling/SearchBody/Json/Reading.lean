/-
  Search bodies — reading a document.

  The tokens of a text are put together from left to right.  A `Place` says what is due
  next and which containers stand open around it; a token leads to the next place or
  makes the text unreadable.

  * `Json.read?` is the value of a text.  Of two entries with one key in an object the
    later one counts.
-/
import SearchBody.Json.Token

set_option autoImplicit false

namespace SearchBody

namespace Json

/-- An open container. -/
inductive Frame where
  /-- the items so far, last first -/
  | array (items : List Json)
  /-- the entries so far, and the key whose value is due -/
  | object (entries : KeyMap Json none) (key : String)

/-- A place between two tokens, inside some open containers. -/
inductive Place where
  | value (around : List Frame)
  /-- after `[` -/
  | firstItem (around : List Frame)
  /-- after the opening brace of an object -/
  | firstKey (around : List Frame)
  | key (entries : KeyMap Json none) (around : List Frame)
  | colon (entries : KeyMap Json none) (key : String) (around : List Frame)
  /-- after a complete value -/
  | done (v : Json) (around : List Frame)

namespace Place

/-- A token where a value is due. -/
def startValue (around : List Frame) : Token → Option Place
  | .openBrace => some (.firstKey around)
  | .openBracket => some (.firstItem around)
  | .quote s => some (.done (.string s) around)
  | .atom v => some (.done v around)
  | _ => none

/-- The place after a token. -/
def step : Place → Token → Option Place
  | .value around, t => startValue around t
  | .firstItem around, .closeBracket => some (.done (.array []) around)
  | .firstItem around, t => startValue (.array [] :: around) t
  | .firstKey around, .closeBrace => some (.done (.object .nil) around)
  | .firstKey around, .quote k => some (.colon .nil k around)
  | .key entries around, .quote k => some (.colon entries k around)
  | .colon entries k around, .colon => some (.value (.object entries k :: around))
  | .done v (.array items :: around), .comma => some (.value (.array (v :: items) :: around))
  | .done v (.array items :: around), .closeBracket =>
    some (.done (.array (v :: items).reverse) around)
  | .done v (.object entries k :: around), .comma => some (.key (entries.insert k v) around)
  | .done v (.object entries k :: around), .closeBrace =>
    some (.done (.object (entries.insert k v)) around)
  | _, _ => none

/-- The value at the end of the text. -/
def finish? : Place → Option Json
  | .done v [] => some v
  | _ => none

/-- The value that the remaining tokens complete. -/
def run : Place → List Token → Option Json
  | p, [] => p.finish?
  | p, t :: ts =>
    match p.step t with
    | none => none
    | some next => run next ts

end Place

/-- The value that a list of tokens denotes. -/
def ofTokens? (tokens : List Token) : Option Json := Place.run (.value []) tokens

/-- The value of a text, its numbers read as closely as is asked for. -/
def read? (accuracy : Number.Accuracy) (text : String) : Option Json :=
  (Token.ofText? accuracy text.toList).bind ofTokens?

end Json

end SearchBody
