/-
  Search bodies — settings as TOML.

  Settings are written as a table `serialize` with two keys.  Reading takes what is there
  and leaves the rest at its default; keys that it does not know do not matter.

  * `Config.ofTable?` decodes a table, `Config.ofText?` a text with any reader of TOML.
  * `Config.toText` writes settings in full.
-/
import SearchBody.Config
import SearchBody.Toml.Reading

set_option autoImplicit false

namespace SearchBody

/-- The section key that a word names. -/
def SectionKey.ofWord? (word : String) : Option SectionKey :=
  if word = SectionKey.aggs.word then some .aggs
  else if word = SectionKey.aggregations.word then some .aggregations
  else none

/-- A reader of TOML: the table that a text says, if it says one. -/
abbrev Toml.TableReader := String → Option Toml.Table

/-- Whether a value has no content, as a table or an array. -/
def Toml.isVoid : Toml → Bool
  | .table _ entries => entries.isEmpty
  | .array items => items.isEmpty
  | _ => false

namespace Config

/-- A section key: its word, or a table with nothing under that word and no other key. -/
def decodeKey? : Toml → Option SectionKey
  | .string word => SectionKey.ofWord? word
  | .table _ (.cons word v _ .nil) => if v.isVoid then SectionKey.ofWord? word else none
  | _ => none

/-- A layout, given as whether the text is to be indented. -/
def decodeLayout? : Toml → Option Layout
  | .boolean true => some .indented
  | .boolean false => some .compact
  | _ => none

/-- Decode a setting that may be missing. -/
def decodeOr {α : Type} (decode? : Toml → Option α) (default : α) : Option Toml → Option α
  | none => some default
  | some v => decode? v

/-- Settings from the values of the two keys. -/
def ofValues? (key pretty : Option Toml) : Option Config := do
  let key ← decodeOr decodeKey? standard.sectionKey key
  let layout ← decodeOr decodeLayout? standard.layout pretty
  return ⟨key, layout⟩

/-- Settings from the value of `serialize`: a table of the two keys, or the two values in
    order.  A date has neither. -/
def ofValue? : Toml → Option Config
  | .table _ entries => ofValues? (entries.get? "aggs_key") (entries.get? "pretty")
  | .array vs => ofValues? vs[0]? vs[1]?
  | .tables earlier last =>
    let vs := (earlier ++ [last]).map (.table .header)
    ofValues? vs[0]? vs[1]?
  | .datetime _ => some standard
  | _ => none

/-- The settings in a table. -/
def ofTable? (t : Toml.Table) : Option Config := decodeOr ofValue? standard (t.get? "serialize")

/-- The settings in a text. -/
def ofText? (read : Toml.TableReader) (text : String) : Option Config := (read text).bind ofTable?

/-- Settings as a text. -/
def toText (c : Config) : String :=
  "[serialize]\naggs_key = \"" ++ c.sectionKey.word ++ "\"\npretty = "
    ++ (match c.layout with
      | .compact => "false"
      | .indented => "true") ++ "\n"

end Config

end SearchBody
