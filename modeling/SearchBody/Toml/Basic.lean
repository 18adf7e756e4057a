/-
  Search bodies — TOML tables.

  A table of settings is put together from the lines of a text.  How a table came about
  decides what may still be added to it, so every table inside another one keeps its
  origin.

  * `Toml` is a value: a scalar, an array, a table or an array of tables.
  * `Toml.extend` finds the table at a path, making tables that are missing, and changes
    it; a path through a closed table or a plain value leads nowhere.
  * `Toml.setKey`, `Toml.openTable` and `Toml.openArrayItem` are the three kinds of lines:
    a key with its value, the header of a table and the header of an item in an array of
    tables.
-/
import SearchBody.KeyMap
import SearchBody.Binary64

set_option autoImplicit false

namespace SearchBody

namespace Toml

/-- How a table came about. -/
inductive Origin where
  /-- written in braces, closed for good -/
  | inline
  /-- by a header of its own -/
  | header
  /-- by the header of a table below it -/
  | implied
  /-- by a dotted key -/
  | dotted
deriving DecidableEq

end Toml

/-- A value of a TOML text. -/
inductive Toml where
  | string (s : String)
  | integer (n : Int)
  | float (x : Measure)
  | boolean (b : Bool)
  /-- a date, a time or both, as written -/
  | datetime (text : List Char)
  | array (items : List Toml)
  | table (origin : Toml.Origin) (entries : KeyMap Toml none)
  /-- tables under one repeated header; the last one is open -/
  | tables (earlier : List (KeyMap Toml none)) (last : KeyMap Toml none)

namespace Toml

/-- The entries of a table. -/
abbrev Table := KeyMap Toml none

instance : Inhabited Toml := ⟨.boolean false⟩

/-- Whether a table is closed for a key path, dotted or of a header. -/
def Origin.isClosed (dottedKey : Bool) : Origin → Bool
  | .inline => true
  | .header => dottedKey
  | .implied | .dotted => false

/-- Change the table at a path below a table of given origin. -/
def extend (dottedKey : Bool) (change : Origin → Table → Option Table) :
    List String → Origin → Table → Option Table
  | [], origin, t => change origin t
  | k :: ks, _, t =>
    match t.get? k with
    | none =>
      let origin := if dottedKey then Origin.dotted else .implied
      (extend dottedKey change ks origin .empty).map fun sub => t.insert k (.table origin sub)
    | some (.table origin sub) =>
      if origin.isClosed dottedKey then none
      else (extend dottedKey change ks origin sub).map fun sub => t.insert k (.table origin sub)
    | some (.tables earlier last) =>
      (extend dottedKey change ks .header last).map fun last => t.insert k (.tables earlier last)
    | some _ => none

/-- Set a new key.  The table that a dotted key leads to must be one made by dotted keys. -/
def addKey (isDotted : Bool) (key : String) (v : Toml) (origin : Origin) (t : Table) :
    Option Table :=
  if isDotted ∧ origin ≠ .dotted then none
  else if t.contains key then none
  else some (t.insert key v)

/-- Set a key below a table, in braces or of a header. -/
def setKey (path : List String) (key : String) (v : Toml) (origin : Origin) (t : Table) :
    Option Table :=
  extend true (addKey (!path.isEmpty) key v) path origin t

/-- Give a table its header.  Only a table that is missing or implied may have one. -/
def openTable (path : List String) (key : String) (root : Table) : Option Table :=
  extend false (fun _ t =>
    match t.get? key with
    | none => some (t.insert key (.table .header .empty))
    | some (.table .implied sub) => some (t.insert key (.table .header sub))
    | some _ => none) path .header root

/-- Start the next item of an array of tables. -/
def openArrayItem (path : List String) (key : String) (root : Table) : Option Table :=
  extend false (fun _ t =>
    match t.get? key with
    | none => some (t.insert key (.tables [] .empty))
    | some (.tables earlier last) => some (t.insert key (.tables (earlier ++ [last]) .empty))
    | some _ => none) path .header root

/-- Set a key below the table of the last header. -/
def setKeyUnder (current path : List String) (key : String) (v : Toml) (root : Table) :
    Option Table :=
  extend false (setKey path key v) current .header root

end Toml

end SearchBody
