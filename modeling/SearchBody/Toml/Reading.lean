/-
  Search bodies — reading TOML.

  A text is a list of lines: blank ones and comments, headers, and keys with values.  Each
  reader takes what it reads from the front of the text and leaves the rest.

  * `Toml.value?` reads a value; arrays and tables in braces may be nested
    `Toml.maxNesting` deep.
  * `Toml.read?` is the table of a text.
-/
import SearchBody.Toml.Quoted
import SearchBody.Toml.Word

set_option autoImplicit false

namespace SearchBody

namespace Toml

/-- Read something from the front of a text. -/
abbrev Reader (α : Type) := List Char → Option (α × List Char)

/-- How deep values may be nested. -/
def maxNesting : Nat := 79

/-- How many parts a dotted key may have. -/
def maxKeyParts : Nat := 79

/-! ## Blanks, comments and ends of lines -/

/-- What follows blanks. -/
def skipBlanks (cs : List Char) : List Char := cs.dropWhile isBlank

/-- What follows a comment, if the text starts with one. -/
def skipComment : List Char → List Char
  | '#' :: cs => cs.dropWhile isTextChar
  | cs => cs

/-- What follows a line break. -/
def lineBreak? : List Char → Option (List Char)
  | '\n' :: cs => some cs
  | '\r' :: '\n' :: cs => some cs
  | _ => none

/-- What follows the rest of a line that holds nothing but blanks and a comment. -/
def endLine? (cs : List Char) : Option (List Char) :=
  match skipComment (skipBlanks cs) with
  | [] => some []
  | cs => lineBreak? cs

/-- Skip blanks, comments and line breaks between the items of an array. -/
def skipLines : Nat → List Char → List Char
  | 0, cs => cs
  | fuel + 1, cs =>
    let cs := skipBlanks cs
    match lineBreak? (skipComment cs) with
    | some rest => skipLines fuel rest
    | none => cs

/-- Skip all that may stand between the items of an array. -/
def skipSpace (cs : List Char) : List Char := skipLines cs.length cs

/-- What follows an expected character. -/
def expect? (c : Char) : List Char → Option (List Char)
  | c' :: cs => if c' = c then some cs else none
  | [] => none

/-! ## Keys -/

/-- The characters of bare keys. -/
def isKeyChar (c : Char) : Bool := c.isAlphanum || c = '_' || c = '-'

/-- One part of a key, bare or in quotes. -/
def keyPart? (cs : List Char) : Option (String × List Char) :=
  match cs with
  | '"' :: _ | '\'' :: _ => quotedKey? cs
  | _ =>
    let name := cs.takeWhile isKeyChar
    if name.isEmpty then none else some (String.ofList name, cs.dropWhile isKeyChar)

/-- The parts of a key, with points between them. -/
def keyParts? : Nat → Reader (List String)
  | 0, _ => none
  | fuel + 1, cs => do
    let (part, cs) ← keyPart? (skipBlanks cs)
    match skipBlanks cs with
    | '.' :: cs =>
      let (parts, cs) ← keyParts? fuel cs
      return (part :: parts, cs)
    | cs => return ([part], cs)

/-- A key: its path and its last part. -/
def key? (cs : List Char) : Option ((List String × String) × List Char) := do
  let (parts, cs) ← keyParts? maxKeyParts cs
  let last ← parts.getLast?
  return ((parts.dropLast, last), cs)

/-! ## Values -/

/-- An unquoted scalar.  A date may be followed by one blank and a time. -/
def word? (cs : List Char) : Option (Toml × List Char) :=
  let first := cs.takeWhile isWordChar
  let rest := cs.dropWhile isWordChar
  match isDate first, rest with
  | true, ' ' :: rest' =>
    let second := rest'.takeWhile isWordChar
    if second.isEmpty then (ofWord? first).map (·, rest)
    else (ofWord? (first ++ ' ' :: second)).map (·, rest'.dropWhile isWordChar)
  | _, _ => (ofWord? first).map (·, rest)

/-- The items of an array up to its closing bracket. -/
def items? (item : Reader Toml) : Nat → Reader (List Toml)
  | 0, _ => none
  | fuel + 1, cs =>
    match skipSpace cs with
    | ']' :: rest => some ([], rest)
    | cs => do
      let (v, cs) ← item cs
      match skipSpace cs with
      | ',' :: cs =>
        let (vs, cs) ← items? item fuel cs
        return (v :: vs, cs)
      | cs => do
        let cs ← expect? ']' cs
        return ([v], cs)

/-- A key and its value. -/
def keyValue? (item : Reader Toml) : Reader ((List String × String) × Toml) := fun cs => do
  let (key, cs) ← key? cs
  let cs ← expect? '=' cs
  let (v, cs) ← item (skipBlanks cs)
  return ((key, v), cs)

/-- The entries of a table in braces up to the closing brace. -/
def entries? (item : Reader Toml) : Nat → Table → Reader Table
  | 0, _, _ => none
  | fuel + 1, t, cs => do
    let (((path, key), v), cs) ← keyValue? item cs
    let t ← setKey path key v .inline t
    match skipBlanks cs with
    | ',' :: cs => entries? item fuel t cs
    | cs => do
      let cs ← expect? '}' cs
      return (t, cs)

/-- A table in braces, from after the opening brace. -/
def inlineTable? (item : Reader Toml) : Reader Table := fun cs =>
  match skipBlanks cs with
  | '}' :: rest => some (.empty, rest)
  | _ => entries? item cs.length .empty cs

/-- A value nested at most so deep. -/
def nested? : Nat → Reader Toml
  | depth, cs =>
    match depth, cs with
    | _, '"' :: _ | _, '\'' :: _ => (quoted? cs).map fun (s, rest) => (.string s, rest)
    | depth + 1, '[' :: rest =>
      (items? (nested? depth) (rest.length + 1) rest).map fun (vs, rest) => (.array vs, rest)
    | depth + 1, '{' :: rest =>
      (inlineTable? (nested? depth) rest).map fun (t, rest) => (.table .inline t, rest)
    | _, _ => word? cs

/-- A value. -/
def value? : Reader Toml := nested? maxNesting

/-! ## Texts -/

/-- What is read so far: the table and the path of the last header. -/
structure Progress where
  root : Table
  current : List String

/-- A header, from after its first bracket. -/
def header? (p : Progress) : List Char → Option (Progress × List Char)
  | '[' :: cs => do
    let ((path, key), cs) ← key? cs
    let cs ← expect? ']' cs
    let cs ← expect? ']' cs
    let root ← openArrayItem path key p.root
    return (⟨root, path ++ [key]⟩, ← endLine? cs)
  | cs => do
    let ((path, key), cs) ← key? cs
    let cs ← expect? ']' cs
    let root ← openTable path key p.root
    return (⟨root, path ++ [key]⟩, ← endLine? cs)

/-- One line of a text that is not at its end. -/
def line? (p : Progress) (cs : List Char) : Option (Progress × List Char) :=
  match cs with
  | '[' :: rest => header? p rest
  | '#' :: _ | '\n' :: _ | '\r' :: _ => (endLine? cs).map (p, ·)
  | cs => do
    let (((path, key), v), cs) ← keyValue? value? cs
    let root ← setKeyUnder p.current path key v p.root
    return (⟨root, p.current⟩, ← endLine? cs)

/-- The lines of a text. -/
def lines? : Nat → Progress → List Char → Option Table
  | 0, _, _ => none
  | fuel + 1, p, cs =>
    match skipBlanks cs with
    | [] => some p.root
    | cs => do
      let (p, rest) ← line? p cs
      lines? fuel p rest

/-- A mark of byte order at the start of a text does not count. -/
def dropByteOrderMark : List Char → List Char
  | c :: cs => if c.toNat = 0xFEFF then cs else c :: cs
  | [] => []

/-- The table of a text. -/
def read? (text : String) : Option Table :=
  let cs := dropByteOrderMark text.toList
  lines? (cs.length + 1) ⟨.empty, []⟩ cs

end Toml

end SearchBody
