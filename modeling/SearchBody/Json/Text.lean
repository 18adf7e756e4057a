/-
  Search bodies — the text of a document.

  A document is written on one line without blanks, or indented by two blanks a level
  with one entry a line.  Both layouts share one writer: they differ only in what stands
  between the marks.

  * `Json.render` is the text of a value in a `Layout`.
  * `Json.quoted` writes a string: quotes, backslashes and control characters are
    escaped, every other character stands for itself.
-/
import SearchBody.Digit
import SearchBody.Json.Basic

set_option autoImplicit false

namespace SearchBody

/-- How the entries of a document are set out. -/
inductive Layout where
  | compact
  | indented
deriving DecidableEq

namespace Layout

/-- What stands before an entry at a depth. -/
def lineBreak : Layout → Nat → List Char
  | .compact, _ => []
  | .indented, depth => '\n' :: List.replicate (2 * depth) ' '

/-- What stands between a key and its value. -/
def colon : Layout → List Char
  | .compact => [':']
  | .indented => [':', ' ']

/-- Texts between two brackets, parted by commas. -/
def bracketed (l : Layout) (depth : Nat) (opening closing : Char) :
    List (List Char) → List Char
  | [] => [opening, closing]
  | text :: texts =>
    opening :: l.lineBreak (depth + 1) ++ text
      ++ texts.flatMap (fun t => ',' :: l.lineBreak (depth + 1) ++ t)
      ++ l.lineBreak depth ++ [closing]

end Layout

namespace Json

/-- A character inside a quoted string. -/
def escaped (c : Char) : List Char :=
  match c with
  | '"' => ['\\', '"']
  | '\\' => ['\\', '\\']
  | '\x08' => ['\\', 'b']
  | '\x0c' => ['\\', 'f']
  | '\n' => ['\\', 'n']
  | '\r' => ['\\', 'r']
  | '\t' => ['\\', 't']
  | c =>
    if c.toNat < 32 then
      ['\\', 'u', '0', '0', hexDigit (c.toNat / 16), hexDigit (c.toNat % 16)]
    else [c]

/-- A string between quotes. -/
def quoted (s : String) : List Char := '"' :: s.toList.flatMap escaped ++ ['"']

mutual

/-- The text of a value at a depth. -/
def write (l : Layout) (depth : Nat) : Json → List Char
  | .null => ['n', 'u', 'l', 'l']
  | .bool true => ['t', 'r', 'u', 'e']
  | .bool false => ['f', 'a', 'l', 's', 'e']
  | .number n => n.literal
  | .string s => quoted s
  | .array items => l.bracketed depth '[' ']' (writeItems l (depth + 1) items)
  | .object entries => l.bracketed depth '{' '}' (writeEntries l (depth + 1) entries)

/-- The texts of the items of an array. -/
def writeItems (l : Layout) (depth : Nat) : List Json → List (List Char)
  | [] => []
  | v :: vs => write l depth v :: writeItems l depth vs

/-- The texts of the entries of an object. -/
def writeEntries (l : Layout) (depth : Nat) :
    {lo : Option String} → KeyMap Json lo → List (List Char)
  | _, .nil => []
  | _, .cons k v _ rest =>
    (quoted k ++ l.colon ++ write l depth v) :: writeEntries l depth rest

end

/-- The text of a document. -/
def render (l : Layout) (v : Json) : String := String.ofList (v.write l 0)

/-- The text of a document on one line. -/
def compact (v : Json) : String := v.render .compact

end Json

end SearchBody
