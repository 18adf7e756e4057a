/-
  Search bodies — the strings of TOML.

  A string stands between single or double quotes, on one line or, between triple quotes,
  on several.  Double quotes allow escapes.

  * `Toml.Quotation` describes the four forms.
  * `Toml.quoted?` reads a string from its opening quotes on: its characters and the text
    that follows.
-/
import SearchBody.Digit

set_option autoImplicit false

namespace SearchBody

namespace Toml

/-- A form of string. -/
structure Quotation where
  /-- whether the quotes are double, and escapes allowed -/
  double : Bool
  /-- whether the quotes are triple, and line breaks allowed -/
  block : Bool

/-- The quote that bounds the string. -/
def Quotation.mark (q : Quotation) : Char := if q.double then '"' else '\''

/-- Blanks within a line. -/
def isBlank (c : Char) : Bool := c = ' ' || c = '\t'

/-- Characters that may stand in a comment or a string: all but control characters. -/
def isTextChar (c : Char) : Bool := c = '\t' || (0x20 ≤ c.toNat && c.toNat ≠ 0x7F)

/-- Where a reader stands in a string. -/
inductive StringPlace where
  | content
  /-- after some quotes in a block -/
  | quotes (n : Nat)
  /-- after a backslash -/
  | escape
  /-- after a backslash and blanks, where a line break is due -/
  | escapedBlank
  /-- after an escaped line break, where blanks and line breaks are skipped -/
  | skipping
  /-- inside the digits of a code point: how many are due, and the value so far -/
  | code (due value : Nat)

/-- The character that a letter after a backslash stands for. -/
def unescape? : Char → Option Char
  | 'b' => some '\x08'
  | 't' => some '\t'
  | 'n' => some '\n'
  | 'f' => some '\x0c'
  | 'r' => some '\r'
  | '"' => some '"'
  | '\\' => some '\\'
  | _ => none

/-- The character of a code point, if it is one. -/
def ofCode? (n : Nat) : Option Char :=
  if h : n.isValidChar then some (Char.ofNatAux n h) else none

/-- A character of the content: what is read then and where the reader stands; a string on
    one line may also end here. -/
inductive StringStep where
  | next (place : StringPlace) (seen : List Char)
  /-- the string ended before this character -/
  | endBefore (seen : List Char)
  | endHere (seen : List Char)

/-- The step of a character that is no line break. -/
def Quotation.step (q : Quotation) (seen : List Char) (c : Char) :
    StringPlace → Option StringStep
  | .content =>
    if c = q.mark then
      some (if q.block then .next (.quotes 1) seen else .endHere seen)
    else if q.double ∧ c = '\\' then some (.next .escape seen)
    else if isTextChar c then some (.next .content (c :: seen))
    else none
  | .quotes n =>
    if c = q.mark then (if n < 5 then some (.next (.quotes (n + 1)) seen) else none)
    else if 3 ≤ n then some (.endBefore (List.replicate (n - 3) q.mark ++ seen))
    else
      let seen := List.replicate n q.mark ++ seen
      if q.double ∧ c = '\\' then some (.next .escape seen)
      else if isTextChar c then some (.next .content (c :: seen))
      else none
  | .escape =>
    if c = 'u' then some (.next (.code 4 0) seen)
    else if c = 'U' then some (.next (.code 8 0) seen)
    else if q.block ∧ isBlank c then some (.next .escapedBlank seen)
    else (unescape? c).map fun d => .next .content (d :: seen)
  | .escapedBlank => if isBlank c then some (.next .escapedBlank seen) else none
  | .skipping =>
    if isBlank c then some (.next .skipping seen)
    else if c = q.mark then some (.next (.quotes 1) seen)
    else if c = '\\' then some (.next .escape seen)
    else if isTextChar c then some (.next .content (c :: seen))
    else none
  | .code due value => do
    let value := 16 * value + (← digitValue? 16 c)
    if 1 < due then some (.next (.code (due - 1) value) seen)
    else (ofCode? value).map fun d => .next .content (d :: seen)

/-- The step of a line break, which only a block has. -/
def Quotation.breakLine (q : Quotation) (seen : List Char) : StringPlace → Option StringStep
  | .content => if q.block then some (.next .content ('\n' :: seen)) else none
  | .quotes n =>
    if 3 ≤ n then some (.endBefore (List.replicate (n - 3) q.mark ++ seen))
    else some (.next .content ('\n' :: List.replicate n q.mark ++ seen))
  | .escape => if q.block then some (.next .skipping seen) else none
  | .escapedBlank | .skipping => some (.next .skipping seen)
  | .code .. => none

/-- The characters of a string from a place on, and the text after the closing quotes. -/
def Quotation.scan (q : Quotation) :
    StringPlace → List Char → List Char → Option (List Char × List Char)
  | place, seen, [] =>
    match place with
    | .quotes n =>
      if 3 ≤ n then some ((List.replicate (n - 3) q.mark ++ seen).reverse, []) else none
    | _ => none
  | place, seen, '\r' :: '\n' :: cs =>
    match q.breakLine seen place with
    | some (.next place seen) => q.scan place seen cs
    | some (.endBefore seen) => some (seen.reverse, '\r' :: '\n' :: cs)
    | some (.endHere seen) => some (seen.reverse, cs)
    | none => none
  | place, seen, '\n' :: cs =>
    match q.breakLine seen place with
    | some (.next place seen) => q.scan place seen cs
    | some (.endBefore seen) => some (seen.reverse, '\n' :: cs)
    | some (.endHere seen) => some (seen.reverse, cs)
    | none => none
  | place, seen, c :: cs =>
    match q.step seen c place with
    | some (.next place seen) => q.scan place seen cs
    | some (.endBefore seen) => some (seen.reverse, c :: cs)
    | some (.endHere seen) => some (seen.reverse, cs)
    | none => none

/-- A line break at the start of a block does not count. -/
def dropLineBreak : List Char → List Char
  | '\n' :: cs => cs
  | '\r' :: '\n' :: cs => cs
  | cs => cs

/-- The form of string that a text opens, and what follows the quotes. -/
def openQuotation? : List Char → Option (Quotation × List Char)
  | '"' :: '"' :: '"' :: cs => some (⟨true, true⟩, dropLineBreak cs)
  | '\'' :: '\'' :: '\'' :: cs => some (⟨false, true⟩, dropLineBreak cs)
  | '"' :: cs => some (⟨true, false⟩, cs)
  | '\'' :: cs => some (⟨false, false⟩, cs)
  | _ => none

/-- The string that a text starts with, and the text after it. -/
def quoted? (text : List Char) : Option (String × List Char) := do
  let (q, cs) ← openQuotation? text
  let (s, rest) ← q.scan .content [] cs
  return (String.ofList s, rest)

/-- The string on one line that a text starts with, and the text after it. -/
def quotedKey? : List Char → Option (String × List Char)
  | c :: cs => do
    let (s, rest) ← (Quotation.mk (c = '"') false).scan .content [] cs
    return (String.ofList s, rest)
  | [] => none

end Toml

end SearchBody
