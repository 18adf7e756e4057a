/-
  Search bodies — the tokens of a text.

  Reading a document starts with a scan that takes the text one character at a time.
  What has been seen of an unfinished token is kept in a `Scan`; each character leads to
  the next one and may finish tokens.  Blanks between tokens leave no trace, so a text and
  its indented form have the same tokens.

  * `Token.ofText?` is the list of tokens of a text.
-/
import SearchBody.Digit
import SearchBody.Json.Basic

set_option autoImplicit false

namespace SearchBody

namespace Json

/-- A mark, a string or another scalar. -/
inductive Token where
  | openBrace
  | closeBrace
  | openBracket
  | closeBracket
  | colon
  | comma
  /-- a quoted string -/
  | quote (s : String)
  /-- a number, `true`, `false` or `null` -/
  | atom (value : Json)

/-- What is seen of an unfinished token; characters are kept last first. -/
inductive Scan where
  | between
  | word (seen : List Char)
  | quote (seen : List Char)
  /-- after a backslash -/
  | escape (seen : List Char)
  /-- inside `\uXXXX`: how many digits are due, and the value so far; `high` is a high
      surrogate that awaits its partner -/
  | code (seen : List Char) (high : Option Nat) (due value : Nat)
  /-- after a high surrogate -/
  | partner (seen : List Char) (high : Nat)
  /-- after a high surrogate and a backslash -/
  | partnerEscape (seen : List Char) (high : Nat)

namespace Scan

/-- The characters that may stand between tokens. -/
def isBlank (c : Char) : Bool := c = ' ' || c = '\n' || c = '\t' || c = '\r'

/-- The characters of numbers and of `true`, `false`, `null`. -/
def isWordChar (c : Char) : Bool := c.isAlphanum || c = '-' || c = '+' || c = '.'

/-- The token of a mark. -/
def mark? : Char → Option Token
  | '{' => some .openBrace
  | '}' => some .closeBrace
  | '[' => some .openBracket
  | ']' => some .closeBracket
  | ':' => some .colon
  | ',' => some .comma
  | _ => none

/-- The value of an unquoted word. -/
def atom? (accuracy : Number.Accuracy) (text : List Char) : Option Json :=
  if text = ['n', 'u', 'l', 'l'] then some .null
  else if text = ['t', 'r', 'u', 'e'] then some (.bool true)
  else if text = ['f', 'a', 'l', 's', 'e'] then some (.bool false)
  else (Number.ofLiteral? accuracy text).map .number

/-- A character between tokens. -/
def start (c : Char) : Option (Scan × List Token) :=
  if isBlank c then some (.between, [])
  else if c = '"' then some (.quote [], [])
  else if isWordChar c then some (.word [c], [])
  else (mark? c).map fun t => (.between, [t])

/-- The character that a letter after a backslash stands for. -/
def unescape? : Char → Option Char
  | '"' => some '"'
  | '\\' => some '\\'
  | '/' => some '/'
  | 'b' => some '\x08'
  | 'f' => some '\x0c'
  | 'n' => some '\n'
  | 'r' => some '\r'
  | 't' => some '\t'
  | _ => none

/-- The first halves of surrogate pairs. -/
def isHighSurrogate (n : Nat) : Bool := 0xD800 ≤ n && n < 0xDC00

/-- The second halves of surrogate pairs. -/
def isLowSurrogate (n : Nat) : Bool := 0xDC00 ≤ n && n < 0xE000

/-- What follows a complete `\uXXXX`.  A low surrogate completes a pair; a surrogate
    without its partner stands for nothing. -/
def afterCode (seen : List Char) (high : Option Nat) (value : Nat) : Option Scan :=
  match high with
  | some h =>
    if isLowSurrogate value then
      some (.quote (Char.ofNat (0x10000 + (h - 0xD800) * 0x400 + (value - 0xDC00)) :: seen))
    else none
  | none =>
    if isHighSurrogate value then some (.partner seen value)
    else if isLowSurrogate value then none
    else some (.quote (Char.ofNat value :: seen))

/-- A character after what is seen: what is seen then, and the tokens it finishes. -/
def step (accuracy : Number.Accuracy) : Scan → Char → Option (Scan × List Token)
  | .between, c => start c
  | .word seen, c =>
    if isWordChar c then some (.word (c :: seen), [])
    else do
      let v ← atom? accuracy seen.reverse
      let (next, tokens) ← start c
      some (next, .atom v :: tokens)
  | .quote seen, c =>
    if c = '"' then some (.between, [.quote (String.ofList seen.reverse)])
    else if c = '\\' then some (.escape seen, [])
    else if c.toNat < 32 then none
    else some (.quote (c :: seen), [])
  | .escape seen, c =>
    if c = 'u' then some (.code seen none 4 0, [])
    else (unescape? c).map fun d => (.quote (d :: seen), [])
  | .code seen high due value, c => do
    let d ← digitValue? 16 c
    let value := 16 * value + d
    if 1 < due then some (.code seen high (due - 1) value, [])
    else (afterCode seen high value).map fun next => (next, [])
  | .partner seen high, c => if c = '\\' then some (.partnerEscape seen high, []) else none
  | .partnerEscape seen high, c => if c = 'u' then some (.code seen (some high) 4 0, []) else none

/-- The tokens that the end of the text finishes. -/
def finish? (accuracy : Number.Accuracy) : Scan → Option (List Token)
  | .between => some []
  | .word seen => (atom? accuracy seen.reverse).map fun v => [.atom v]
  | _ => none

/-- The tokens of the rest of a text. -/
def run (accuracy : Number.Accuracy) : Scan → List Char → Option (List Token)
  | s, [] => s.finish? accuracy
  | s, c :: cs =>
    match s.step accuracy c with
    | none => none
    | some (next, tokens) => (run accuracy next cs).map (tokens ++ ·)

end Scan

/-- The tokens of a text, if it consists of tokens. -/
def Token.ofText? (accuracy : Number.Accuracy) (text : List Char) : Option (List Token) :=
  Scan.run accuracy .between text

end Json

end SearchBody
