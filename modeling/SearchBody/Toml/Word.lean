/-
  Search bodies — the unquoted scalars of TOML.

  Numbers, truth values, dates and times are written without quotes.  A scalar is the
  longest run of word characters, and all of the run has to be one.

  * `Toml.ofWord?` is the value of such a run.
  * `Toml.isDate` and `Toml.isTime` recognise dates and times; days are checked against
    the month and the year.
-/
import SearchBody.Digit
import SearchBody.Toml.Basic

set_option autoImplicit false

namespace SearchBody

namespace Toml

/-- The characters of unquoted scalars. -/
def isWordChar (c : Char) : Bool :=
  c.isAlphanum || c = '-' || c = '+' || c = '_' || c = '.' || c = ':'

/-! ## Digits -/

/-- The values of digits; underscores may stand between two of them. -/
def digits? (base : Nat) : List Char → Option (List Nat)
  | [] => none
  | [c] => (digitValue? base c).map fun d => [d]
  | c :: '_' :: cs => do
    let d ← digitValue? base c
    let ds ← digits? base cs
    return d :: ds
  | c :: c' :: cs => do
    let d ← digitValue? base c
    let ds ← digits? base (c' :: cs)
    return d :: ds

/-- The number of a list of digits. -/
def ofDigits (base : Nat) (ds : List Nat) : Nat := ds.foldl (fun n d => base * n + d) 0

/-- A sign, if there is one, and what follows. -/
def splitSign : List Char → Bool × List Char
  | '-' :: cs => (true, cs)
  | '+' :: cs => (false, cs)
  | cs => (false, cs)

/-- The digits of a decimal whole number, which has no zero in front of others. -/
def wholeDigits? (cs : List Char) : Option (List Nat) := do
  let ds ← digits? 10 cs
  if ds.head? = some 0 ∧ ds.length ≠ 1 then none else some ds

/-! ## Numbers -/

/-- An integer of 64 bits with sign. -/
def signed? (n : Int) : Option Toml :=
  if -9223372036854775808 ≤ n ∧ n < 9223372036854775808 then some (.integer n) else none

/-- An integer, in decimal with a sign or in another base without. -/
def integer? : List Char → Option Toml
  | '0' :: 'x' :: cs => do signed? (ofDigits 16 (← digits? 16 cs))
  | '0' :: 'o' :: cs => do signed? (ofDigits 8 (← digits? 8 cs))
  | '0' :: 'b' :: cs => do signed? (ofDigits 2 (← digits? 2 cs))
  | cs => do
    let (negative, cs) := splitSign cs
    let n := ofDigits 10 (← wholeDigits? cs)
    signed? (if negative then -(n : Int) else n)

/-- The number nearest to a decimal.  Too large a magnitude is refused, unless the sign is
    negative. -/
def round? (negative : Bool) (d : Decimal) : Option Toml :=
  match Binary64.ofDecimal negative d with
  | some x => some (.float (.finite x))
  | none => if negative then some (.float (.infinity true)) else none

/-- The digits after a point, if the text has one. -/
def fraction? : List Char → Option (List Nat)
  | [] => some []
  | '.' :: cs => digits? 10 cs
  | _ => none

/-- The value of an exponent, if the text has one. -/
def exponent? : List Char → Option Int
  | [] => some 0
  | _ :: cs => do
    let (negative, cs) := splitSign cs
    let n := ofDigits 10 (← digits? 10 cs)
    return if negative then -(n : Int) else n

/-- The letter before an exponent. -/
def isExponentMark (c : Char) : Bool := c = 'e' || c = 'E'

/-- A number with a fraction or an exponent, an infinity, or no number. -/
def float? (text : List Char) : Option Toml := do
  let (negative, cs) := splitSign text
  if cs = ['i', 'n', 'f'] then return .float (.infinity negative)
  if cs = ['n', 'a', 'n'] then return .float .undefined
  let mantissa := cs.takeWhile (!isExponentMark ·)
  let power := cs.dropWhile (!isExponentMark ·)
  let point := mantissa.dropWhile (· != '.')
  if point.isEmpty && power.isEmpty then none
  let whole ← wholeDigits? (mantissa.takeWhile (· != '.'))
  let fraction ← fraction? point
  let exponent ← exponent? power
  round? negative ⟨ofDigits 10 (whole ++ fraction), exponent - fraction.length⟩

/-! ## Dates and times -/

/-- The number of two digits. -/
def twoDigits? (a b : Char) : Option Nat := do
  return 10 * (← digitValue? 10 a) + (← digitValue? 10 b)

/-- Leap years of the Gregorian calendar. -/
def isLeapYear (year : Nat) : Bool := year % 4 = 0 && (year % 100 ≠ 0 || year % 400 = 0)

/-- The number of days of a month. -/
def daysInMonth (year month : Nat) : Nat :=
  if month = 2 then (if isLeapYear year then 29 else 28)
  else if month = 4 ∨ month = 6 ∨ month = 9 ∨ month = 11 then 30
  else 31

/-- What follows a date at the start of a text. -/
def afterDate? : List Char → Option (List Char)
  | y₁ :: y₂ :: y₃ :: y₄ :: '-' :: m₁ :: m₂ :: '-' :: d₁ :: d₂ :: rest => do
    let year := 100 * (← twoDigits? y₁ y₂) + (← twoDigits? y₃ y₄)
    let month ← twoDigits? m₁ m₂
    let day ← twoDigits? d₁ d₂
    if month < 1 ∨ 12 < month ∨ day < 1 ∨ daysInMonth year month < day then none
    some rest
  | _ => none

/-- What follows a time at the start of a text.  Its seconds may have a fraction. -/
def afterTime? : List Char → Option (List Char)
  | h₁ :: h₂ :: ':' :: m₁ :: m₂ :: ':' :: s₁ :: s₂ :: rest => do
    let hour ← twoDigits? h₁ h₂
    let minute ← twoDigits? m₁ m₂
    let second ← twoDigits? s₁ s₂
    if 23 < hour ∨ 59 < minute ∨ 60 < second then none
    match rest with
    | '.' :: rest =>
      if (rest.takeWhile Char.isDigit).isEmpty then none else some (rest.dropWhile Char.isDigit)
    | rest => some rest
  | _ => none

/-- Whether a text is an offset from universal time, or empty. -/
def isOffset : List Char → Bool
  | [] | ['Z'] | ['z'] => true
  | [s, h₁, h₂, ':', m₁, m₂] =>
    (s = '+' || s = '-') &&
      match twoDigits? h₁ h₂, twoDigits? m₁ m₂ with
      | some hour, some minute => hour ≤ 23 && minute ≤ 59
      | _, _ => false
  | _ => false

/-- Whether a text is a date. -/
def isDate (cs : List Char) : Bool := afterDate? cs = some []

/-- Whether a text is a time of day. -/
def isTime (cs : List Char) : Bool := afterTime? cs = some []

/-- Whether a text is a date, a time, or a date and a time with or without an offset. -/
def isDatetime (cs : List Char) : Bool :=
  isTime cs ||
    match afterDate? cs with
    | none => false
    | some [] => true
    | some (c :: rest) =>
      (c = 'T' || c = 't' || c = ' ') && ((afterTime? rest).map isOffset).getD false

/-! ## Words -/

/-- The value of an unquoted scalar. -/
def ofWord? (cs : List Char) : Option Toml :=
  if cs = ['t', 'r', 'u', 'e'] then some (.boolean true)
  else if cs = ['f', 'a', 'l', 's', 'e'] then some (.boolean false)
  else if isDatetime cs then some (.datetime cs)
  else (float? cs).or (integer? cs)

end Toml

end SearchBody
