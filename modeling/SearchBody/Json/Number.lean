/-
  Search bodies — numbers of a document.

  A number is an integer of at most 64 bits, signed or unsigned, or a binary64.  The
  two kinds are never equal, and their literals differ: an integer is written in plain
  digits, a binary64 always with a fraction or an exponent.

  * `Number.literal` writes a number, `Number.ofLiteral?` reads one.
  * A binary64 is written by its shortest decimal, in plain notation from `1e-5` up to
    `1e16` and in scientific notation elsewhere.
  * Integers of more than 64 bits and `-0` are read as binary64.  `Number.Accuracy` says
    whether a binary64 is read as the nearest one.
-/
import SearchBody.Binary64

set_option autoImplicit false

namespace SearchBody

/-- The integers that are kept exactly: those of 64 bits, with a sign or without. -/
def FitsInteger (n : Int) : Prop := -9223372036854775808 ≤ n ∧ n < 18446744073709551616

instance (n : Int) : Decidable (FitsInteger n) :=
  inferInstanceAs (Decidable (_ ∧ _))

theorem fitsInteger_toNat (n : UInt64) : FitsInteger n.toNat := by
  have := n.toNat_lt
  exact ⟨by omega, by omega⟩

/-- A number that a document holds. -/
inductive Number where
  | integer (value : Int) (fits : FitsInteger value)
  | real (value : Binary64)
deriving DecidableEq

namespace Number

/-- Equality as numbers, within each kind. -/
def beq : Number → Number → Bool
  | .integer m _, .integer n _ => m == n
  | .real x, .real y => x.beq y
  | _, _ => false

instance : BEq Number := ⟨beq⟩

/-- An unsigned word as a number. -/
def ofUInt64 (n : UInt64) : Number := .integer n.toNat (fitsInteger_toNat n)

/-! ## Writing -/

/-- The decimal digits of `n`. -/
def digits (n : Nat) : List Char := Nat.toDigits 10 n

/-- A minus sign for a negative number. -/
def sign (negative : Bool) : List Char := if negative then ['-'] else []

/-- The text of a nonzero decimal.  With `k` digits before the point, plain notation is
    used for `-4 ≤ k ≤ 16`. -/
def decimalText (d : Decimal) : List Char :=
  let ds := digits d.digits
  let k := d.exponent + ds.length
  if -4 ≤ k ∧ k ≤ 0 then
    ['0', '.'] ++ List.replicate k.natAbs '0' ++ ds
  else if 0 < k ∧ k ≤ 16 then
    if 0 ≤ d.exponent then ds ++ List.replicate d.exponent.natAbs '0' ++ ['.', '0']
    else ds.take k.natAbs ++ ['.'] ++ ds.drop k.natAbs
  else
    let fraction := ds.drop 1
    ds.take 1 ++ (if fraction.isEmpty then [] else '.' :: fraction)
      ++ ['e', if k - 1 < 0 then '-' else '+'] ++ digits (k - 1).natAbs

/-- The text of a finite binary64. -/
def realText (x : Binary64) : List Char :=
  sign x.negative ++ if x.isZero then ['0', '.', '0'] else decimalText x.shortest

/-- The text of a number. -/
def literal : Number → List Char
  | .integer n _ => sign (n < 0) ++ digits n.natAbs
  | .real x => realText x

/-! ## Reading -/

/-- How closely a literal is read as a binary64. -/
inductive Accuracy where
  /-- as the number nearest to it -/
  | nearest
  /-- as its leading digits, scaled by a power of ten in binary64; the outcome may lie beside
      the nearest number -/
  | quick
deriving DecidableEq

/-- The value of decimal digits. -/
def ofDigits (cs : List Char) : Nat := Nat.ofDigitChars 10 cs 0

theorem ofDigits_digits (n : Nat) : ofDigits (digits n) = n :=
  Nat.ofDigitChars_toDigits (by decide) (by decide)

/-- Digits of a whole part: at least one, and no zero in front of others. -/
def isWhole : List Char → Bool
  | [] => false
  | [_] => true
  | c :: _ => c != '0'

/-- A minus sign, if there is one, and what follows. -/
def splitSign : List Char → Bool × List Char
  | '-' :: cs => (true, cs)
  | cs => (false, cs)

/-- The digits of a fraction if a point starts one, and what follows. -/
def splitFraction : List Char → Option (Option (List Char) × List Char)
  | '.' :: cs =>
    let ds := cs.takeWhile Char.isDigit
    if ds.isEmpty then none else some (some ds, cs.dropWhile Char.isDigit)
  | cs => some (none, cs)

/-- A whole exponent: an optional sign and at least one digit. -/
def exponentValue? (cs : List Char) : Option Int :=
  let (negative, ds) := match cs with
    | '+' :: ds => (false, ds)
    | '-' :: ds => (true, ds)
    | ds => (false, ds)
  if ds.isEmpty || !ds.all Char.isDigit then none
  else some (if negative then -(ofDigits ds : Int) else ofDigits ds)

/-- An exponent if the rest of the number is one. -/
def splitExponent : List Char → Option (Option Int)
  | [] => some none
  | c :: cs => if c = 'e' ∨ c = 'E' then (exponentValue? cs).map some else none

/-- The number of leading digits that fit 64 bits, taken after `n`, and the digits left. -/
def fitting (n : Nat) : List Char → Nat × List Char
  | [] => (n, [])
  | c :: cs =>
    let next := 10 * n + (c.toNat - '0'.toNat)
    if next < UInt64.size then fitting next cs else (n, c :: cs)

/-- The binary64 of a literal, from the digits before and after the point and the exponent.
    A quick reading leaves out the digits that do not fit. -/
def real? (accuracy : Accuracy) (negative : Bool) (whole fraction : List Char) (exponent : Int) :
    Option Binary64 :=
  match accuracy with
  | .nearest =>
    Binary64.ofDecimal negative ⟨ofDigits (whole ++ fraction), exponent - fraction.length⟩
  | .quick =>
    let (n, wholeLeft) := fitting 0 whole
    let (n, fractionLeft) := fitting n fraction
    Binary64.scaled negative n
      (exponent + wholeLeft.length - (fraction.length - fractionLeft.length))

/-- The number of an integer literal. -/
def ofInteger? (accuracy : Accuracy) (negative : Bool) (whole : List Char) : Option Number :=
  let n := ofDigits whole
  let value : Int := if negative then -(n : Int) else n
  if negative ∧ n = 0 then some (.real (.zero true))
  else if fits : FitsInteger value then some (.integer value fits)
  else (real? accuracy negative whole [] 0).map .real

/-- The number that a literal denotes.  There is none if the text is not a number or
    lies beyond the finite range. -/
def ofLiteral? (accuracy : Accuracy) (text : List Char) : Option Number := do
  let (negative, cs) := splitSign text
  let whole := cs.takeWhile Char.isDigit
  if !isWhole whole then none
  let (fraction, cs) ← splitFraction (cs.dropWhile Char.isDigit)
  let exponent ← splitExponent cs
  match fraction, exponent with
  | none, none => ofInteger? accuracy negative whole
  | _, _ => (real? accuracy negative whole (fraction.getD []) (exponent.getD 0)).map .real

end Number

/-- A finite measure as a number. -/
def Measure.number? : Measure → Option Number
  | .finite x => some (.real x)
  | _ => none

/-- A number as a measure; an integer is rounded to the nearest binary64. -/
def Number.toMeasure : Number → Measure
  | .real x => .finite x
  | .integer n _ =>
    match Binary64.ofInt n with
    | some x => .finite x
    | none => .undefined

end SearchBody
