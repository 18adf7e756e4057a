/-
  Search bodies — finite binary64 numbers.

  The numbers with a fraction or an exponent in a document are binary64.  Every
  finite one is a whole multiple of the smallest positive one, `2 ^ -1074`; it is
  kept here as a sign, a significand and a scale, in the one canonical way.

  * `Binary64` is the type of finite numbers, `Binary64.units` their magnitude as
    a multiple of `2 ^ -1074`.
  * `Binary64.ofDecimal` rounds a decimal to the nearest number, a tie going to the
    even significand; it has no answer beyond the finite range.
  * `Binary64.mul` and `Binary64.div` round exact products and quotients;
    `Binary64.scaled` scales a whole number by a power of ten with them.
  * `Binary64.shortest` is the decimal of fewest digits that rounds back, and the
    nearest of those.
  * `Binary64.beq` compares as numbers do: the two zeros are equal.
  * `Measure` adds the values that are not finite.
-/

set_option autoImplicit false

namespace SearchBody

/-- The decimal number `digits * 10 ^ exponent`. -/
structure Decimal where
  digits : Nat
  exponent : Int
deriving DecidableEq, Repr

/-- A finite number `± significand * 2 ^ scale * 2 ^ -1074`.  Only numbers below the
    normal range have a significand under `2 ^ 52`, and those have scale zero. -/
structure Binary64 where
  negative : Bool
  significand : Nat
  scale : Nat
  significand_lt : significand < Nat.pow 2 53
  scale_le : scale ≤ 2045
  normal : scale = 0 ∨ Nat.pow 2 52 ≤ significand
deriving DecidableEq

/-- The quotient `num / den` rounded to the nearest natural number, a tie to the even one. -/
def roundQuotient (num den : Nat) : Nat :=
  let q := num / den
  let twice := 2 * (num % den)
  if twice < den then q
  else if den < twice then q + 1
  else if q % 2 = 0 then q
  else q + 1

namespace Binary64

/-- The magnitude, counted in units of `2 ^ -1074`. -/
def units (x : Binary64) : Nat := x.significand * Nat.pow 2 x.scale

/-- A zero of either sign. -/
def zero (negative : Bool) : Binary64 :=
  ⟨negative, 0, 0, by decide, by decide, .inl rfl⟩

/-- A zero of either sign. -/
def isZero (x : Binary64) : Bool := x.significand == 0

/-- The number of given sign, significand and scale, if they are canonical. -/
def ofParts? (negative : Bool) (significand scale : Nat) : Option Binary64 :=
  if h : significand < Nat.pow 2 53 ∧ scale ≤ 2045 ∧ (scale = 0 ∨ Nat.pow 2 52 ≤ significand) then
    some ⟨negative, significand, scale, h.1, h.2.1, h.2.2⟩
  else none

/-- The number nearest to `num / den` units.  The scale is the least one at which the
    quotient has at most 53 bits; rounding up to `2 ^ 53` moves to the next scale. -/
def ofQuotient (negative : Bool) (num den : Nat) : Option Binary64 :=
  let scale := (num / den).log2 - 52
  let significand := roundQuotient num (den * Nat.pow 2 scale)
  if significand = Nat.pow 2 53 then ofParts? negative (Nat.pow 2 52) (scale + 1)
  else ofParts? negative significand scale

/-- The number nearest to a decimal with a sign.  Decimals from `10 ^ 311` on are beyond
    the range and those under `10 ^ -330` are nearest to zero, which keeps the powers of
    ten small. -/
def ofDecimal (negative : Bool) (d : Decimal) : Option Binary64 :=
  if d.digits = 0 then some (zero negative)
  else if 310 < d.exponent then none
  else if d.exponent < -((d.digits.log2 : Int) + 331) then some (zero negative)
  else match d.exponent with
    | .ofNat e => ofQuotient negative (d.digits * Nat.pow 10 e * Nat.pow 2 1074) 1
    | .negSucc e => ofQuotient negative (d.digits * Nat.pow 2 1074) (Nat.pow 10 (e + 1))

/-- The number nearest to an integer. -/
def ofInt (n : Int) : Option Binary64 := ofDecimal (n < 0) ⟨n.natAbs, 0⟩

/-! ## Products and quotients -/

/-- The product, rounded to the nearest number. -/
def mul (x y : Binary64) : Option Binary64 :=
  ofQuotient (x.negative != y.negative) (x.units * y.units) (Nat.pow 2 1074)

/-- The quotient by a nonzero number, rounded to the nearest number. -/
def div (x y : Binary64) : Option Binary64 :=
  ofQuotient (x.negative != y.negative) (x.units * Nat.pow 2 1074) y.units

/-- The number nearest to a power of ten. -/
def powerOfTen (e : Nat) : Option Binary64 := ofDecimal false ⟨1, e⟩

/-- The largest exponent of a power of ten within the range. -/
def maxPowerOfTen : Nat := 308

/-- A whole number times a power of ten, rounded three times: the number, the power, and
    their product or quotient.  A quotient by a power beyond the range is taken in two
    steps, and one beyond its square is zero. -/
def scaled (negative : Bool) (n : Nat) (exponent : Int) : Option Binary64 := do
  let x ← ofDecimal negative ⟨n, 0⟩
  let e := exponent.natAbs
  if x.isZero then return x
  if 0 ≤ exponent then
    if maxPowerOfTen < e then none else x.mul (← powerOfTen e)
  else if e ≤ maxPowerOfTen then x.div (← powerOfTen e)
  else if e ≤ 2 * maxPowerOfTen then
    (← x.div (← powerOfTen maxPowerOfTen)).div (← powerOfTen (e - maxPowerOfTen))
  else return zero negative

/-! ## Shortest decimals -/

/-- The magnitude in full: one unit is `5 ^ 1074 * 10 ^ -1074`. -/
def exact (x : Binary64) : Decimal := ⟨x.units * Nat.pow 5 1074, -1074⟩

/-- The two neighbours of `d` among the multiples of `10 ^ (d.exponent + dropped)`, the
    nearer one first; of two equally near ones the even one first. -/
def neighbours (d : Decimal) (dropped : Nat) : List Decimal :=
  let p := Nat.pow 10 dropped
  let lower := d.digits / p
  let near := roundQuotient d.digits p
  let far := if near = lower then lower + 1 else lower
  [⟨near, d.exponent + dropped⟩, ⟨far, d.exponent + dropped⟩]

/-- The candidates with `0`, `1`, …, `17` leading digits kept, fewest first. -/
def candidates (d : Decimal) : List Decimal :=
  let size := (Nat.toDigits 10 d.digits).length
  (List.range 18).flatMap fun kept => neighbours d (size - kept)

/-- The decimal of fewest digits that rounds to `x`, and the nearest of those. -/
def shortest (x : Binary64) : Decimal :=
  ((candidates x.exact).find? fun d => ofDecimal x.negative d = some x).getD x.exact

/-! ## Comparison -/

/-- Equality as numbers: zeros of either sign are equal. -/
def beq (x y : Binary64) : Bool := (x.isZero && y.isZero) || x = y

instance : BEq Binary64 := ⟨beq⟩

end Binary64

/-- A measured quantity: a finite number, an infinity, or no number at all. -/
inductive Measure where
  | finite (x : Binary64)
  | infinity (negative : Bool)
  | undefined
deriving DecidableEq

end SearchBody
