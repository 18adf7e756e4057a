/-
  Search bodies — digits.

  * `digitValue?` is the value of a digit in a base of at most sixteen, `hexDigit` the digit
    of a value below sixteen.
  * `digitValue?_hexDigit`: the one undoes the other.
-/

set_option autoImplicit false

namespace SearchBody

/-- The value of a digit in a base; letters of either case stand for ten and more. -/
def digitValue? (base : Nat) (c : Char) : Option Nat :=
  let value :=
    if c.isDigit then some (c.toNat - '0'.toNat)
    else if 'a' ≤ c ∧ c ≤ 'f' then some (c.toNat - 'a'.toNat + 10)
    else if 'A' ≤ c ∧ c ≤ 'F' then some (c.toNat - 'A'.toNat + 10)
    else none
  value.bind fun v => if v < base then some v else none

/-- The digit of a value below sixteen. -/
def hexDigit (n : Nat) : Char :=
  if n < 10 then Char.ofNat ('0'.toNat + n) else Char.ofNat ('a'.toNat + (n - 10))

theorem digitValue?_hexDigit {n : Nat} (h : n < 16) : digitValue? 16 (hexDigit n) = some n := by
  have all : ∀ m ∈ List.range 16, digitValue? 16 (hexDigit m) = some m := by decide
  exact all n (List.mem_range.2 h)

end SearchBody
