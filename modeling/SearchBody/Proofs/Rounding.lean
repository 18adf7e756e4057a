/-
  Search bodies — rounding.

  In units of `2 ^ -1074` a decimal is a quotient of natural numbers and a binary64 is a
  natural number.  How near two of them are is compared after multiplying by the divisor,
  so no fractions are needed.

  * `roundQuotient_nearest`, `roundQuotient_even`: rounding a quotient to a natural number.
  * `IsNearest`: no number is nearer to a quotient, and of two equally near ones it is the one
    with the even significand.  `ofDecimal_nearest`: reading a decimal gives such a number.
  * `ofQuotient_congr`: rounding depends on the quotient alone.  `ofDecimal_eq`: the early
    answers for very large and very small decimals agree with the general case, so
    `ofDecimal_congr`: decimals of one value are read alike.
  * `ofDecimal_shortest`: the shortest decimal of a number is read as that number.
-/
import Mathlib.Data.Nat.Dist
import SearchBody.Binary64

set_option autoImplicit false

namespace SearchBody

/-! ## Rounding a quotient -/

theorem roundQuotient_cases (num den : Nat) :
    (roundQuotient num den = num / den ∧ 2 * (num % den) ≤ den) ∨
    (roundQuotient num den = num / den + 1 ∧ den ≤ 2 * (num % den)) := by
  rw [roundQuotient]
  split
  · exact Or.inl ⟨rfl, by omega⟩
  · split
    · exact Or.inr ⟨rfl, by omega⟩
    · split
      · exact Or.inl ⟨rfl, by omega⟩
      · exact Or.inr ⟨rfl, by omega⟩

theorem roundQuotient_mul_right (num den : Nat) {c : Nat} (hc : 0 < c) :
    roundQuotient (num * c) (den * c) = roundQuotient num den := by
  have assoc : 2 * (num % den * c) = 2 * (num % den) * c := by rw [Nat.mul_assoc]
  simp only [roundQuotient, Nat.mul_div_mul_right _ _ hc, Nat.mul_mod_mul_right, assoc,
    Nat.mul_lt_mul_right hc]

theorem roundQuotient_one (n : Nat) : roundQuotient n 1 = n := by
  simp [roundQuotient, Nat.mod_one]

/-- No multiple of the divisor is nearer to the number than the one that rounding gives. -/
theorem roundQuotient_nearest {num den : Nat} (hden : 0 < den) (k : Nat) :
    Nat.dist (roundQuotient num den * den) num ≤ Nat.dist (k * den) num := by
  have hdiv := Nat.div_add_mod' num den
  have hlt := Nat.mod_lt num hden
  have hside : k * den ≤ num / den * den ∨ num / den * den + den ≤ k * den := by
    rcases Nat.lt_or_ge (num / den) k with h | h
    · exact Or.inr (by have := Nat.mul_le_mul_right den h; rwa [Nat.succ_mul] at this)
    · exact Or.inl (Nat.mul_le_mul_right den h)
  rcases roundQuotient_cases num den with ⟨h, _⟩ | ⟨h, _⟩
  · rw [h]
    simp only [Nat.dist]
    omega
  · rw [h, Nat.succ_mul]
    simp only [Nat.dist]
    omega

/-- A number that is not an even one is nearer than every other. -/
theorem roundQuotient_even {num den k : Nat} (hden : 0 < den) (hk : k ≠ roundQuotient num den)
    (htie : Nat.dist (roundQuotient num den * den) num = Nat.dist (k * den) num) :
    roundQuotient num den % 2 = 0 := by
  have hdiv := Nat.div_add_mod' num den
  have hlt := Nat.mod_lt num hden
  have hsucc : (num / den + 1) * den = num / den * den + den := Nat.succ_mul _ _
  have hside : k * den + den ≤ num / den * den ∨ k = num / den ∨ k = num / den + 1 ∨
      num / den * den + 2 * den ≤ k * den := by
    rcases Nat.lt_or_ge k (num / den) with h | h
    · have := Nat.mul_le_mul_right den h
      rw [Nat.succ_mul] at this
      exact Or.inl this
    · rcases Nat.lt_or_ge (num / den + 1) k with h' | h'
      · have := Nat.mul_le_mul_right den h'
        rw [Nat.succ_mul, hsucc] at this
        omega
      · omega
  have half : 2 * (num % den) = den := by
    rcases roundQuotient_cases num den with ⟨h, hle⟩ | ⟨h, hle⟩
    · rw [h] at htie hk
      simp only [Nat.dist] at htie
      rcases hside with hs | rfl | rfl | hs
      · omega
      · exact absurd rfl hk
      · rw [hsucc] at htie
        omega
      · omega
    · rw [h, hsucc] at htie
      rw [h] at hk
      simp only [Nat.dist] at htie
      rcases hside with hs | rfl | rfl | hs
      · omega
      · omega
      · exact absurd rfl hk
      · omega
  simp only [roundQuotient, half, Nat.lt_irrefl, if_false]
  split <;> omega

namespace Binary64

/-! ## Parts -/

theorem ofParts?_parts (x : Binary64) : ofParts? x.negative x.significand x.scale = some x :=
  dif_pos ⟨x.significand_lt, x.scale_le, x.normal⟩

theorem parts_of_ofParts? {negative : Bool} {significand scale : Nat} {x : Binary64}
    (h : ofParts? negative significand scale = some x) :
    x.negative = negative ∧ x.significand = significand ∧ x.scale = scale := by
  rw [ofParts?] at h
  split at h
  · obtain rfl := Option.some.inj h
    exact ⟨rfl, rfl, rfl⟩
  · cases h

theorem ofParts?_zero (negative : Bool) : ofParts? negative 0 0 = some (zero negative) :=
  ofParts?_parts (zero negative)

theorem scale_of_significand_zero {x : Binary64} (h : x.significand = 0) : x.scale = 0 := by
  rcases x.normal with hs | hs
  · exact hs
  · rw [h] at hs
    exact absurd hs (by decide)

theorem eq_zero_of_isZero {x : Binary64} (h : x.isZero = true) : x = zero x.negative := by
  have hm : x.significand = 0 := beq_iff_eq.1 h
  have hs := scale_of_significand_zero hm
  cases x
  simp only at hm hs
  subst hm hs
  rfl

/-! ## Rounding depends on the quotient alone -/

variable {negative : Bool} {num den : Nat}

theorem ofQuotient_mul_right (num den : Nat) {c : Nat} (hc : 0 < c) :
    ofQuotient negative (num * c) (den * c) = ofQuotient negative num den := by
  simp only [ofQuotient, Nat.mul_div_mul_right _ _ hc, Nat.mul_right_comm den c,
    roundQuotient_mul_right _ _ hc]

theorem ofQuotient_congr {num' den' : Nat} (hden : 0 < den) (hden' : 0 < den')
    (h : num * den' = num' * den) :
    ofQuotient negative num den = ofQuotient negative num' den' := by
  rw [← ofQuotient_mul_right num den hden', h, Nat.mul_comm den, ofQuotient_mul_right _ _ hden]

/-- The scale at which a quotient is rounded. -/
def quotientScale (num den : Nat) : Nat := (num / den).log2 - 52

theorem ofQuotient_eq : ofQuotient negative num den =
    if roundQuotient num (den * 2 ^ quotientScale num den) = 2 ^ 53 then
      ofParts? negative (2 ^ 52) (quotientScale num den + 1)
    else ofParts? negative (roundQuotient num (den * 2 ^ quotientScale num den))
      (quotientScale num den) := rfl

theorem units_eq (x : Binary64) : x.units = x.significand * 2 ^ x.scale := rfl

theorem log2_mul_two_pow {n : Nat} (hn : n ≠ 0) (k : Nat) :
    (n * 2 ^ k).log2 = n.log2 + k := by
  have h := (Nat.log2_eq_iff hn).1 rfl
  refine (Nat.log2_eq_iff (Nat.mul_ne_zero hn (Nat.two_pow_pos k).ne')).2 ⟨?_, ?_⟩
  · rw [Nat.pow_add]
    exact Nat.mul_le_mul_right _ h.1
  · rw [Nat.add_right_comm, Nat.pow_add]
    exact Nat.mul_lt_mul_of_pos_right h.2 (Nat.two_pow_pos k)

/-- A number is its own rounding. -/
theorem ofQuotient_units (x : Binary64) : ofQuotient x.negative x.units 1 = some x := by
  have hlt : x.significand < 2 ^ 53 := x.significand_lt
  have hscale : quotientScale x.units 1 = x.scale := by
    rw [quotientScale, Nat.div_one]
    by_cases hz : x.significand = 0
    · rw [units_eq, hz, scale_of_significand_zero hz]
      rfl
    · have hbits : x.units.log2 = x.significand.log2 + x.scale := by
        rw [units_eq, log2_mul_two_pow hz]
      have hle : x.significand.log2 ≤ 52 := by
        have := (Nat.log2_lt hz).2 hlt
        omega
      rcases x.normal with hs | hs
      · omega
      · have : 52 ≤ x.significand.log2 := (Nat.le_log2 hz).2 hs
        omega
  have hround : roundQuotient x.units (1 * 2 ^ x.scale) = x.significand := by
    rw [units_eq, roundQuotient_mul_right _ _ (Nat.two_pow_pos _), roundQuotient_one]
  rw [ofQuotient_eq, hscale, hround, if_neg (Nat.ne_of_lt hlt), ofParts?_parts]

/-- A quotient under one half rounds to zero. -/
theorem ofQuotient_of_small (h : 2 * num < den) :
    ofQuotient negative num den = some (zero negative) := by
  have hdiv : num / den = 0 := Nat.div_eq_of_lt (by omega)
  have hmod : num % den = num := Nat.mod_eq_of_lt (by omega)
  have hscale : quotientScale num den = 0 := by
    rw [quotientScale, hdiv]
    rfl
  have hround : roundQuotient num (den * 2 ^ 0) = 0 := by
    rw [Nat.pow_zero, Nat.mul_one]
    simp only [roundQuotient, hdiv, hmod, if_pos h]
  rw [ofQuotient_eq, hscale, hround, if_neg (by decide), ofParts?_zero]

/-- A quotient of more than 2098 bits lies beyond the range. -/
theorem ofQuotient_of_large {bits : Nat} (hbits : 2098 ≤ bits) (h : 2 ^ bits ≤ num / den) :
    ofQuotient negative num den = none := by
  have hlog : bits ≤ (num / den).log2 :=
    (Nat.le_log2 (Nat.ne_of_gt (Nat.lt_of_lt_of_le (Nat.two_pow_pos _) h))).2 h
  have hscale : 2046 ≤ quotientScale num den := by
    rw [quotientScale]
    omega
  have beyond : ∀ significand scale, 2046 ≤ scale →
      ofParts? negative significand scale = none := fun significand scale hs =>
    dif_neg fun hp => by omega
  rw [ofQuotient_eq]
  split
  · exact beyond _ _ (by omega)
  · exact beyond _ _ hscale

/-! ## Decimals as quotients -/

/-- How many units make one. -/
def perOne : Nat := Nat.pow 2 1074

theorem perOne_eq : perOne = Nat.pow 2 1074 := by
  unfold perOne
  rfl

-- The exponents are hidden behind variables: written out, the powers would be computed.
theorem exists_perOne_eq : ∃ k, k = 1074 ∧ perOne = 2 ^ k := by
  obtain ⟨k, hk, hone⟩ : ∃ k, k = 1074 ∧ perOne = Nat.pow 2 k := ⟨_, rfl, perOne_eq⟩
  exact ⟨k, hk, hone.trans Nat.pow_eq⟩

end Binary64

namespace Decimal

/-- A decimal in units of `2 ^ -1074` is this number divided by `den`. -/
def num (d : Decimal) : Nat := d.digits * 10 ^ d.exponent.toNat * Binary64.perOne

/-- The divisor of a decimal, a power of ten. -/
def den (d : Decimal) : Nat := 10 ^ (-d.exponent).toNat

theorem den_pos (d : Decimal) : 0 < d.den := Nat.pow_pos (by decide)

end Decimal

namespace Binary64

variable {negative : Bool} {num den : Nat} {d : Decimal}

/-- Ten to the tenth is more than two to the 33rd. -/
theorem two_pow_le_ten_pow {i j : Nat} (h : 10 * i ≤ 33 * j) : 2 ^ i ≤ 10 ^ j := by
  have hten : (2 ^ i) ^ 10 ≤ (10 ^ j) ^ 10 := calc
    (2 ^ i) ^ 10 = 2 ^ (10 * i) := by rw [← Nat.pow_mul, Nat.mul_comm]
    _ ≤ 2 ^ (33 * j) := Nat.pow_le_pow_right (by decide) h
    _ = (2 ^ 33) ^ j := Nat.pow_mul ..
    _ ≤ (10 ^ 10) ^ j := Nat.pow_le_pow_left (by decide) j
    _ = (10 ^ j) ^ 10 := by rw [← Nat.pow_mul, ← Nat.pow_mul, Nat.mul_comm]
  exact (Nat.pow_le_pow_iff_left (by decide)).1 hten

theorem two_mul_num_lt (h : d.exponent < -((d.digits.log2 : Int) + 331)) :
    2 * d.num < d.den := by
  obtain ⟨k, hk, hone⟩ := exists_perOne_eq
  have hexp : d.exponent.toNat = 0 := by omega
  calc 2 * d.num = d.digits * 2 ^ (k + 1) := by
        rw [Decimal.num, hexp, hone, Nat.pow_zero, Nat.mul_one, Nat.mul_left_comm,
          Nat.mul_comm 2, ← Nat.pow_succ]
    _ < 2 ^ (d.digits.log2 + 1) * 2 ^ (k + 1) :=
        Nat.mul_lt_mul_of_pos_right Nat.lt_log2_self (Nat.two_pow_pos _)
    _ = 2 ^ (d.digits.log2 + 1 + (k + 1)) := (Nat.pow_add ..).symm
    _ ≤ d.den := two_pow_le_ten_pow (by omega)

theorem two_pow_le_num_div (hd : d.digits ≠ 0) (h : 310 < d.exponent) :
    ∃ bits, 2098 ≤ bits ∧ 2 ^ bits ≤ d.num / d.den := by
  obtain ⟨k, hk, hone⟩ := exists_perOne_eq
  obtain ⟨i, hi⟩ : ∃ i, i = 1024 := ⟨_, rfl⟩
  have hden : d.den = 1 := by
    rw [Decimal.den, show (-d.exponent).toNat = 0 by omega, Nat.pow_zero]
  refine ⟨i + k, by omega, ?_⟩
  rw [hden, Nat.div_one, Nat.pow_add, Decimal.num, hone]
  exact Nat.mul_le_mul_right _ ((two_pow_le_ten_pow (by omega)).trans
    (Nat.le_mul_of_pos_left _ (Nat.pos_of_ne_zero hd)))

/-- A decimal is rounded as the quotient that it is, whatever its exponent. -/
theorem ofDecimal_eq (negative : Bool) (d : Decimal) :
    ofDecimal negative d = ofQuotient negative d.num d.den := by
  rw [ofDecimal, ← perOne_eq]
  split
  · next hz =>
    have hnum : d.num = 0 := by rw [Decimal.num, hz, Nat.zero_mul, Nat.zero_mul]
    rw [hnum]
    exact (ofQuotient_of_small d.den_pos).symm
  · next hd =>
    split
    · next hlarge =>
      obtain ⟨bits, hbits, hle⟩ := two_pow_le_num_div hd hlarge
      exact (ofQuotient_of_large hbits hle).symm
    · split
      · next hsmall => exact (ofQuotient_of_small (two_mul_num_lt hsmall)).symm
      · rw [Decimal.num, Decimal.den]
        split
        · next e he =>
          show ofQuotient negative (d.digits * 10 ^ e * perOne) 1 = _
          simp only [he, Int.ofNat_eq_natCast, Int.toNat_natCast, Int.toNat_neg_natCast,
            Nat.pow_zero]
        · next e he =>
          show ofQuotient negative (d.digits * perOne) (10 ^ (e + 1)) = _
          simp only [he, Int.toNat_negSucc, Int.neg_negSucc, Int.toNat_natCast, Nat.pow_zero,
            Nat.mul_one]

theorem ofDecimal_zero (hd : d.digits = 0) : ofDecimal negative d = some (zero negative) :=
  if_pos hd

/-- Decimals of one value are read alike. -/
theorem ofDecimal_congr {d' : Decimal} (h : d.num * d'.den = d'.num * d.den) :
    ofDecimal negative d = ofDecimal negative d' := by
  rw [ofDecimal_eq, ofDecimal_eq]
  exact ofQuotient_congr d.den_pos d'.den_pos h

/-- Trailing zeros of the digits may go into the exponent. -/
theorem ofDecimal_shift (digits : Nat) (exponent : Int) (zeros : Nat) :
    ofDecimal negative ⟨digits * 10 ^ zeros, exponent⟩ =
      ofDecimal negative ⟨digits, exponent + zeros⟩ := by
  apply ofDecimal_congr
  have hpow : 10 ^ zeros * 10 ^ exponent.toNat * 10 ^ (-(exponent + zeros)).toNat =
      10 ^ (exponent + zeros).toNat * 10 ^ (-exponent).toNat := by
    rw [← Nat.pow_add, ← Nat.pow_add, ← Nat.pow_add]
    congr 1
    omega
  simp only [Decimal.num, Decimal.den]
  generalize perOne = unit
  calc digits * 10 ^ zeros * 10 ^ exponent.toNat * unit * 10 ^ (-(exponent + zeros)).toNat
      = digits * unit * (10 ^ zeros * 10 ^ exponent.toNat * 10 ^ (-(exponent + zeros)).toNat) := by
        ac_rfl
    _ = digits * unit * (10 ^ (exponent + zeros).toNat * 10 ^ (-exponent).toNat) := by rw [hpow]
    _ = digits * 10 ^ (exponent + zeros).toNat * unit * 10 ^ (-exponent).toNat := by ac_rfl

/-! ## Shortest decimals -/

theorem exists_exact_eq (x : Binary64) :
    ∃ k : Nat, perOne = 2 ^ k ∧ x.exact = ⟨x.units * 5 ^ k, -(k : Int)⟩ := by
  obtain ⟨k, hk, hone⟩ := exists_perOne_eq
  refine ⟨k, hone, ?_⟩
  have hexponent : (-1074 : Int) = -(k : Int) := by omega
  rw [exact, hexponent, ← hk, Nat.pow_eq]

theorem ofDecimal_exact (x : Binary64) : ofDecimal x.negative x.exact = some x := by
  obtain ⟨k, hone, hexact⟩ := x.exists_exact_eq
  have hnum : x.exact.num = x.units * 10 ^ k := by
    rw [hexact, Decimal.num, Int.toNat_neg_natCast, Nat.pow_zero, Nat.mul_one, hone,
      Nat.mul_assoc, ← Nat.mul_pow]
  have hden : x.exact.den = 1 * 10 ^ k := by
    rw [hexact, Decimal.den, Int.neg_neg, Int.toNat_natCast, Nat.one_mul]
  rw [ofDecimal_eq, hnum, hden, ofQuotient_mul_right _ _ (Nat.pow_pos (by decide)),
    ofQuotient_units]

/-- **The shortest decimal of a number is read as that number.** -/
theorem ofDecimal_shortest (x : Binary64) : ofDecimal x.negative x.shortest = some x := by
  rw [shortest]
  cases hfind : (candidates x.exact).find? fun d => ofDecimal x.negative d = some x with
  | none => exact ofDecimal_exact x
  | some d =>
    have h := List.find?_some hfind
    exact of_decide_eq_true h

theorem shortest_digits_ne_zero {x : Binary64} (hx : x.isZero = false) :
    x.shortest.digits ≠ 0 := by
  intro hz
  have h := ofDecimal_shortest x
  rw [ofDecimal_zero hz] at h
  rw [← Option.some.inj h] at hx
  cases hx

/-! ## Nearest numbers -/

/-- No number is nearer to `num / den` units than `x`, and if another one is as near, then
    `x` has the even significand. -/
structure IsNearest (num den : Nat) (x : Binary64) : Prop where
  le : ∀ y : Binary64, Nat.dist (x.units * den) num ≤ Nat.dist (y.units * den) num
  even : ∀ y : Binary64, y.units ≠ x.units →
    Nat.dist (x.units * den) num = Nat.dist (y.units * den) num → x.significand % 2 = 0

/-- At a positive scale the quotient has all 53 bits. -/
theorem le_of_quotientScale_pos (h : 0 < quotientScale num den) :
    2 ^ 52 * (den * 2 ^ quotientScale num den) ≤ num := by
  have hq : num / den ≠ 0 := by
    intro hz
    rw [quotientScale, hz] at h
    exact absurd h (by decide)
  have hlog : 52 + quotientScale num den = (num / den).log2 := by
    rw [quotientScale] at h ⊢
    omega
  calc 2 ^ 52 * (den * 2 ^ quotientScale num den)
      = 2 ^ (52 + quotientScale num den) * den := by
        rw [Nat.pow_add, Nat.mul_comm den, Nat.mul_assoc]
    _ ≤ num / den * den := Nat.mul_le_mul_right _ (hlog ▸ Nat.log2_self_le hq)
    _ ≤ num := Nat.div_mul_le_self num den

/-- The rounded quotient stands at its scale, or one higher if rounding filled 54 bits. -/
theorem units_of_ofQuotient {x : Binary64} (h : ofQuotient negative num den = some x) :
    x.negative = negative ∧
    x.units = roundQuotient num (den * 2 ^ quotientScale num den) * 2 ^ quotientScale num den ∧
    (roundQuotient num (den * 2 ^ quotientScale num den) % 2 = 0 → x.significand % 2 = 0) := by
  rw [ofQuotient_eq] at h
  split at h
  · next hfull =>
    obtain ⟨hn, hm, hs⟩ := parts_of_ofParts? h
    refine ⟨hn, ?_, fun _ => ?_⟩
    · rw [units_eq, hm, hs, hfull, ← Nat.pow_add, ← Nat.pow_add]
      congr 1
      omega
    · rw [hm]
      decide
  · obtain ⟨hn, hm, hs⟩ := parts_of_ofParts? h
    exact ⟨hn, by rw [units_eq, hm, hs], fun he => by rw [hm, he]⟩

/-- A number is a multiple of a power of two, or too small to have 53 bits there. -/
theorem units_grid (y : Binary64) (scale : Nat) :
    (∃ k, y.units = k * 2 ^ scale) ∨ (0 < scale ∧ y.units < 2 ^ 52 * 2 ^ scale) := by
  rcases Nat.lt_or_ge y.scale scale with h | h
  · refine Or.inr ⟨by omega, ?_⟩
    calc y.units < 2 ^ 53 * 2 ^ y.scale :=
          Nat.mul_lt_mul_of_pos_right y.significand_lt (Nat.two_pow_pos _)
      _ = 2 ^ 52 * 2 ^ (y.scale + 1) := by
        rw [← Nat.pow_add, ← Nat.pow_add, Nat.add_comm y.scale 1, ← Nat.add_assoc]
      _ ≤ 2 ^ 52 * 2 ^ scale := Nat.mul_le_mul_left _ (Nat.pow_le_pow_right (by decide) h)
  · refine Or.inl ⟨y.significand * 2 ^ (y.scale - scale), ?_⟩
    rw [units_eq, Nat.mul_assoc, ← Nat.pow_add, Nat.sub_add_cancel h]

theorem ofQuotient_nearest (hden : 0 < den) {x : Binary64}
    (h : ofQuotient negative num den = some x) : IsNearest num den x := by
  obtain ⟨-, hunits, heven⟩ := units_of_ofQuotient h
  have hle52 : 0 < quotientScale num den → _ := le_of_quotientScale_pos
  generalize quotientScale num den = scale at hunits heven hle52
  have hpos : 0 < den * 2 ^ scale := Nat.mul_pos hden (Nat.two_pow_pos _)
  have hx : x.units * den = roundQuotient num (den * 2 ^ scale) * (den * 2 ^ scale) := by
    rw [hunits, Nat.mul_comm den, Nat.mul_assoc]
  -- Another number lies on the grid of the scale, or under the least number of 53 bits on it.
  have key : ∀ y : Binary64,
      Nat.dist (x.units * den) num ≤ Nat.dist (y.units * den) num ∧
      (y.units ≠ x.units → Nat.dist (x.units * den) num = Nat.dist (y.units * den) num →
        x.significand % 2 = 0) := by
    intro y
    rw [hx]
    rcases y.units_grid scale with ⟨k, hk⟩ | ⟨hscale, hlt⟩
    · have hy : y.units * den = k * (den * 2 ^ scale) := by
        rw [hk, Nat.mul_comm den, Nat.mul_assoc]
      rw [hy]
      refine ⟨roundQuotient_nearest hpos k, fun hne htie => heven ?_⟩
      refine roundQuotient_even hpos (fun hkr => hne ?_) htie
      rw [hk, hunits, hkr]
    · have hbound := hle52 hscale
      have hy : y.units * den < 2 ^ 52 * (den * 2 ^ scale) := by
        have := Nat.mul_lt_mul_of_pos_right hlt hden
        rwa [Nat.mul_assoc, Nat.mul_comm (2 ^ scale)] at this
      have hnear : Nat.dist _ num ≤ _ := roundQuotient_nearest hpos (2 ^ 52)
      simp only [Nat.dist] at hnear ⊢
      exact ⟨by omega, fun _ htie => by omega⟩
  exact ⟨fun y => (key y).1, fun y => (key y).2⟩

/-- **Reading a decimal rounds correctly.**  The number read has the sign, no number is nearer
    to the decimal, and of two equally near ones it is the one with the even significand. -/
theorem ofDecimal_nearest {x : Binary64} (h : ofDecimal negative d = some x) :
    x.negative = negative ∧ IsNearest d.num d.den x := by
  rw [ofDecimal_eq] at h
  exact ⟨(units_of_ofQuotient h).1, ofQuotient_nearest d.den_pos h⟩

end Binary64

end SearchBody
