/-
  Search bodies — literals are read back.

  Every literal that is written has one shape: a sign, digits without a leading zero, a
  fraction and an exponent, the last two left out where there are none.  Such a text is split
  into its parts again, and the parts denote the decimal that was written.

  * `Numeral` holds the parts, `Numeral.text` is what they look like.
  * `ofLiteral?_numeral`: what a sign and a numeral are read as.
  * `decimalText_eq`: in each notation a decimal is written as a numeral of its own value, or
    of a decimal that is read alike.
  * `Numeral.Denotes`: what a sign and a numeral stand for.  `denotes_of_ofLiteral?`: whatever is
    read is exact if it is an integer and rounded correctly if it is a binary64.
  * `ofLiteral?_literal`: a number is read back from its literal.
-/
import SearchBody.Json.Number
import SearchBody.Proofs.Rounding

set_option autoImplicit false

namespace SearchBody

namespace Number

/-! ## Digits -/

theorem isDigit_of_mem_digits {n : Nat} : ∀ c ∈ digits n, c.isDigit = true := fun _ h =>
  Nat.isDigit_of_mem_toDigits (by decide) (by decide) h

theorem digits_ne_nil (n : Nat) : digits n ≠ [] := Nat.toDigits_ne_nil

theorem head?_digits_ne {n : Nat} (hn : n ≠ 0) : (digits n).head? ≠ some '0' := by
  induction n using Nat.strongRecOn with
  | ind n ih =>
    by_cases hlt : n < 10
    · rw [digits, Nat.toDigits_of_lt_base hlt, List.head?_cons]
      intro h
      exact hn (Nat.digitChar_eq_zero.1 (Option.some.inj h))
    · have hrec := ih (n / 10) (by omega) (by omega)
      rw [digits, Nat.toDigits_of_base_le (by decide) (by omega), List.head?_append]
      cases hhead : (Nat.toDigits 10 (n / 10)).head? with
      | none => exact absurd (List.head?_eq_none_iff.1 hhead) Nat.toDigits_ne_nil
      | some c => rwa [digits, hhead] at hrec

theorem isWhole_of_head?_ne {cs : List Char} (hne : cs ≠ []) (h : cs.head? ≠ some '0') :
    isWhole cs = true := by
  match cs with
  | [] => exact absurd rfl hne
  | [_] => rfl
  | c :: _ :: _ => simpa [isWhole] using h

theorem isWhole_digits (n : Nat) : isWhole (digits n) = true := by
  by_cases hn : n = 0
  · rw [hn, digits, Nat.toDigits_zero]
    rfl
  · exact isWhole_of_head?_ne (digits_ne_nil n) (head?_digits_ne hn)

theorem ofDigits_zeros_append (n : Nat) (ds : List Char) :
    ofDigits (List.replicate n '0' ++ ds) = ofDigits ds := by
  rw [ofDigits, Nat.ofDigitChars_append, Nat.ofDigitChars_replicate_zero, Nat.mul_zero, ofDigits]

theorem ofDigits_append_zeros (ds : List Char) (n : Nat) :
    ofDigits (ds ++ List.replicate n '0') = ofDigits ds * 10 ^ n := by
  rw [ofDigits, Nat.ofDigitChars_append, Nat.ofDigitChars_replicate_zero, Nat.mul_comm, ofDigits]

/-! ## Numerals -/

/-- An exponent with its sign. -/
def exponentText (e : Int) : List Char := ['e', if e < 0 then '-' else '+'] ++ digits e.natAbs

/-- The parts of a literal after its sign. -/
structure Numeral where
  whole : List Char
  /-- no digits if there is no point -/
  fraction : List Char
  exponent : Option Int
  isDigit_whole : ∀ c ∈ whole, c.isDigit = true
  isDigit_fraction : ∀ c ∈ fraction, c.isDigit = true
  isWhole_whole : isWhole whole = true

/-- The parts written one after the other. -/
def Numeral.text (s : Numeral) : List Char :=
  s.whole ++ (if s.fraction.isEmpty then [] else '.' :: s.fraction)
    ++ s.exponent.elim [] exponentText

/-- The decimal that the parts denote. -/
def Numeral.decimal (s : Numeral) : Decimal :=
  ⟨ofDigits (s.whole ++ s.fraction), s.exponent.getD 0 - s.fraction.length⟩

/-! ## Splitting a numeral -/

theorem span_digits {ds rest : List Char} (hds : ∀ c ∈ ds, c.isDigit = true)
    (hrest : ∀ c ∈ rest.head?, c.isDigit = false) :
    (ds ++ rest).takeWhile Char.isDigit = ds ∧ (ds ++ rest).dropWhile Char.isDigit = rest := by
  rw [List.takeWhile_append_of_pos hds, List.dropWhile_append_of_pos hds]
  cases rest with
  | nil => simp
  | cons c cs =>
    have hc := hrest c rfl
    simp [hc]

theorem splitSign_sign (negative : Bool) {cs : List Char} (h : cs.head? ≠ some '-') :
    splitSign (sign negative ++ cs) = (negative, cs) := by
  cases negative with
  | true => rfl
  | false =>
    rw [sign, if_neg (by decide), List.nil_append, splitSign.eq_def]
    split
    · exact absurd rfl h
    · rfl

theorem head?_exponent (e : Option Int) : ∀ c ∈ (e.elim [] exponentText).head?, c = 'e' := by
  cases e with
  | none => simp
  | some e => simp [exponentText]

theorem splitFraction_text {fraction rest : List Char} (hf : ∀ c ∈ fraction, c.isDigit = true)
    (hrest : ∀ c ∈ rest.head?, c = 'e') :
    splitFraction ((if fraction.isEmpty then [] else '.' :: fraction) ++ rest) =
      some (if fraction.isEmpty then none else some fraction, rest) := by
  cases hempty : fraction.isEmpty with
  | true =>
    simp only [if_true, List.nil_append]
    rw [splitFraction.eq_def]
    split
    · next cs => exact absurd (hrest '.' rfl) (by decide)
    · rfl
  | false =>
    have hdigit : ∀ c ∈ rest.head?, c.isDigit = false := fun c hc => hrest c hc ▸ rfl
    obtain ⟨htake, hdrop⟩ := span_digits hf hdigit
    simp [splitFraction, htake, hdrop, hempty]

theorem exponentValue?_text (e : Int) :
    exponentValue? ((if e < 0 then '-' else '+') :: digits e.natAbs) = some e := by
  have hall : (digits e.natAbs).all Char.isDigit = true := List.all_eq_true.2 isDigit_of_mem_digits
  have hne : (digits e.natAbs).isEmpty = false := by simp [digits_ne_nil]
  by_cases he : e < 0
  · simp only [he, if_true, exponentValue?, hall, hne, ofDigits_digits]
    simp only [Bool.not_true, Bool.or_self, Bool.false_eq_true, if_false, Option.some.injEq]
    omega
  · simp only [he, if_false, exponentValue?, hall, hne, ofDigits_digits]
    simp only [Bool.not_true, Bool.or_self, Bool.false_eq_true, if_false, Option.some.injEq]
    omega

theorem splitExponent_text (e : Option Int) : splitExponent (e.elim [] exponentText) = some e := by
  cases e with
  | none => rfl
  | some e =>
    show (exponentValue? ((if e < 0 then '-' else '+') :: digits e.natAbs)).map some = _
    rw [exponentValue?_text]
    rfl

/-- **Reading a sign and a numeral.**  Without a fraction and an exponent it is an integer, else
    a binary64. -/
theorem ofLiteral?_numeral (accuracy : Accuracy) (negative : Bool) (s : Numeral) :
    ofLiteral? accuracy (sign negative ++ s.text) =
      if s.fraction.isEmpty = true ∧ s.exponent = none then ofInteger? accuracy negative s.whole
      else (real? accuracy negative s.whole s.fraction (s.exponent.getD 0)).map .real := by
  have hsign : splitSign (sign negative ++ s.text) = (negative, s.text) := by
    refine splitSign_sign negative ?_
    rw [Numeral.text]
    cases hw : s.whole with
    | nil =>
      have := s.isWhole_whole
      rw [hw] at this
      cases this
    | cons c cs =>
      have hc : c.isDigit = true := s.isDigit_whole c (by simp [hw])
      simp only [List.cons_append, List.head?_cons, ne_eq, Option.some.injEq]
      rintro rfl
      cases hc
  have hexp := head?_exponent s.exponent
  have hrest : ∀ c ∈ ((if s.fraction.isEmpty then [] else '.' :: s.fraction)
      ++ s.exponent.elim [] exponentText).head?, c.isDigit = false := by
    intro c hc
    cases hf : s.fraction.isEmpty with
    | true =>
      rw [hf] at hc
      exact hexp c hc ▸ rfl
    | false =>
      rw [hf] at hc
      obtain rfl := Option.some.inj hc
      rfl
  obtain ⟨htake, hdrop⟩ := span_digits s.isDigit_whole hrest
  rw [← List.append_assoc, ← Numeral.text] at htake hdrop
  simp only [ofLiteral?, hsign, htake, hdrop, s.isWhole_whole, Bool.not_true,
    Bool.false_eq_true, if_false, splitFraction_text s.isDigit_fraction hexp,
    splitExponent_text, Option.bind_eq_bind, Option.bind_some]
  cases hf : s.fraction.isEmpty with
  | false => simp
  | true =>
    cases s.exponent with
    | none => simp
    | some e => simp [List.isEmpty_iff.1 hf]

/-! ## Decimals as numerals -/

/-- A numeral with a fraction or an exponent has this text and is read like this decimal. -/
structure Numeral.Spells (s : Numeral) (text : List Char) (d : Decimal) : Prop where
  text_eq : text = s.text
  not_integer : ¬ (s.fraction.isEmpty = true ∧ s.exponent = none)
  reads : ∀ negative, Binary64.ofDecimal negative s.decimal = Binary64.ofDecimal negative d

section
variable {ds : List Char}

/-- All digits behind the point, with zeros between. -/
theorem exists_spells_behind (hds : ∀ c ∈ ds, c.isDigit = true) (hne : ds ≠ []) (zeros : Nat) :
    ∃ s : Numeral, s.Spells (['0', '.'] ++ List.replicate zeros '0' ++ ds)
      ⟨ofDigits ds, -(zeros + ds.length : Int)⟩ := by
  have hfraction : ∀ c ∈ List.replicate zeros '0' ++ ds, c.isDigit = true := by
    intro c hc
    rcases List.mem_append.1 hc with hc | hc
    · rw [List.eq_of_mem_replicate hc]
      rfl
    · exact hds c hc
  refine ⟨⟨['0'], List.replicate zeros '0' ++ ds, none, by simp, hfraction, rfl⟩, ?_, ?_, ?_⟩
  · simp [Numeral.text, hne]
  · simp [hne]
  · intro negative
    have hdigits : ofDigits (['0'] ++ (List.replicate zeros '0' ++ ds)) = ofDigits ds :=
      (ofDigits_zeros_append 1 _).trans (ofDigits_zeros_append zeros ds)
    simp only [Numeral.decimal, hdigits, Option.getD_none, List.length_append,
      List.length_replicate]
    congr 2
    omega

/-- All digits before the point, with zeros between. -/
theorem exists_spells_before (hds : ∀ c ∈ ds, c.isDigit = true) (hne : ds ≠ [])
    (hhead : ds.head? ≠ some '0') (zeros : Nat) :
    ∃ s : Numeral, s.Spells (ds ++ List.replicate zeros '0' ++ ['.', '0'])
      ⟨ofDigits ds, zeros⟩ := by
  have hwhole : ∀ c ∈ ds ++ List.replicate zeros '0', c.isDigit = true := by
    intro c hc
    rcases List.mem_append.1 hc with hc | hc
    · exact hds c hc
    · rw [List.eq_of_mem_replicate hc]
      rfl
  have hhead' : (ds ++ List.replicate zeros '0').head? ≠ some '0' := by
    cases ds with
    | nil => exact absurd rfl hne
    | cons c cs => exact hhead
  refine ⟨⟨ds ++ List.replicate zeros '0', ['0'], none, hwhole, by simp,
    isWhole_of_head?_ne (by simp [hne]) hhead'⟩, ?_, ?_, ?_⟩
  · simp [Numeral.text]
  · simp
  · intro negative
    -- the zero behind the point shifts the decimal by one place
    have hdigits : ofDigits (ds ++ List.replicate zeros '0' ++ ['0']) =
        ofDigits ds * 10 ^ (zeros + 1) := by
      rw [List.append_assoc, ← List.replicate_succ', ofDigits_append_zeros]
    simp only [Numeral.decimal, hdigits, Option.getD_none, List.length_singleton]
    rw [Binary64.ofDecimal_shift]
    congr 2
    omega

/-- The point among the digits. -/
theorem exists_spells_among (hds : ∀ c ∈ ds, c.isDigit = true) (hhead : ds.head? ≠ some '0')
    {k : Nat} (hk : 0 < k) (hlt : k < ds.length) :
    ∃ s : Numeral, s.Spells (ds.take k ++ ['.'] ++ ds.drop k)
      ⟨ofDigits ds, (k : Int) - ds.length⟩ := by
  have hhead' : (ds.take k).head? ≠ some '0' := by
    rwa [List.head?_take, if_neg (by omega)]
  have htake : ds.take k ≠ [] := List.ne_nil_of_length_pos (by rw [List.length_take]; omega)
  have hdrop : ds.drop k ≠ [] := List.ne_nil_of_length_pos (by rw [List.length_drop]; omega)
  refine ⟨⟨ds.take k, ds.drop k, none, fun c hc => hds c (List.mem_of_mem_take hc),
    fun c hc => hds c (List.mem_of_mem_drop hc), isWhole_of_head?_ne htake hhead'⟩, ?_, ?_, ?_⟩
  · simp [Numeral.text, hdrop]
  · simp [hdrop]
  · intro negative
    simp only [Numeral.decimal, List.take_append_drop, Option.getD_none, List.length_drop]
    congr 2
    omega

/-- The point behind the first digit, and an exponent. -/
theorem exists_spells_scientific (hds : ∀ c ∈ ds, c.isDigit = true) (hne : ds ≠ [])
    (hhead : ds.head? ≠ some '0') (e : Int) :
    ∃ s : Numeral, s.Spells
      (ds.take 1 ++ (if (ds.drop 1).isEmpty then [] else '.' :: ds.drop 1) ++ exponentText e)
      ⟨ofDigits ds, e - (ds.length - 1 : Int)⟩ := by
  have hhead' : (ds.take 1).head? ≠ some '0' := by
    rwa [List.head?_take, if_neg (by decide)]
  have hlen : 0 < ds.length := List.length_pos_iff.2 hne
  have htake : ds.take 1 ≠ [] := List.ne_nil_of_length_pos (by rw [List.length_take]; omega)
  refine ⟨⟨ds.take 1, ds.drop 1, some e, fun c hc => hds c (List.mem_of_mem_take hc),
    fun c hc => hds c (List.mem_of_mem_drop hc), isWhole_of_head?_ne htake hhead'⟩, rfl, ?_, ?_⟩
  · simp
  · intro negative
    simp only [Numeral.decimal, List.take_append_drop, Option.getD_some, List.length_drop]
    congr 2
    omega

end

/-- **A decimal is written as a numeral that is read like it.** -/
theorem exists_spells_decimalText {d : Decimal} (hd : d.digits ≠ 0) :
    ∃ s : Numeral, s.Spells (decimalText d) d := by
  obtain ⟨ds, hds⟩ : ∃ ds, ds = digits d.digits := ⟨_, rfl⟩
  have hne : ds ≠ [] := hds ▸ digits_ne_nil _
  have hpos : 0 < ds.length := List.length_pos_iff.2 hne
  have hhead : ds.head? ≠ some '0' := hds ▸ head?_digits_ne hd
  have hdigit : ∀ c ∈ ds, c.isDigit = true := hds ▸ isDigit_of_mem_digits
  have hd : ∀ e, e = d.exponent → Decimal.mk (ofDigits ds) e = d := by
    rintro e rfl
    rw [hds, ofDigits_digits]
  rw [decimalText, ← hds]
  split
  · have h := exists_spells_behind hdigit hne (d.exponent + ds.length).natAbs
    rwa [hd _ (by omega)] at h
  · split
    · split
      · have h := exists_spells_before hdigit hne hhead d.exponent.natAbs
        rwa [hd _ (by omega)] at h
      · have h := exists_spells_among hdigit hhead (k := (d.exponent + ds.length).natAbs)
          (by omega) (by omega)
        rwa [hd _ (by omega)] at h
    · have h := exists_spells_scientific hdigit hne hhead (d.exponent + ds.length - 1)
      rw [hd _ (by omega)] at h
      rw [List.append_assoc _ ['e', _]]
      exact h

/-! ## Numbers -/

theorem real?_nearest (negative : Bool) (s : Numeral) :
    real? .nearest negative s.whole s.fraction (s.exponent.getD 0) =
      Binary64.ofDecimal negative s.decimal := rfl

/-- The integer that a sign and digits denote. -/
def signed (negative : Bool) (whole : List Char) : Int :=
  if negative then -(ofDigits whole : Int) else ofDigits whole

theorem ofInteger?_eq (accuracy : Accuracy) (negative : Bool) (whole : List Char) :
    ofInteger? accuracy negative whole =
      if negative ∧ ofDigits whole = 0 then some (.real (.zero true))
      else if fits : FitsInteger (signed negative whole) then some (.integer _ fits)
      else (real? accuracy negative whole [] 0).map .real := rfl

/-- What a sign and a numeral stand for.  Without a fraction and an exponent it is an integer of
    that value; else it is the binary64 of that sign which is nearest to the decimal, and so it
    is for a negative zero and for integers of more than 64 bits. -/
def Numeral.Denotes (s : Numeral) (negative : Bool) : Number → Prop
  | .integer m _ => s.fraction = [] ∧ s.exponent = none ∧ m = signed negative s.whole
  | .real x =>
    (x.negative = negative ∧ x.IsNearest s.decimal.num s.decimal.den) ∧
    (s.fraction = [] → s.exponent = none →
      (negative = true ∧ ofDigits s.whole = 0) ∨ ¬ FitsInteger (signed negative s.whole))

/-- **Reading keeps integers and rounds correctly.** -/
theorem denotes_of_ofLiteral? {negative : Bool} {s : Numeral} {n : Number}
    (h : ofLiteral? .nearest (sign negative ++ s.text) = some n) : s.Denotes negative n := by
  have hreal : ∀ {x}, Binary64.ofDecimal negative s.decimal = some x →
      x.negative = negative ∧ x.IsNearest s.decimal.num s.decimal.den :=
    Binary64.ofDecimal_nearest
  rw [ofLiteral?_numeral] at h
  split at h
  · next hint =>
    obtain ⟨hfraction, hexponent⟩ := hint
    rw [List.isEmpty_iff] at hfraction
    have hdecimal : real? .nearest negative s.whole [] 0 =
        Binary64.ofDecimal negative s.decimal := by
      rw [← real?_nearest, hfraction, hexponent, Option.getD_none]
    rw [ofInteger?_eq, hdecimal] at h
    split at h
    · next hzero =>
      obtain rfl := Option.some.inj h
      refine ⟨hreal ?_, fun _ _ => Or.inl hzero⟩
      have hdigits : s.decimal.digits = 0 := by
        rw [Numeral.decimal, hfraction, List.append_nil]
        exact hzero.2
      rw [Binary64.ofDecimal_zero hdigits, hzero.1]
    · split at h
      · obtain rfl := Option.some.inj h
        exact ⟨hfraction, hexponent, rfl⟩
      · next hbig =>
        obtain ⟨x, hx, rfl⟩ := Option.map_eq_some_iff.1 h
        exact ⟨hreal hx, fun _ _ => Or.inr hbig⟩
  · next hint =>
    obtain ⟨x, hx, rfl⟩ := Option.map_eq_some_iff.1 h
    refine ⟨hreal hx, fun hf he => absurd ⟨?_, he⟩ hint⟩
    rw [hf]
    rfl

theorem ofInteger?_digits (accuracy : Accuracy) {n : Int} (fits : FitsInteger n) :
    ofInteger? accuracy (n < 0) (digits n.natAbs) = some (.integer n fits) := by
  have hvalue : signed (n < 0) (digits n.natAbs) = n := by
    simp only [signed, ofDigits_digits, decide_eq_true_eq]
    split <;> omega
  have hzero : ¬ (decide (n < 0) = true ∧ ofDigits (digits n.natAbs) = 0) := by
    simp only [decide_eq_true_eq, ofDigits_digits]
    omega
  simp only [ofInteger?_eq, if_neg hzero, hvalue, dif_pos fits]

/-- A literal is a sign and a numeral, and reading these gives the number. -/
theorem exists_numeral (n : Number) : ∃ (negative : Bool) (s : Numeral),
    n.literal = sign negative ++ s.text ∧
    ofLiteral? .nearest (sign negative ++ s.text) = some n := by
  cases n with
  | integer n fits =>
    refine ⟨decide (n < 0), ⟨digits n.natAbs, [], none, isDigit_of_mem_digits, by simp,
      isWhole_digits _⟩, by simp [literal, Numeral.text], ?_⟩
    rw [ofLiteral?_numeral, if_pos ⟨rfl, rfl⟩, ofInteger?_digits .nearest fits]
  | real x =>
    cases hx : x.isZero with
    | true =>
      refine ⟨x.negative, ⟨['0'], ['0'], none, by simp, by simp, rfl⟩, ?_, ?_⟩
      · rw [literal, realText, if_pos hx]
        rfl
      · rw [ofLiteral?_numeral, if_neg (by simp), real?_nearest]
        rw [Binary64.ofDecimal_zero rfl, ← Binary64.eq_zero_of_isZero hx]
        rfl
    | false =>
      obtain ⟨s, hs⟩ := exists_spells_decimalText (Binary64.shortest_digits_ne_zero hx)
      refine ⟨x.negative, s, ?_, ?_⟩
      · rw [literal, realText, if_neg (by simp [hx]), hs.text_eq]
      · rw [ofLiteral?_numeral, if_neg hs.not_integer, real?_nearest, hs.reads,
          Binary64.ofDecimal_shortest]
        rfl

/-- **A number is read back from its literal.**  An integer stays an integer, a binary64 stays one
    and keeps the sign of a zero. -/
theorem ofLiteral?_literal (n : Number) : ofLiteral? .nearest n.literal = some n := by
  obtain ⟨negative, s, htext, hread⟩ := n.exists_numeral
  rw [htext, hread]

/-- A literal consists of digits, signs, points and the letter of an exponent. -/
theorem mem_literal {n : Number} {c : Char} (hc : c ∈ n.literal) :
    c.isDigit = true ∨ c = '-' ∨ c = '+' ∨ c = '.' ∨ c = 'e' := by
  obtain ⟨negative, s, htext, -⟩ := n.exists_numeral
  rw [htext, Numeral.text, List.mem_append, List.mem_append, List.mem_append] at hc
  rcases hc with hc | (hc | hc) | hc
  · cases negative with
    | true => exact Or.inr (Or.inl (List.mem_singleton.1 hc))
    | false => cases hc
  · exact Or.inl (s.isDigit_whole c hc)
  · split at hc
    · cases hc
    · rcases List.mem_cons.1 hc with rfl | hc
      · exact Or.inr (Or.inr (Or.inr (Or.inl rfl)))
      · exact Or.inl (s.isDigit_fraction c hc)
  · cases hexp : s.exponent with
    | none =>
      rw [hexp] at hc
      cases hc
    | some e =>
      rw [hexp] at hc
      rcases List.mem_append.1 hc with hc | hc
      · rcases List.mem_cons.1 hc with rfl | hc
        · exact Or.inr (Or.inr (Or.inr (Or.inr rfl)))
        · have := List.mem_singleton.1 hc
          split at this
          · exact Or.inr (Or.inl this)
          · exact Or.inr (Or.inr (Or.inl this))
      · exact Or.inl (isDigit_of_mem_digits c hc)

end Number

end SearchBody
