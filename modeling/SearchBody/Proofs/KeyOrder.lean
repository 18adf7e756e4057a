/-
  Search bodies — the order of keys in bytes.

  Keys ascend by code point.  UTF-8 keeps that order: of two strings the one with the smaller
  code point at the first difference has the smaller byte there.

  * `lex_utf8EncodeChar`: a smaller character has smaller bytes, whatever follows.
  * `utf8_lt`: a smaller string has smaller bytes.
-/
import SearchBody.KeyMap

set_option autoImplicit false

namespace SearchBody

/-- The bytes of a string. -/
def utf8 (s : String) : List UInt8 := s.toUTF8.data.toList

theorem utf8_eq (s : String) : utf8 s = s.toList.flatMap String.utf8EncodeChar := by
  rw [utf8]
  show s.toByteArray.data.toList = _
  rw [← String.utf8Encode_toList]
  simp [List.utf8Encode]

/-! ## Characters -/

section
variable {a b : Nat} {as bs : List UInt8}

theorem lex_of_byte_lt (hb : b < 256) (h : a < b) :
    List.Lex (· < ·) (UInt8.ofNat a :: as) (UInt8.ofNat b :: bs) := by
  refine List.Lex.rel ?_
  rw [UInt8.lt_iff_toNat_lt, UInt8.toNat_ofNat', UInt8.toNat_ofNat']
  omega

/-- Of bytes that do not descend, equal ones leave the matter to what follows. -/
theorem lex_of_byte_le (hb : b < 256) (hle : a ≤ b) (h : a = b → List.Lex (· < ·) as bs) :
    List.Lex (· < ·) (UInt8.ofNat a :: as) (UInt8.ofNat b :: bs) := by
  rcases Nat.lt_or_eq_of_le hle with hlt | rfl
  · exact lex_of_byte_lt hb hlt
  · exact List.Lex.cons (h rfl)

end

/-- A smaller character has smaller bytes, whatever follows. -/
theorem lex_utf8EncodeChar {c d : Char} (h : c < d) (cs ds : List UInt8) :
    List.Lex (· < ·) (String.utf8EncodeChar c ++ cs) (String.utf8EncodeChar d ++ ds) := by
  have hlt : c.val.toNat < d.val.toNat := h
  have hmax : d.val.toNat < 0x110000 := by
    have hvalid := d.valid
    simp only [UInt32.isValidChar, Nat.isValidChar] at hvalid
    omega
  simp only [String.utf8EncodeChar]
  generalize c.val.toNat = m at hlt
  generalize d.val.toNat = n at hlt hmax
  -- Of encodings that differ in length, the shorter one has the smaller first byte.
  by_cases hm : m ≤ 0x7f
  · rw [if_pos hm]
    by_cases hn : n ≤ 0x7f
    · rw [if_pos hn]
      exact lex_of_byte_lt (by omega) hlt
    · rw [if_neg hn]
      split
      · exact lex_of_byte_lt (by omega) (by omega)
      · split <;> exact lex_of_byte_lt (by omega) (by omega)
  rw [if_neg hm, if_neg (show ¬ n ≤ 0x7f by omega)]
  by_cases hm : m ≤ 0x7ff
  · rw [if_pos hm]
    by_cases hn : n ≤ 0x7ff
    · rw [if_pos hn]
      exact lex_of_byte_le (by omega) (by omega) fun _ => lex_of_byte_lt (by omega) (by omega)
    · rw [if_neg hn]
      split <;> exact lex_of_byte_lt (by omega) (by omega)
  rw [if_neg hm, if_neg (show ¬ n ≤ 0x7ff by omega)]
  by_cases hm : m ≤ 0xffff
  · rw [if_pos hm]
    split
    · exact lex_of_byte_le (by omega) (by omega) fun _ =>
        lex_of_byte_le (by omega) (by omega) fun _ => lex_of_byte_lt (by omega) (by omega)
    · exact lex_of_byte_lt (by omega) (by omega)
  · rw [if_neg hm, if_neg (show ¬ n ≤ 0xffff by omega)]
    exact lex_of_byte_le (by omega) (by omega) fun _ =>
      lex_of_byte_le (by omega) (by omega) fun _ =>
        lex_of_byte_le (by omega) (by omega) fun _ => lex_of_byte_lt (by omega) (by omega)

/-! ## Strings -/

theorem lex_flatMap_utf8 {cs ds : List Char} (h : List.Lex (· < ·) cs ds) :
    List.Lex (· < ·) (cs.flatMap String.utf8EncodeChar) (ds.flatMap String.utf8EncodeChar) := by
  induction h with
  | @nil d ds =>
    have hd : String.utf8EncodeChar d ≠ [] := String.utf8EncodeChar_ne_nil
    rw [List.flatMap_nil, List.flatMap_cons]
    cases henc : String.utf8EncodeChar d with
    | nil => exact absurd henc hd
    | cons => exact List.Lex.nil
  | @rel c cs d ds hlt => exact lex_utf8EncodeChar hlt _ _
  | @cons c cs ds _ ih =>
    rw [List.flatMap_cons, List.flatMap_cons]
    generalize String.utf8EncodeChar c = bytes
    induction bytes with
    | nil => exact ih
    | cons b bytes ihb => exact List.Lex.cons ihb

/-- **A smaller string has smaller bytes.** -/
theorem utf8_lt {s t : String} (h : s < t) : utf8 s < utf8 t := by
  rw [utf8_eq, utf8_eq]
  exact lex_flatMap_utf8 h

/-! ## Keys of a map -/

/-- **The keys of a map ascend in bytes.** -/
theorem KeyMap.keys_ascend {α : Type} {lo : Option String} (m : KeyMap α lo) :
    m.keys.Pairwise fun a b => utf8 a < utf8 b :=
  m.pairwise_keys.imp utf8_lt

end SearchBody
