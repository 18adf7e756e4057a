/-
  Search bodies — equality up to the signs of zeros.

  Trees are compared part by part and numbers as numbers, so equal trees are the same but for the
  signs of zeros.  Without these signs they are the same.

  * `plain`: a number, a document or a tree with every zero positive.
  * `Binary64.value` is the number that a binary64 stands for; `Binary64.beq_iff_value`: equality
    compares these, `Number.beq_iff_plain`: which numbers are equal.
  * `Json.beq_iff_plain` and `Node.beq_iff_plain` with its companions: two documents or trees are
    equal exactly if they are the same without the signs of zeros.
  * `equivalence_of_plain`: such an equality is an equivalence relation.
-/
import SearchBody.Request
import SearchBody.Proofs.Rounding

set_option autoImplicit false

namespace SearchBody

/-! ## Numbers -/

namespace Binary64

/-- The number itself, counted in units of `2 ^ -1074`. -/
def value (x : Binary64) : Int := if x.negative then -(x.units : Int) else x.units

/-- The same number, with a positive zero. -/
def plain (x : Binary64) : Binary64 := if x.isZero then .zero false else x

theorem units_eq_zero_iff {x : Binary64} : x.units = 0 ↔ x.isZero = true := by
  rw [units_eq, Nat.mul_eq_zero, isZero, beq_iff_eq]
  exact or_iff_left (Nat.two_pow_pos x.scale).ne'

/-- Sign and magnitude determine a number. -/
theorem eq_of_units {x y : Binary64} (hs : x.negative = y.negative) (hu : x.units = y.units) :
    x = y := by
  have hx := ofQuotient_units x
  rw [hs, hu, ofQuotient_units] at hx
  exact (Option.some.inj hx).symm

/-- **Equality of binary64 compares numbers.** -/
theorem beq_iff_value {x y : Binary64} : x.beq y = true ↔ x.value = y.value := by
  rw [beq, Bool.or_eq_true, Bool.and_eq_true, decide_eq_true_eq]
  constructor
  · rintro (⟨hx, hy⟩ | rfl)
    · rw [value, value, units_eq_zero_iff.2 hx, units_eq_zero_iff.2 hy]
      simp
    · rfl
  · intro h
    by_cases hx : x.isZero = true
    · refine Or.inl ⟨hx, units_eq_zero_iff.1 ?_⟩
      rw [value, value, units_eq_zero_iff.2 hx] at h
      split at h <;> split at h <;> omega
    · -- the magnitude is positive, so the sign can be seen
      have hpos : x.units ≠ 0 := fun e => hx (units_eq_zero_iff.1 e)
      rw [value, value] at h
      refine Or.inr (eq_of_units ?_ ?_)
      · cases hxs : x.negative <;> cases hys : y.negative <;> simp [hxs, hys] at h ⊢ <;> omega
      · split at h <;> split at h <;> omega

theorem beq_iff_plain {x y : Binary64} : x.beq y = true ↔ x.plain = y.plain := by
  rw [beq, Bool.or_eq_true, Bool.and_eq_true, decide_eq_true_eq]
  constructor
  · rintro (⟨hx, hy⟩ | rfl)
    · rw [plain, plain, if_pos hx, if_pos hy]
    · rfl
  · intro h
    rw [plain, plain] at h
    split at h
    · next hx =>
      split at h
      · next hy => exact Or.inl ⟨hx, hy⟩
      · next hy => exact absurd (h ▸ rfl) hy
    · next hx =>
      split at h
      · next hy => exact absurd (h ▸ rfl) hx
      · exact Or.inr h

end Binary64

namespace Number

/-- The same number, with a positive zero. -/
def plain : Number → Number
  | .integer n fits => .integer n fits
  | .real x => .real x.plain

theorem beq_iff_plain {m n : Number} : m.beq n = true ↔ m.plain = n.plain := by
  cases m with
  | integer m hm =>
    cases n with
    | integer n hn => simp [beq, plain]
    | real y => simp [beq, plain]
  | real x =>
    cases n with
    | integer n hn => simp [beq, plain]
    | real y => rw [beq, Binary64.beq_iff_plain, plain, plain, Number.real.injEq]

end Number

/-! ## Documents -/

namespace Json

mutual

/-- The same value, with all zeros positive. -/
def plain : Json → Json
  | .number n => .number n.plain
  | .array items => .array (plainItems items)
  | .object entries => .object (plainEntries entries)
  | v => v

/-- The items of an array, with all zeros positive. -/
def plainItems : List Json → List Json
  | [] => []
  | v :: vs => v.plain :: plainItems vs

/-- The entries of an object, with all zeros positive. -/
def plainEntries : {lo : Option String} → KeyMap Json lo → KeyMap Json lo
  | _, .nil => .nil
  | _, .cons k v h rest => .cons k v.plain h (plainEntries rest)

end

theorem plainEntries_eq {lo : Option String} (m : KeyMap Json lo) :
    plainEntries m = m.map plain := by
  induction m with
  | nil => rfl
  | cons k v h rest ih => rw [plainEntries, KeyMap.map, ih]

mutual

theorem beq_iff_plain : (v w : Json) → (v.beq w = true ↔ v.plain = w.plain)
  | .null, w => by cases w <;> simp [beq, plain]
  | .bool a, w => by cases w <;> simp [beq, plain]
  | .number m, w => by
    cases w with
    | number n => rw [beq, plain, plain, Json.number.injEq, Number.beq_iff_plain]
    | _ => simp [beq, plain]
  | .string s, w => by cases w <;> simp [beq, plain]
  | .array vs, w => by
    cases w with
    | array ws => rw [beq, plain, plain, Json.array.injEq, beqItems_iff_plain vs ws]
    | _ => simp [beq, plain]
  | .object m, w => by
    cases w with
    | object n => rw [beq, plain, plain, Json.object.injEq, beqEntries_iff_plain m n]
    | _ => simp [beq, plain]

theorem beqItems_iff_plain : (vs ws : List Json) →
    (beqItems vs ws = true ↔ plainItems vs = plainItems ws)
  | [], [] => by simp [beqItems]
  | [], _ :: _ => by simp [beqItems, plainItems]
  | _ :: _, [] => by simp [beqItems, plainItems]
  | v :: vs, w :: ws => by
    rw [beqItems, Bool.and_eq_true, beq_iff_plain v w, beqItems_iff_plain vs ws, plainItems,
      plainItems, List.cons.injEq]

theorem beqEntries_iff_plain : {lo : Option String} → (m n : KeyMap Json lo) →
    (beqEntries m n = true ↔ plainEntries m = plainEntries n)
  | _, .nil, .nil => by simp [beqEntries]
  | _, .nil, .cons .. => by simp [beqEntries, plainEntries]
  | _, .cons .., .nil => by simp [beqEntries, plainEntries]
  | _, .cons k v _ m, .cons l w _ n => by
    rw [beqEntries, Bool.and_eq_true, Bool.and_eq_true, beq_iff_eq, beq_iff_plain v w,
      plainEntries, plainEntries, KeyMap.cons.injEq]
    by_cases e : k = l
    · subst e
      rw [beqEntries_iff_plain m n, heq_iff_eq, and_assoc]
    · simp [e]

end

theorem beqMetadata_iff_plain {v w : Option Json} :
    beqMetadata v w = true ↔ v.map plain = w.map plain := by
  cases v with
  | none => cases w <;> simp [beqMetadata]
  | some v =>
    cases w with
    | none => simp [beqMetadata]
    | some w => rw [beqMetadata, beq_iff_plain, Option.map_some, Option.map_some, Option.some.injEq]

end Json

/-! ## Trees -/

mutual

/-- The same node, with all zeros positive. -/
def Node.plain : Node → Node
  | .query q => .query q.plain
  | .aggregation a => .aggregation a.plain
  | .script s => .script s.plain

/-- The same query, with all zeros positive. -/
def Query.plain : Query → Query
  | ⟨wireType, field, body⟩ => ⟨wireType, field, OptionValue.plainEntries body⟩

/-- The same aggregation, with all zeros positive, in its children too. -/
def Aggregation.plain : Aggregation → Aggregation
  | ⟨name, wireType, body, metadata, children⟩ =>
    ⟨name, wireType, OptionValue.plainEntries body, metadata.map Json.plain,
      Aggregation.plainEntries children⟩

/-- The same script, with all zeros positive. -/
def Script.plain : Script → Script
  | ⟨body⟩ => ⟨OptionValue.plainEntries body⟩

/-- The same option value, with all zeros positive. -/
def OptionValue.plain : OptionValue → OptionValue
  | .scalar v => .scalar v.plain
  | .node n => .node n.plain
  | .list items => .list (OptionValue.plainItems items)
  | .map entries => .map (OptionValue.plainEntries entries)

/-- The items of a list, with all zeros positive. -/
def OptionValue.plainItems : List OptionValue → List OptionValue
  | [] => []
  | v :: vs => v.plain :: OptionValue.plainItems vs

/-- Options, with all zeros positive. -/
def OptionValue.plainEntries : {lo : Option String} → KeyMap OptionValue lo →
    KeyMap OptionValue lo
  | _, .nil => .nil
  | _, .cons key v h rest => .cons key v.plain h (OptionValue.plainEntries rest)

/-- Named aggregations, with all zeros positive. -/
def Aggregation.plainEntries : {lo : Option String} → KeyMap Aggregation lo →
    KeyMap Aggregation lo
  | _, .nil => .nil
  | _, .cons name a h rest => .cons name a.plain h (Aggregation.plainEntries rest)

end

/-- The same request, with all zeros positive. -/
def SearchRequest.plain (r : SearchRequest) : SearchRequest :=
  ⟨OptionValue.plainEntries r.body, Aggregation.plainEntries r.aggregations⟩

mutual

/-- **Nodes are equal exactly if they are the same without the signs of zeros.** -/
theorem Node.beq_iff_plain : (n m : Node) → (n.beq m = true ↔ n.plain = m.plain)
  | .query q, .query r => by
    rw [Node.beq, Node.plain, Node.plain, Node.query.injEq, q.beq_iff_plain r]
  | .aggregation a, .aggregation b => by
    rw [Node.beq, Node.plain, Node.plain, Node.aggregation.injEq, a.beq_iff_plain b]
  | .script s, .script t => by
    rw [Node.beq, Node.plain, Node.plain, Node.script.injEq, s.beq_iff_plain t]
  | .query _, .aggregation _ | .query _, .script _
  | .aggregation _, .query _ | .aggregation _, .script _
  | .script _, .query _ | .script _, .aggregation _ => by simp [Node.beq, Node.plain]
termination_by structural n => n

theorem Query.beq_iff_plain : (q r : Query) → (q.beq r = true ↔ q.plain = r.plain)
  | ⟨w, f, body⟩, ⟨w', f', body'⟩ => by
    simp only [Query.beq, Query.plain, Query.mk.injEq, Bool.and_eq_true, beq_iff_eq, and_assoc,
      OptionValue.beqEntries_iff_plain body body']
termination_by structural q => q

theorem Aggregation.beq_iff_plain : (a b : Aggregation) → (a.beq b = true ↔ a.plain = b.plain)
  | ⟨n, w, body, m, below⟩, ⟨n', w', body', m', below'⟩ => by
    simp only [Aggregation.beq, Aggregation.plain, Aggregation.mk.injEq, Bool.and_eq_true,
      beq_iff_eq, and_assoc, OptionValue.beqEntries_iff_plain body body',
      Json.beqMetadata_iff_plain, Aggregation.beqEntries_iff_plain below below']
termination_by structural a => a

theorem Script.beq_iff_plain : (s t : Script) → (s.beq t = true ↔ s.plain = t.plain)
  | ⟨body⟩, ⟨body'⟩ => by
    rw [Script.beq, Script.plain, Script.plain, Script.mk.injEq,
      OptionValue.beqEntries_iff_plain body body']
termination_by structural s => s

theorem OptionValue.beq_iff_plain : (v w : OptionValue) → (v.beq w = true ↔ v.plain = w.plain)
  | .scalar v, .scalar w => by
    rw [OptionValue.beq, OptionValue.plain, OptionValue.plain, OptionValue.scalar.injEq,
      v.beq_iff_plain w]
  | .node n, .node m => by
    rw [OptionValue.beq, OptionValue.plain, OptionValue.plain, OptionValue.node.injEq,
      n.beq_iff_plain m]
  | .list vs, .list ws => by
    rw [OptionValue.beq, OptionValue.plain, OptionValue.plain, OptionValue.list.injEq,
      OptionValue.beqItems_iff_plain vs ws]
  | .map vs, .map ws => by
    rw [OptionValue.beq, OptionValue.plain, OptionValue.plain, OptionValue.map.injEq,
      OptionValue.beqEntries_iff_plain vs ws]
  | .scalar _, .node _ | .scalar _, .list _ | .scalar _, .map _
  | .node _, .scalar _ | .node _, .list _ | .node _, .map _
  | .list _, .scalar _ | .list _, .node _ | .list _, .map _
  | .map _, .scalar _ | .map _, .node _ | .map _, .list _ => by
    simp [OptionValue.beq, OptionValue.plain]
termination_by structural v => v

theorem OptionValue.beqItems_iff_plain : (vs ws : List OptionValue) →
    (OptionValue.beqItems vs ws = true ↔ OptionValue.plainItems vs = OptionValue.plainItems ws)
  | [], [] => by simp [OptionValue.beqItems]
  | [], _ :: _ => by simp [OptionValue.beqItems, OptionValue.plainItems]
  | _ :: _, [] => by simp [OptionValue.beqItems, OptionValue.plainItems]
  | v :: vs, w :: ws => by
    rw [OptionValue.beqItems, Bool.and_eq_true, v.beq_iff_plain w,
      OptionValue.beqItems_iff_plain vs ws, OptionValue.plainItems, OptionValue.plainItems,
      List.cons.injEq]
termination_by structural vs => vs

theorem OptionValue.beqEntries_iff_plain : {lo : Option String} →
    (m n : KeyMap OptionValue lo) →
    (OptionValue.beqEntries m n = true ↔ OptionValue.plainEntries m = OptionValue.plainEntries n)
  | _, .nil, .nil => by simp [OptionValue.beqEntries]
  | _, .nil, .cons .. => by simp [OptionValue.beqEntries, OptionValue.plainEntries]
  | _, .cons .., .nil => by simp [OptionValue.beqEntries, OptionValue.plainEntries]
  | _, .cons k v _ m, .cons l w _ n => by
    rw [OptionValue.beqEntries, Bool.and_eq_true, Bool.and_eq_true, beq_iff_eq,
      v.beq_iff_plain w, OptionValue.plainEntries, OptionValue.plainEntries, KeyMap.cons.injEq]
    by_cases e : k = l
    · subst e
      rw [OptionValue.beqEntries_iff_plain m n, heq_iff_eq, and_assoc]
    · simp [e]
termination_by structural _ m => m

theorem Aggregation.beqEntries_iff_plain : {lo : Option String} →
    (m n : KeyMap Aggregation lo) →
    (Aggregation.beqEntries m n = true ↔ Aggregation.plainEntries m = Aggregation.plainEntries n)
  | _, .nil, .nil => by simp [Aggregation.beqEntries]
  | _, .nil, .cons .. => by simp [Aggregation.beqEntries, Aggregation.plainEntries]
  | _, .cons .., .nil => by simp [Aggregation.beqEntries, Aggregation.plainEntries]
  | _, .cons k a _ m, .cons l b _ n => by
    rw [Aggregation.beqEntries, Bool.and_eq_true, Bool.and_eq_true, beq_iff_eq,
      a.beq_iff_plain b, Aggregation.plainEntries, Aggregation.plainEntries, KeyMap.cons.injEq]
    by_cases e : k = l
    · subst e
      rw [Aggregation.beqEntries_iff_plain m n, heq_iff_eq, and_assoc]
    · simp [e]
termination_by structural _ m => m

end

theorem SearchRequest.beq_iff_plain (r t : SearchRequest) : r.beq t = true ↔ r.plain = t.plain := by
  rw [SearchRequest.beq, Bool.and_eq_true, OptionValue.beqEntries_iff_plain,
    Aggregation.beqEntries_iff_plain, plain, plain, SearchRequest.mk.injEq]

/-- A relation is an equivalence if it holds where a function has the same value. -/
theorem equivalence_of_plain {α β : Type} {R : α → α → Prop} {plain : α → β}
    (h : ∀ x y, R x y ↔ plain x = plain y) : Equivalence R where
  refl x := (h x x).2 rfl
  symm e := (h _ _).2 ((h _ _).1 e).symm
  trans e e' := (h _ _).2 (((h _ _).1 e).trans ((h _ _).1 e'))

end SearchBody
