/-
  Search bodies — what the document of an aggregation tells.

  The document of an aggregation of known wire type determines everything in it but its own
  name: the wire type, the document of the options, the metadata, and the named children.

  * `Json.EntryWise`: a relation that holds of objects if it holds under each key.  Equality is
    such a relation, and so is equality up to the sign of zero (`entryWise_beq`).
  * `Aggregation.Agree`: two aggregations agree in all but their names, children included.
  * `rel_document_iff`: one level of the tree; `rel_document_iff_agree`: all levels.
-/
import SearchBody.Proofs.Reachable

set_option autoImplicit false

namespace SearchBody

/-! ## Relations on documents -/

theorem rel_iff_isSome {α β : Type} {R : α → β → Prop} {x : Option α} {y : Option β} :
    Option.Rel R x y ↔ x.isSome = y.isSome ∧ ∀ a b, x = some a → y = some b → R a b := by
  cases x with
  | none => cases y <;> simp
  | some a => cases y <;> simp

theorem rel_map_iff {α β γ δ : Type} {R : γ → δ → Prop} {f : α → γ} {g : β → δ}
    {x : Option α} {y : Option β} :
    Option.Rel R (x.map f) (y.map g) ↔ Option.Rel (fun a b => R (f a) (g b)) x y := by
  cases x with
  | none => cases y <;> simp
  | some a => cases y <;> simp

namespace KeyMap

variable {α β : Type} {lo lo' : Option String}

/-- Two maps with an entry under the same keys start at the same key. -/
theorem first_key_eq {k l : String} {a : α} {b : β} {hk : Above lo k} {hl : Above lo' l}
    {as : KeyMap α (some k)} {bs : KeyMap β (some l)}
    (h : ∀ key, ((cons k a hk as).get? key).isSome = ((cons l b hl bs).get? key).isSome) :
    k = l := by
  by_cases e : k = l
  · exact e
  · have hbs : (bs.get? k).isSome := by simpa [get?_cons, e] using h k
    have has : (as.get? l).isSome := by simpa [get?_cons, Ne.symm e] using h l
    obtain ⟨b', hb⟩ := Option.isSome_iff_exists.1 hbs
    obtain ⟨a', ha⟩ := Option.isSome_iff_exists.1 has
    have hlk : l < k := (above_of_get?_eq_some hb).lt
    have hkl : k < l := (above_of_get?_eq_some ha).lt
    exact absurd hkl (String.lt_asymm hlk)

theorem exists_get?_of_isEmpty {m : KeyMap α none} (h : m.isEmpty = false) :
    ∃ key v, m.get? key = some v := by
  cases m with
  | nil => cases h
  | cons k v hk rest => exact ⟨k, v, by rw [get?_cons, if_pos rfl]⟩

end KeyMap

namespace Json

/-- Objects are related when the values under each key are. -/
def EntryWise (R : Json → Json → Prop) : Prop :=
  ∀ m n : KeyMap Json none,
    R (.object m) (.object n) ↔ ∀ key, Option.Rel R (m.get? key) (n.get? key)

theorem entryWise_eq : EntryWise fun v w => v = w := by
  intro m n
  constructor
  · intro h key
    cases h
    cases m.get? key <;> simp
  · intro h
    congr 1
    refine KeyMap.ext_get? fun key => ?_
    have hk := h key
    cases hm : m.get? key <;> cases hn : n.get? key <;> simp_all

theorem beqEntries_iff {lo lo' : Option String} {m : KeyMap Json lo} {n : KeyMap Json lo'} :
    beqEntries m n = true ↔
      ∀ key, Option.Rel (fun v w => v.beq w = true) (m.get? key) (n.get? key) := by
  induction m generalizing lo' with
  | nil =>
    cases n with
    | nil => simp [beqEntries]
    | cons l b hl bs =>
      refine ⟨fun h => by simp [beqEntries] at h, fun h => ?_⟩
      have hl' := h l
      simp [KeyMap.get?_cons] at hl'
  | cons k a hk as ih =>
    cases n with
    | nil =>
      refine ⟨fun h => by simp [beqEntries] at h, fun h => ?_⟩
      have hk' := h k
      simp [KeyMap.get?_cons] at hk'
    | cons l b hl bs =>
      rw [beqEntries, Bool.and_eq_true, Bool.and_eq_true, beq_iff_eq, ih]
      constructor
      · rintro ⟨⟨rfl, hab⟩, h⟩ key
        rw [KeyMap.get?_cons, KeyMap.get?_cons]
        by_cases e : key = k
        · simpa [e] using hab
        · simpa [e] using h key
      · intro h
        obtain rfl : k = l := KeyMap.first_key_eq fun key => (rel_iff_isSome.1 (h key)).1
        have hab := h k
        rw [KeyMap.get?_cons, KeyMap.get?_cons, if_pos rfl, if_pos rfl, Option.rel_some_some] at hab
        refine ⟨⟨rfl, hab⟩, fun key => ?_⟩
        by_cases e : key = k
        · subst e
          rw [KeyMap.get?_rest_self, KeyMap.get?_rest_self]
          exact .none
        · simpa [KeyMap.get?_cons, e] using h key

theorem entryWise_beq : EntryWise fun v w => (v == w) = true :=
  fun _ _ => beqEntries_iff

end Json

/-! ## Agreement -/

namespace Aggregation

/-- Two aggregations agree in wire type, options, metadata and names of children, and so do
    the children of each name.  Documents and metadata are compared by `R`. -/
inductive Agree (k : SectionKey) (R : Json → Json → Prop) : Aggregation → Aggregation → Prop
  | intro {a b} :
      a.wireType = b.wireType →
      R (.object (OptionValue.documents k a.body)) (.object (OptionValue.documents k b.body)) →
      Option.Rel R a.metadata b.metadata →
      (∀ name, (a.child? name).isSome = (b.child? name).isSome) →
      (∀ name c d, a.child? name = some c → b.child? name = some d → Agree k R c d) →
      Agree k R a b

variable {k : SectionKey} {R : Json → Json → Prop}

/-- Sections are related when the aggregations of each name are. -/
theorem rel_section_iff (hR : Json.EntryWise R) (m n : Aggregations) :
    Option.Rel R (if m.isEmpty then none else some (.object (documents k m)))
        (if n.isEmpty then none else some (.object (documents k n))) ↔
      ∀ name, Option.Rel (fun c d => R (c.document k) (d.document k)) (m.get? name)
        (n.get? name) := by
  cases hm : m.isEmpty with
  | true =>
    rw [KeyMap.isEmpty_iff.1 hm]
    cases hn : n.isEmpty with
    | true =>
      rw [KeyMap.isEmpty_iff.1 hn]
      simp
    | false =>
      obtain ⟨name, d, hd⟩ := KeyMap.exists_get?_of_isEmpty hn
      refine ⟨fun h => by simp at h, fun h => ?_⟩
      have hn' := h name
      simp [hd] at hn'
  | false =>
    cases hn : n.isEmpty with
    | true =>
      obtain ⟨name, c, hc⟩ := KeyMap.exists_get?_of_isEmpty hm
      rw [KeyMap.isEmpty_iff.1 hn]
      refine ⟨fun h => by simp at h, fun h => ?_⟩
      have hm' := h name
      simp [hc] at hm'
    | false =>
      simp only [Bool.false_eq_true, if_false, Option.rel_some_some]
      rw [hR]
      refine forall_congr' fun name => ?_
      rw [get?_aggregationDocuments, get?_aggregationDocuments, rel_map_iff]

/-- **One level of the tree**: the wire type, the options, the metadata and the section can be
    told from one another in the document. -/
theorem rel_document_iff (hR : Json.EntryWise R) {a b : Aggregation}
    (ha : IsLeafType a.wireType) (hb : IsLeafType b.wireType) :
    R (a.document k) (b.document k) ↔
      a.wireType = b.wireType ∧
      R (.object (OptionValue.documents k a.body)) (.object (OptionValue.documents k b.body)) ∧
      Option.Rel R a.metadata b.metadata ∧
      ∀ name, Option.Rel (fun c d => R (c.document k) (d.document k)) (a.child? name)
        (b.child? name) := by
  rw [document_eq, document_eq, hR]
  constructor
  · intro h
    -- the wire type of `a` leads to something in `b` only if it is the wire type of `b`
    have hw := h a.wireType
    rw [get?_entries k ha, get?_entries k hb, if_neg (ha.ne_word k), if_neg (ha.ne_word k),
      if_neg ha.ne_meta, if_neg ha.ne_meta, if_pos rfl] at hw
    have hs := h k.word
    rw [get?_entries k ha, get?_entries k hb, if_pos rfl, if_pos rfl, rel_section_iff hR] at hs
    have hm := h "meta"
    rw [get?_entries k ha, get?_entries k hb, if_neg k.word_ne_meta.symm,
      if_neg k.word_ne_meta.symm, if_pos rfl, if_pos rfl] at hm
    by_cases e : a.wireType = b.wireType
    · rw [if_pos e, Option.rel_some_some] at hw
      exact ⟨e, hw, hm, hs⟩
    · rw [if_neg e] at hw
      exact absurd hw Option.not_rel_some_none
  · rintro ⟨e, ho, hm, hs⟩ key
    rw [get?_entries k ha, get?_entries k hb, ← e]
    by_cases hk : key = k.word
    · rw [if_pos hk, if_pos hk]
      exact (rel_section_iff hR _ _).2 hs
    · rw [if_neg hk, if_neg hk]
      by_cases hkm : key = "meta"
      · rw [if_pos hkm, if_pos hkm]
        exact hm
      · rw [if_neg hkm, if_neg hkm]
        by_cases hkw : key = a.wireType
        · rw [if_pos hkw, if_pos hkw]
          exact .some ho
        · rw [if_neg hkw, if_neg hkw]
          exact .none

/-- **All levels of the tree**, for a relation that objects meet entry by entry. -/
theorem rel_document_iff_agree (hR : Json.EntryWise R) {a b : Aggregation} (ha : a.Known)
    (hb : b.Known) : R (a.document k) (b.document k) ↔ Agree k R a b := by
  induction a using child_induction generalizing b with
  | step a ih =>
    rw [rel_document_iff hR ha.wireType hb.wireType]
    constructor
    · rintro ⟨hw, ho, hm, hs⟩
      refine .intro hw ho hm (fun name => (rel_iff_isSome.1 (hs name)).1) fun name c d hc hd => ?_
      have hcd := (rel_iff_isSome.1 (hs name)).2 c d hc hd
      exact (ih name c hc (ha.child hc) (hb.child hd)).1 hcd
    · rintro ⟨hw, ho, hm, hn, hs⟩
      refine ⟨hw, ho, hm, fun name => rel_iff_isSome.2 ⟨hn name, fun c d hc hd => ?_⟩⟩
      exact (ih name c hc (ha.child hc) (hb.child hd)).2 (hs name c d hc hd)

/-- **The document of an aggregation determines all of it but its name.**  Two aggregations
    whose wire types are known at every level have equal documents just if they agree, by
    either notion of equality, and the name at the top is not in the document. -/
theorem document_eq_iff_agree (k : SectionKey) {a b : Aggregation} (ha : a.Known) (hb : b.Known) :
    (a.document k = b.document k ↔ Agree k (fun v w => v = w) a b) ∧
      ((a.document k == b.document k) = true ↔ Agree k (fun v w => (v == w) = true) a b) ∧
      ∀ name, document k { a with name := name } = a.document k :=
  ⟨rel_document_iff_agree Json.entryWise_eq ha hb, rel_document_iff_agree Json.entryWise_beq ha hb,
    fun _ => by cases a; rfl⟩

theorem document_eq_iff_agree_salesByMonth :
    (salesByMonth "sales").Known ∧ (salesByMonth "turnover").Known ∧
      (salesByMonth "sales").document .aggs = (salesByMonth "turnover").document .aggs ∧
      Agree .aggs (fun v w => v = w) (salesByMonth "sales") (salesByMonth "turnover") := by
  have h := (regularThroughout_salesByMonth "sales").known
  have h' := (regularThroughout_salesByMonth "turnover").known
  exact ⟨h, h', rfl, (document_eq_iff_agree .aggs h h').1.1 rfl⟩

end Aggregation

end SearchBody
