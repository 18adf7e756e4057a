/-
  Search bodies — what a document has no room for.

  The options of an aggregation stand under its wire type, and any text can be one.  If it is the
  key of the metadata or the section key, the part that is written later takes the place of the
  options.

  * `Aggregation.Collides`: another part of the document stands under the wire type.
  * `Aggregation.partCount`: how many parts an aggregation has; `Aggregation.LosesOptions`: its
    document does not depend on its options.
  * `get?_entries_of_any`: what a document has under a key, whatever the wire type.
  * `size_entries`: the number of entries, one less than the number of parts in a collision.
  * `document_of_collision`: what is there and what is lost.
-/
import SearchBody.Proofs.Conservation
import SearchBody.Proofs.Tree

set_option autoImplicit false

namespace SearchBody

namespace Aggregation

variable {k : SectionKey} {a : Aggregation}

/-! ## Parts under one key -/

/-- The wire type is the key of the metadata or of the section, and that part is there. -/
def Collides (k : SectionKey) (a : Aggregation) : Prop :=
  (a.wireType = "meta" ∧ a.metadata.isSome = true) ∨
    (a.wireType = k.word ∧ a.children.isEmpty = false)

instance (k : SectionKey) (a : Aggregation) : Decidable (a.Collides k) :=
  inferInstanceAs (Decidable (_ ∨ _))

/-- The number of parts of an aggregation: the options, the metadata and the section. -/
def partCount (a : Aggregation) : Nat :=
  1 + (if a.metadata.isSome then 1 else 0) + (if a.children.isEmpty then 0 else 1)

/-- The document is the same whatever the options are. -/
def LosesOptions (k : SectionKey) (a : Aggregation) : Prop :=
  ∀ body, document k { a with body := body } = a.document k

/-! ## Entries -/

/-- **What is under a key of a document, whatever the wire type**: of two parts with one key the
    later one. -/
theorem get?_entries_of_any (k : SectionKey) (a : Aggregation) (key : String) :
    (a.entries k).get? key =
      if key = k.word ∧ a.children.isEmpty = false then
        some (.object (documents k a.children))
      else if key = "meta" ∧ a.metadata.isSome = true then a.metadata
      else if key = a.wireType then some (.object (OptionValue.documents k a.body))
      else none := by
  rw [entries, get?_withSection, get?_withMetadata, KeyMap.get?_single,
    isEmpty_aggregationDocuments]
  by_cases hm : key = "meta"
  · cases a.metadata <;> simp [hm]
  · simp [hm]

theorem get?_entries_section (hc : a.children.isEmpty = false) :
    (a.entries k).get? k.word = some (.object (documents k a.children)) := by
  rw [get?_entries_of_any, if_pos ⟨rfl, hc⟩]

theorem get?_entries_metadata {v : Json} (hv : a.metadata = some v) :
    (a.entries k).get? "meta" = some v := by
  rw [get?_entries_of_any, if_neg fun e => k.word_ne_meta e.1.symm, hv, if_pos ⟨rfl, rfl⟩]

theorem get?_entries_options (h : ¬ a.Collides k) :
    (a.entries k).get? a.wireType = some (.object (OptionValue.documents k a.body)) := by
  rw [get?_entries_of_any, if_neg fun e => h (Or.inr e), if_neg fun e => h (Or.inl e), if_pos rfl]

/-- In a collision there is nothing but metadata and section. -/
theorem get?_entries_of_collision (h : a.Collides k) (key : String) :
    (a.entries k).get? key =
      if key = k.word ∧ a.children.isEmpty = false then
        some (.object (documents k a.children))
      else if key = "meta" then a.metadata
      else none := by
  rw [get?_entries_of_any]
  refine ite_congr rfl (fun _ => rfl) fun hs => ?_
  by_cases hm : key = "meta" ∧ a.metadata.isSome = true
  · rw [if_pos hm, if_pos hm.1]
  · -- the key is not the wire type, under which one of the two parts stands
    have hw : key ≠ a.wireType := by
      rintro rfl
      exact h.elim hm hs
    rw [if_neg hm, if_neg hw]
    split
    · next e => exact (Option.not_isSome_iff_eq_none.1 fun hsome => hm ⟨e, hsome⟩).symm
    · rfl

/-! ## The number of entries -/

theorem size_withMetadata (metadata : Option Json) (m : KeyMap Json none) :
    (withMetadata metadata m).size +
        (if metadata.isSome then (m.get? "meta").toList.length else 0) =
      m.size + if metadata.isSome then 1 else 0 := by
  cases metadata with
  | none => rfl
  | some v => exact KeyMap.size_insert m "meta" v

theorem size_withSection (k : SectionKey) (named m : KeyMap Json none) :
    (withSection k named m).size +
        (if named.isEmpty then 0 else (m.get? k.word).toList.length) =
      m.size + if named.isEmpty then 0 else 1 := by
  unfold withSection
  cases named.isEmpty with
  | true => rfl
  | false => exact KeyMap.size_insert m k.word (.object named)

/-- **Each part has an entry of its own, but for the options in a collision.** -/
theorem size_entries (k : SectionKey) (a : Aggregation) :
    (a.entries k).size + (if a.Collides k then 1 else 0) = a.partCount := by
  let options : KeyMap Json none := .single a.wireType (.object (OptionValue.documents k a.body))
  have hmetadata := size_withMetadata a.metadata options
  have hsection : (a.entries k).size + _ = _ :=
    size_withSection k (documents k a.children) (withMetadata a.metadata options)
  rw [KeyMap.get?_single, show options.size = 1 from rfl] at hmetadata
  rw [get?_withMetadata, if_neg k.word_ne_meta, KeyMap.get?_single,
    isEmpty_aggregationDocuments] at hsection
  rw [partCount]
  -- the wire type is one of the two keys at most
  by_cases hm : "meta" = a.wireType
  · have hk : k.word ≠ a.wireType := fun e => k.word_ne_meta (e.trans hm.symm)
    have hc : a.Collides k ↔ a.metadata.isSome = true := by
      simp [Collides, ← hm, k.word_ne_meta.symm]
    rw [if_pos hm] at hmetadata
    rw [if_neg hk] at hsection
    simp only [hc]
    grind
  · by_cases hk : k.word = a.wireType
    · have hc : a.Collides k ↔ a.children.isEmpty = false := by
        simp [Collides, ← hk, k.word_ne_meta]
      rw [if_neg hm] at hmetadata
      rw [if_pos hk] at hsection
      simp only [hc]
      grind
    · have hc : ¬ a.Collides k := by
        simp [Collides, Ne.symm hm, Ne.symm hk]
      rw [if_neg hm] at hmetadata
      rw [if_neg hk] at hsection
      rw [if_neg hc]
      grind

/-! ## What is lost -/

/-- **The document is silent on the options exactly in a collision.** -/
theorem losesOptions_iff : a.LosesOptions k ↔ a.Collides k := by
  constructor
  · intro h
    by_contra hn
    -- two choices of options that do not have the same document
    have hempty := h .empty
    have hone := h (.single "" (.scalar .null))
    rw [document_eq] at hempty hone
    have hsame := Json.object.inj (hempty.trans hone.symm)
    have hfirst := get?_entries_options (k := k) (a := { a with body := .empty }) hn
    have hsecond := get?_entries_options (k := k)
      (a := { a with body := .single "" (.scalar .null) }) hn
    rw [hsame] at hfirst
    cases hfirst.symm.trans hsecond
  · intro h body
    rw [document_eq, document_eq]
    refine congrArg Json.object (KeyMap.ext_get? fun key => ?_)
    rw [get?_entries_of_collision h]
    exact get?_entries_of_collision (a := { a with body := body }) h key

/-- **The options are lost if another part stands under the wire type, and nothing else ever is.**
    The document of an aggregation of any wire type has the metadata, if there are any, and the
    section of all children, if there are any, under their keys.  Without a collision it has the
    options under the wire type as well, and as many entries as there are parts; in a collision it
    has one entry less and nothing but metadata and section, and then it does not depend on the
    options. -/
theorem document_of_collision (k : SectionKey) (a : Aggregation) :
    ∃ entries : KeyMap Json none, a.document k = .object entries ∧
      (∀ v, a.metadata = some v → entries.get? "meta" = some v) ∧
      (a.children.isEmpty = false → ∃ named : KeyMap Json none,
        entries.get? k.word = some (.object named) ∧
        ∀ name, named.get? name = (a.child? name).map (document k)) ∧
      (¬ a.Collides k →
        entries.size = a.partCount ∧
        entries.get? a.wireType = some (.object (OptionValue.documents k a.body))) ∧
      (a.Collides k →
        entries.size + 1 = a.partCount ∧
        ∀ key, entries.get? key =
          if key = k.word ∧ a.children.isEmpty = false then
            some (.object (documents k a.children))
          else if key = "meta" then a.metadata
          else none) ∧
      (a.LosesOptions k ↔ a.Collides k) := by
  refine ⟨a.entries k, a.document_eq k, fun v => get?_entries_metadata, fun hc => ?_, fun h => ?_,
    fun h => ?_, losesOptions_iff⟩
  · exact ⟨_, get?_entries_section hc, fun name => get?_aggregationDocuments k a.children name⟩
  · have hsize := size_entries k a
    rw [if_neg h] at hsize
    exact ⟨hsize, get?_entries_options h⟩
  · have hsize := size_entries k a
    rw [if_pos h] at hsize
    exact ⟨hsize, get?_entries_of_collision h⟩

/-- Under one spelling of the section key all is there, under the other one the options are lost. -/
example :
    let child : Aggregation := ⟨"total", "sum", .empty, none, .empty⟩
    let a : Aggregation := ⟨"sales", "aggs", .empty, none, .single "total" child⟩
    a.Collides .aggs ∧ ¬ a.Collides .aggregations := by
  decide

end Aggregation

end SearchBody
