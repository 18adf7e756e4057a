/-
  Search bodies — trees and their parts.

  A node or a request is a tree: it has a body of options, may have named aggregations, and
  has a document.  Each part of the tree has a place in the document.

  * `Tree.body`, `Tree.named`, `Tree.document`: what nodes and requests have in common, with
    `Tree.optionsPath`, the place that the options stand at.
  * `Tree.Regular`: the wire type of an aggregation is one of the known ones, a request comes
    from calls.  Then options, metadata and section do not get into each other's way:
    `exists_entries`, `at?_option`, `at?_named`.
  * `Tree.At`: a part of a tree, at any depth, with its place in the document
    (`at?_document_of_at`).
  * `Tree.RegularThroughout`, `Aggregation.Known`: known wire types at every depth, and at every
    depth of the children.
-/
import SearchBody.Proofs.Call

set_option autoImplicit false

namespace SearchBody

/-! ## Known wire types -/

/-- The wire type of a known aggregation. -/
def IsLeafType (w : String) : Prop := ∃ kind : AggregationKind, kind.wireType = w

theorem IsLeafType.ne_meta {w : String} (h : IsLeafType w) : w ≠ "meta" := by
  obtain ⟨kind, rfl⟩ := h
  cases kind <;> decide

theorem IsLeafType.ne_word {w : String} (h : IsLeafType w) (k : SectionKey) : w ≠ k.word := by
  obtain ⟨kind, rfl⟩ := h
  cases kind <;> cases k <;> decide

theorem SectionKey.word_ne_meta (k : SectionKey) : k.word ≠ "meta" := by
  cases k <;> decide

/-! ## Requests that come from calls -/

/-- The request comes from calls on the empty one. -/
def SearchRequest.Assembled (r : SearchRequest) : Prop :=
  ∃ calls : List RequestCall, (Run.ofCalls RequestCall.run calls .empty).state = r

theorem SearchRequest.Assembled.run {r : SearchRequest} (h : r.Assembled) (c : RequestCall) :
    SearchRequest.Assembled (c.run r).state := by
  obtain ⟨calls, rfl⟩ := h
  exact ⟨calls ++ [c], Run.state_ofCalls_concat ..⟩

/-- **The options of an assembled request are those of requests.** -/
theorem SearchRequest.Assembled.mem_optionKeys {r : SearchRequest} (h : r.Assembled) {key : String}
    {v : OptionValue} (hv : r.body.get? key = some v) : key ∈ optionKeys := by
  obtain ⟨calls, rfl⟩ := h
  refine Run.ofCalls_induction RequestCall.run
    (I := fun r => ∀ key v, r.body.get? key = some v → key ∈ optionKeys)
    (fun c _ r hr key v hv => ?_) (by simp [SearchRequest.empty]) key v hv
  rcases c.run_cases r with e | ⟨w, e, hw, -⟩ | ⟨m, e, -⟩
  · exact hr key v (by rwa [e] at hv)
  · rw [e, write, SlotWrite.get?_apply] at hv
    split at hv
    · next e => exact e ▸ hw
    · exact hr key v hv
  · exact hr key v (by rwa [e] at hv)

theorem SearchRequest.Assembled.get?_word {r : SearchRequest} (h : r.Assembled) (k : SectionKey) :
    r.body.get? k.word = none := by
  cases hv : r.body.get? k.word with
  | none => rfl
  | some v =>
    have := h.mem_optionKeys hv
    cases k <;> simp [SectionKey.word, optionKeys] at this

/-! ## Trees -/

/-- A tree that has a document: a node, or a request. -/
inductive Tree where
  | node (n : Node)
  | request (r : SearchRequest)

namespace Tree

/-- The options. -/
def body : Tree → Body
  | node (.query q) => q.body
  | node (.aggregation a) => a.body
  | node (.script s) => s.body
  | request r => r.body

/-- The aggregations directly below, each under its name. -/
def named : Tree → Aggregations
  | node (.aggregation a) => a.children
  | request r => r.aggregations
  | node _ => .empty

/-- The place of the options: under the wire type, and under the field if there is one; those
    of a script or of a request are not under anything. -/
def optionsPath : Tree → Path
  | node (.query q) => .key q.wireType :: (q.field.map Step.key).toList
  | node (.aggregation a) => [.key a.wireType]
  | node (.script _) | request _ => []

/-- The document, by the kind of tree. -/
def document (k : SectionKey) : Tree → Json
  | node n => n.document k
  | request r => r.document k

/-- The wire type of an aggregation is known; a request comes from calls. -/
def Regular : Tree → Prop
  | node (.aggregation a) => IsLeafType a.wireType
  | node _ => True
  | request r => r.Assembled

/-- Aggregations and requests nest other aggregations. -/
def Nests : Tree → Prop
  | node (.aggregation _) | request _ => True
  | node _ => False

theorem nests_of_get? {t : Tree} {name : String} {c : Aggregation}
    (hc : t.named.get? name = some c) : t.Nests := by
  match t with
  | node (.aggregation _) | request _ => trivial
  | node (.query _) | node (.script _) => cases hc

theorem nests_of_isEmpty {t : Tree} (h : t.named.isEmpty = false) : t.Nests := by
  match t with
  | node (.aggregation _) | request _ => trivial
  | node (.query _) | node (.script _) => cases h

end Tree

/-! ## Documents of aggregations and requests -/

theorem get?_withMetadata (metadata : Option Json) (m : KeyMap Json none) (key : String) :
    (withMetadata metadata m).get? key =
      if key = "meta" then metadata.or (m.get? key) else m.get? key := by
  cases metadata with
  | none => simp [withMetadata]
  | some v =>
    rw [withMetadata, KeyMap.get?_insert]
    split <;> rfl

section
variable (k : SectionKey)

theorem get?_withSection (named m : KeyMap Json none) (key : String) :
    (withSection k named m).get? key =
      if key = k.word ∧ named.isEmpty = false then some (.object named) else m.get? key := by
  unfold withSection
  cases named.isEmpty with
  | false => simp
  | true => simp

@[simp] theorem isEmpty_aggregationDocuments {lo : Option String} (m : KeyMap Aggregation lo) :
    (Aggregation.documents k m).isEmpty = m.isEmpty := by
  cases m <;> rfl

/-- The entries of the document of an aggregation. -/
def Aggregation.entries (a : Aggregation) : KeyMap Json none :=
  withSection k (Aggregation.documents k a.children)
    (withMetadata a.metadata (.single a.wireType (.object (OptionValue.documents k a.body))))

theorem Aggregation.document_eq (a : Aggregation) : a.document k = .object (a.entries k) := by
  cases a
  rfl

/-- The entries of the document of a request. -/
def SearchRequest.entries (r : SearchRequest) : KeyMap Json none :=
  withSection k (Aggregation.documents k r.aggregations) (OptionValue.documents k r.body)

theorem SearchRequest.document_eq (r : SearchRequest) : r.document k = .object (r.entries k) := rfl

/-- **What an aggregation of a known wire type has in its document**: the options, the metadata
    and the section, each under its key, and nothing else. -/
theorem Aggregation.get?_entries {a : Aggregation} (h : IsLeafType a.wireType) (key : String) :
    (a.entries k).get? key =
      if key = k.word then
        if a.children.isEmpty then none else some (.object (Aggregation.documents k a.children))
      else if key = "meta" then a.metadata
      else if key = a.wireType then some (.object (OptionValue.documents k a.body))
      else none := by
  rw [entries, get?_withSection, get?_withMetadata, KeyMap.get?_single,
    isEmpty_aggregationDocuments]
  by_cases hk : key = k.word
  · subst hk
    simp only [true_and, if_neg k.word_ne_meta, if_neg (h.ne_word k).symm]
    cases a.children.isEmpty <;> rfl
  · simp only [hk, false_and, if_false]
    by_cases hm : key = "meta"
    · subst hm
      simp only [if_neg h.ne_meta.symm, Option.or_none]
    · simp only [if_neg hm]

/-- **What an assembled request has in its document**: its options and the section, and nothing
    else. -/
theorem SearchRequest.get?_entries {r : SearchRequest} (h : r.Assembled) (key : String) :
    (r.entries k).get? key =
      if key = k.word then
        if r.aggregations.isEmpty then none
        else some (.object (Aggregation.documents k r.aggregations))
      else (r.body.get? key).map (OptionValue.document k) := by
  rw [entries, get?_withSection, isEmpty_aggregationDocuments, get?_optionDocuments]
  by_cases hk : key = k.word
  · subst hk
    rw [h.get?_word k]
    cases r.aggregations.isEmpty <;> simp
  · rw [if_neg (fun e => hk e.1), if_neg hk]

/-! ## Documents of trees -/

namespace Tree

variable {k}

/-- The document of a tree that nests is an object with the section under the spelling in use
    and nothing under the other one. -/
theorem exists_entries {t : Tree} (h : t.Regular) (hn : t.Nests) :
    ∃ m, t.document k = .object m ∧ m.get? k.word =
      (if t.named.isEmpty then none else some (.object (Aggregation.documents k t.named))) ∧
      ∀ k' : SectionKey, k'.word ≠ k.word → m.get? k'.word = none := by
  match t with
  | node (.aggregation a) =>
    refine ⟨_, a.document_eq k, ?_, fun k' hk => ?_⟩
    · rw [Aggregation.get?_entries k h, if_pos rfl]
      rfl
    · rw [Aggregation.get?_entries k h, if_neg hk, if_neg k'.word_ne_meta,
        if_neg (IsLeafType.ne_word h k').symm]
  | request r =>
    refine ⟨_, r.document_eq k, ?_, fun k' hk => ?_⟩
    · rw [SearchRequest.get?_entries k h, if_pos rfl]
      rfl
    · rw [SearchRequest.get?_entries k h, if_neg hk, SearchRequest.Assembled.get?_word h]
      rfl

theorem at?_options {n : Node} (h : (node n).Regular) :
    ((node n).document k).at? (node n).optionsPath =
      some (.object (OptionValue.documents k (node n).body)) := by
  match n with
  | .query ⟨w, none, body⟩ =>
    show (Json.object (.single w (.object (OptionValue.documents k body)))).at? [.key w] =
      some (.object (OptionValue.documents k body))
    simp
  | .query ⟨w, some f, body⟩ =>
    show (Json.object (.single w (.object (.single f (.object
      (OptionValue.documents k body)))))).at? [.key w, .key f] =
        some (.object (OptionValue.documents k body))
    simp
  | .script ⟨body⟩ => exact Json.at?_nil _
  | .aggregation a =>
    show (a.document k).at? [.key a.wireType] = _
    rw [Aggregation.document_eq, Json.at?_key, Aggregation.get?_entries k h,
      if_neg (IsLeafType.ne_word h k), if_neg (IsLeafType.ne_meta h), if_pos rfl]
    exact Json.at?_nil _

/-- **The options of a regular tree stand at its place for options.** -/
theorem at?_option {t : Tree} (h : t.Regular) {key : String} {v : OptionValue}
    (hv : t.body.get? key = some v) (p : Path) :
    (t.document k).at? (t.optionsPath ++ .key key :: p) = (v.document k).at? p := by
  match t with
  | node n =>
    rw [Json.at?_append, at?_options h]
    simp [hv]
  | request r =>
    have hk : key ≠ k.word := by
      rintro rfl
      cases (SearchRequest.Assembled.get?_word h k).symm.trans hv
    show (r.document k).at? (.key key :: p) = _
    rw [SearchRequest.document_eq, Json.at?_key, SearchRequest.get?_entries k h, if_neg hk,
      show r.body.get? key = some v from hv]
    rfl

theorem at?_held {t : Tree} (h : t.Regular) {p : Path} {w : OptionValue}
    (hw : (OptionValue.map t.body).Holds p w) (hp : p ≠ []) :
    (t.document k).at? (t.optionsPath ++ p) = some (w.document k) := by
  cases hw with
  | self => exact absurd rfl hp
  | entry hv hw =>
    rw [at?_option h hv]
    exact at?_document_of_holds k hw

/-- **What stands under a name in the section** of a regular tree is the document of the
    aggregation of that name. -/
theorem at?_section {t : Tree} (h : t.Regular) (hn : t.Nests) (name : String) (p : Path) :
    (t.document k).at? (.key k.word :: .key name :: p) =
      (t.named.get? name).bind fun c => (c.document k).at? p := by
  obtain ⟨m, hm, hs, -⟩ := exists_entries (k := k) h hn
  rw [hm, Json.at?_key, hs]
  cases he : t.named.isEmpty with
  | true =>
    rw [KeyMap.isEmpty_iff.1 he]
    rfl
  | false =>
    cases hc : t.named.get? name <;> simp [hc]

theorem at?_named {t : Tree} (h : t.Regular) {name : String} {c : Aggregation}
    (hc : t.named.get? name = some c) (p : Path) :
    (t.document k).at? (.key k.word :: .key name :: p) = (c.document k).at? p := by
  rw [at?_section h (nests_of_get? hc), hc, Option.bind_some]

end Tree

end

namespace Tree

/-- No option of a regular tree stands under a section key. -/
theorem optionsPath_ne_word {t : Tree} (h : t.Regular) (hn : t.Nests) {p : Path}
    {w : OptionValue} (hw : (OptionValue.map t.body).Holds p w) (hp : p ≠ []) (k : SectionKey)
    (q r : Path) : t.optionsPath ++ (p ++ q) ≠ .key k.word :: r := by
  intro e
  match t with
  | node (.aggregation a) =>
    simp only [optionsPath, List.cons_append, List.nil_append, List.cons.injEq,
      Step.key.injEq] at e
    exact IsLeafType.ne_word h k e.1
  | request r =>
    cases hw with
    | self => exact hp rfl
    | entry hv _ =>
      simp only [optionsPath, List.nil_append, List.cons_append, List.cons.injEq,
        Step.key.injEq] at e
      rw [e.1] at hv
      cases (SearchRequest.Assembled.get?_word h k).symm.trans hv

end Tree

/-! ## Parts of a tree -/

/-- A part of a tree that has a place in the document. -/
inductive Part where
  | node (n : Node)
  /-- the options of a node, or a map among the options -/
  | options (m : Body)
  /-- a JSON value that is given as it stands: a scalar option, or metadata -/
  | datum (v : Json)
  /-- the named aggregations, if there are any -/
  | named (m : Aggregations)

/-- The tree has the part `x` at a place of its document, under a section key. -/
inductive Tree.At (k : SectionKey) : Tree → Path → Part → Prop
  | self {n} : At k (.node n) [] (.node n)
  | options {n} : At k (.node n) (Tree.node n).optionsPath (.options (Tree.node n).body)
  | map {t p m} : (OptionValue.map t.body).Holds p (.map m) → p ≠ [] →
      At k t (t.optionsPath ++ p) (.options m)
  | scalar {t p v} : (OptionValue.map t.body).Holds p (.scalar v) →
      At k t (t.optionsPath ++ p) (.datum v)
  | metadata {a v} : a.metadata = some v → At k (.node (.aggregation a)) [.key "meta"] (.datum v)
  | named {t} : t.named.isEmpty = false → At k t [.key k.word] (.named t.named)
  | inner {t p n q x} : (OptionValue.map t.body).Holds p (.node n) → At k (.node n) q x →
      At k t (t.optionsPath ++ (p ++ q)) x
  | child {t name c p x} : t.named.get? name = some c → At k (.node (.aggregation c)) p x →
      At k t (.key k.word :: .key name :: p) x

/-- The document of a part. -/
def Part.document (k : SectionKey) : Part → Json
  | node n => n.document k
  | options m => .object (OptionValue.documents k m)
  | datum v => v
  | named m => .object (Aggregation.documents k m)

/-- Every aggregation in the tree, at any depth, has a known wire type; a request comes from
    calls. -/
structure Tree.RegularThroughout (t : Tree) : Prop where
  regular : t.Regular
  wireType {k p a} : t.At k p (.node (.aggregation a)) → IsLeafType a.wireType

namespace Tree.RegularThroughout

variable {t : Tree} (h : t.RegularThroughout)
include h

theorem inner {p : Path} {n : Node} (hn : (OptionValue.map t.body).Holds p (.node n)) :
    (Tree.node n).RegularThroughout where
  regular := by
    match n with
    | .query _ | .script _ => trivial
    | .aggregation a => exact h.wireType (k := .aggs) (.inner hn .self)
  wireType ha := h.wireType (.inner hn ha)

theorem child {name : String} {c : Aggregation} (hc : t.named.get? name = some c) :
    (Tree.node (.aggregation c)).RegularThroughout where
  regular := h.wireType (k := .aggs) (.child hc .self)
  wireType ha := h.wireType (.child hc ha)

end Tree.RegularThroughout

/-- **Every part has its document at its place**, in the document of the whole tree. -/
theorem Tree.at?_document_of_at {k : SectionKey} {t : Tree} (h : t.RegularThroughout) {p : Path}
    {x : Part} (hx : t.At k p x) : (t.document k).at? p = some (x.document k) := by
  induction hx with
  | self => exact Json.at?_nil _
  | options => exact at?_options h.regular
  | map hm hp => exact at?_held h.regular hm hp
  | scalar hv => exact at?_held h.regular hv (hv.ne_nil nofun)
  | @metadata a v hv =>
    show (a.document k).at? _ = _
    rw [Aggregation.document_eq, Json.at?_key, Aggregation.get?_entries k h.regular,
      if_neg k.word_ne_meta.symm, if_pos rfl, hv]
    exact Json.at?_nil _
  | named he =>
    obtain ⟨m, hm, hs, -⟩ := exists_entries (k := k) h.regular (nests_of_isEmpty he)
    rw [hm, Json.at?_key, hs, he]
    exact Json.at?_nil _
  | inner hn _ ih =>
    rw [← List.append_assoc, Json.at?_append, at?_held h.regular hn (hn.ne_nil nofun)]
    exact ih (h.inner hn)
  | child hc _ ih =>
    rw [at?_named h.regular hc]
    exact ih (h.child hc)

/-! ## Descendants -/

namespace Aggregation

/-- The aggregation that a list of names leads to, from child to child. -/
def descendant? : Aggregation → List String → Option Aggregation
  | a, [] => some a
  | a, name :: names => (a.child? name).bind fun c => c.descendant? names

/-- The aggregation and all its descendants have known wire types. -/
def Known (a : Aggregation) : Prop :=
  ∀ names c, a.descendant? names = some c → IsLeafType c.wireType

theorem Known.wireType {a : Aggregation} (h : a.Known) : IsLeafType a.wireType := h [] a rfl

theorem Known.child {a c : Aggregation} {name : String} (h : a.Known)
    (hc : a.child? name = some c) : c.Known := by
  intro names d hd
  refine h (name :: names) d ?_
  rw [descendant?, hc]
  exact hd

end Aggregation

theorem Tree.RegularThroughout.known {a : Aggregation}
    (h : (Tree.node (.aggregation a)).RegularThroughout) : a.Known := by
  intro names c hc
  induction names generalizing a with
  | nil =>
    cases hc
    exact h.regular
  | cons name names ih =>
    obtain ⟨b, hb, hc⟩ := Option.bind_eq_some_iff.1 hc
    exact ih (h.child hb) hc

end SearchBody
