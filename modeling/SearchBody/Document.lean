/-
  Search bodies — from trees to documents.

  The document of a node is a JSON value:

  * a query has its options under its wire type, and under its field if it has one;
  * an aggregation has its options under its wire type, its metadata under `meta`, and the
    documents of its children, if there are any, under the section key;
  * a script is the object of its options.

  Entries of an aggregation are written in this order, so the section and the metadata win
  over options under a wire type of the same name.

  `serialize` walks a tree, building the document and recording an event for each query
  and aggregation it comes to; `document` is the same value without the events
  (`Node.value_serialize` and its companions).  `Serializable` is the class of what can be
  walked.
-/
import SearchBody.Request

set_option autoImplicit false

namespace SearchBody

/-- The two spellings of the key that sub-aggregations stand under. -/
inductive SectionKey where
  | aggs
  | aggregations
deriving DecidableEq

/-- The key as it is written. -/
def SectionKey.word : SectionKey → String
  | .aggs => "aggs"
  | .aggregations => "aggregations"

/-! ## Parts of a document -/

/-- The entries of a document with metadata added. -/
def withMetadata (metadata : Option Json) (entries : KeyMap Json none) : KeyMap Json none :=
  match metadata with
  | none => entries
  | some v => entries.insert "meta" v

/-- The entries of a document with a section of named documents added, unless that is
    empty. -/
def withSection (k : SectionKey) (named : KeyMap Json none) (entries : KeyMap Json none) :
    KeyMap Json none :=
  if named.isEmpty then entries else entries.insert k.word (.object named)

/-- The document of a query with given options. -/
def queryDocument (wireType : String) (field : Option String) (options : KeyMap Json none) :
    Json :=
  match field with
  | none => .object (.single wireType (.object options))
  | some f => .object (.single wireType (.object (.single f (.object options))))

/-- The document of an aggregation with given options and sub-documents. -/
def aggregationDocument (k : SectionKey) (wireType : String) (options : KeyMap Json none)
    (metadata : Option Json) (named : KeyMap Json none) : Json :=
  .object (withSection k named (withMetadata metadata (.single wireType (.object options))))

/-! ## Documents -/

section
variable (k : SectionKey)

mutual

/-- The document of a node, by its family. -/
def Node.document : Node → Json
  | .query q => q.document
  | .aggregation a => a.document
  | .script s => s.document

/-- The document of a query: its options under its wire type. -/
def Query.document : Query → Json
  | ⟨wireType, field, body⟩ => queryDocument wireType field (OptionValue.documents body)

/-- The document of an aggregation: options, metadata and section. -/
def Aggregation.document : Aggregation → Json
  | ⟨_, wireType, body, metadata, children⟩ =>
    aggregationDocument k wireType (OptionValue.documents body) metadata
      (Aggregation.documents children)

/-- The document of a script: its options alone. -/
def Script.document : Script → Json
  | ⟨body⟩ => .object (OptionValue.documents body)

/-- The document of an option value. -/
def OptionValue.document : OptionValue → Json
  | .scalar v => v
  | .node n => n.document
  | .list items => .array (OptionValue.documentList items)
  | .map entries => .object (OptionValue.documents entries)

/-- The documents of the items of a list. -/
def OptionValue.documentList : List OptionValue → List Json
  | [] => []
  | v :: vs => v.document :: OptionValue.documentList vs

/-- The documents of options, each under its key. -/
def OptionValue.documents : {lo : Option String} → KeyMap OptionValue lo → KeyMap Json lo
  | _, .nil => .nil
  | _, .cons key v h rest => .cons key v.document h (OptionValue.documents rest)

/-- The documents of aggregations, each under its key. -/
def Aggregation.documents : {lo : Option String} → KeyMap Aggregation lo → KeyMap Json lo
  | _, .nil => .nil
  | _, .cons key a h rest => .cons key a.document h (Aggregation.documents rest)

end

/-- The document of a request: its options, then the section of its aggregations. -/
def SearchRequest.document (r : SearchRequest) : Json :=
  .object (withSection k (Aggregation.documents k r.aggregations)
    (OptionValue.documents k r.body))

theorem OptionValue.documentList_eq (vs : List OptionValue) :
    OptionValue.documentList k vs = vs.map (OptionValue.document k) := by
  induction vs with
  | nil => rfl
  | cons v vs ih => simp [OptionValue.documentList, ih]

theorem OptionValue.documents_eq {lo : Option String} (m : KeyMap OptionValue lo) :
    OptionValue.documents k m = m.map (OptionValue.document k) := by
  induction m with
  | nil => rfl
  | cons key v h rest ih => simp [OptionValue.documents, KeyMap.map, ih]

theorem Aggregation.documents_eq {lo : Option String} (m : KeyMap Aggregation lo) :
    Aggregation.documents k m = m.map (Aggregation.document k) := by
  induction m with
  | nil => rfl
  | cons key a h rest ih => simp [Aggregation.documents, KeyMap.map, ih]

/-! ## The logged walk -/

mutual

/-- Walk a node. -/
def Node.serialize : Node → Logged Json
  | .query q => q.serialize
  | .aggregation a => a.serialize
  | .script s => s.serialize

/-- Walk a query: its own event, then its options. -/
def Query.serialize : Query → Logged Json
  | ⟨wireType, field, body⟩ => do
    .record (.serializingQuery wireType)
    return queryDocument wireType field (← OptionValue.serializeEntries body)

/-- Walk an aggregation: its own event, then its options, then its children. -/
def Aggregation.serialize : Aggregation → Logged Json
  | ⟨name, wireType, body, metadata, children⟩ => do
    .record (.serializingAggregation wireType name)
    let options ← OptionValue.serializeEntries body
    let named ← Aggregation.serializeEntries children
    return aggregationDocument k wireType options metadata named

/-- Walk a script, which has no event of its own. -/
def Script.serialize : Script → Logged Json
  | ⟨body⟩ => return .object (← OptionValue.serializeEntries body)

/-- Walk an option value. -/
def OptionValue.serialize : OptionValue → Logged Json
  | .scalar v => return v
  | .node n => n.serialize
  | .list items => return .array (← OptionValue.serializeList items)
  | .map entries => return .object (← OptionValue.serializeEntries entries)

/-- Walk the items of a list in order. -/
def OptionValue.serializeList : List OptionValue → Logged (List Json)
  | [] => return []
  | v :: vs => do
    let first ← v.serialize
    return first :: (← OptionValue.serializeList vs)

/-- Walk options in the order of their keys. -/
def OptionValue.serializeEntries :
    {lo : Option String} → KeyMap OptionValue lo → Logged (KeyMap Json lo)
  | _, .nil => return .nil
  | _, .cons key v h rest => do
    let first ← v.serialize
    return .cons key first h (← OptionValue.serializeEntries rest)

/-- Walk aggregations in the order of their keys. -/
def Aggregation.serializeEntries :
    {lo : Option String} → KeyMap Aggregation lo → Logged (KeyMap Json lo)
  | _, .nil => return .nil
  | _, .cons key a h rest => do
    let first ← a.serialize
    return .cons key first h (← Aggregation.serializeEntries rest)

end

/-- Walk a request: its options, then its aggregations. -/
def SearchRequest.serialize (r : SearchRequest) : Logged Json := do
  let options ← OptionValue.serializeEntries k r.body
  let named ← Aggregation.serializeEntries k r.aggregations
  return .object (withSection k named options)

end

/-- What has a document. -/
class Serializable (α : Type) where
  /-- Walk the tree of a value under a section key. -/
  serialize : SectionKey → α → Logged Json

instance : Serializable Node := ⟨Node.serialize⟩
instance : Serializable Query := ⟨Query.serialize⟩
instance : Serializable Aggregation := ⟨Aggregation.serialize⟩
instance : Serializable Script := ⟨Script.serialize⟩
instance : Serializable SearchRequest := ⟨SearchRequest.serialize⟩

/-! ## The walk builds the document -/

section
variable (k : SectionKey)

mutual

theorem Node.value_serialize : (n : Node) → (n.serialize k).value = n.document k
  | .query q => q.value_serialize
  | .aggregation a => a.value_serialize
  | .script s => s.value_serialize

theorem Query.value_serialize : (q : Query) → (q.serialize k).value = q.document k
  | ⟨_, _, body⟩ => by
    simp [Query.serialize, Query.document, OptionValue.value_serializeEntries body]

theorem Aggregation.value_serialize : (a : Aggregation) → (a.serialize k).value = a.document k
  | ⟨_, _, body, _, children⟩ => by
    simp [Aggregation.serialize, Aggregation.document,
      OptionValue.value_serializeEntries body, Aggregation.value_serializeEntries children]

theorem Script.value_serialize : (s : Script) → (s.serialize k).value = s.document k
  | ⟨body⟩ => by
    simp [Script.serialize, Script.document, OptionValue.value_serializeEntries body]

theorem OptionValue.value_serialize : (v : OptionValue) → (v.serialize k).value = v.document k
  | .scalar _ => rfl
  | .node n => n.value_serialize
  | .list items => by
    simp [OptionValue.serialize, OptionValue.document, OptionValue.value_serializeList items]
  | .map entries => by
    simp [OptionValue.serialize, OptionValue.document,
      OptionValue.value_serializeEntries entries]

theorem OptionValue.value_serializeList : (vs : List OptionValue) →
    (OptionValue.serializeList k vs).value = OptionValue.documentList k vs
  | [] => rfl
  | v :: vs => by
    simp [OptionValue.serializeList, OptionValue.documentList, v.value_serialize,
      OptionValue.value_serializeList vs]

theorem OptionValue.value_serializeEntries :
    {lo : Option String} → (m : KeyMap OptionValue lo) →
      (OptionValue.serializeEntries k m).value = OptionValue.documents k m
  | _, .nil => rfl
  | _, .cons _ v _ rest => by
    simp [OptionValue.serializeEntries, OptionValue.documents, v.value_serialize,
      OptionValue.value_serializeEntries rest]

theorem Aggregation.value_serializeEntries :
    {lo : Option String} → (m : KeyMap Aggregation lo) →
      (Aggregation.serializeEntries k m).value = Aggregation.documents k m
  | _, .nil => rfl
  | _, .cons _ a _ rest => by
    simp [Aggregation.serializeEntries, Aggregation.documents, a.value_serialize,
      Aggregation.value_serializeEntries rest]

end

theorem SearchRequest.value_serialize (r : SearchRequest) :
    (r.serialize k).value = r.document k := by
  simp [SearchRequest.serialize, SearchRequest.document, OptionValue.value_serializeEntries,
    Aggregation.value_serializeEntries]

end

end SearchBody
