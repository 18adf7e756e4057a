/-
  Search bodies — paths into documents and into option values.

  A path is a list of steps into keys and items.  What an option value holds behind lists
  and maps stands at the same path of its document.

  * `Json.at?` follows a path into a document.
  * `OptionValue.Holds`: what an option value holds at a place, behind lists and maps alone.
  * `at?_document_of_holds`: what is held at a place has its document there.
  * `OptionValue.Contains`: the nodes that an option value holds, wherever they stand.
  * `Hereditary`: properties of nodes and of option values that pass from the parts of a tree
    to the tree; they hold of all trees (`node_all`, `value_all`).
-/
import SearchBody.Document

set_option autoImplicit false

namespace SearchBody

/-! ## Paths -/

/-- A step into a document: to the value under a key, or to an item of a list. -/
inductive Step where
  | key (name : String)
  | item (index : Nat)
deriving DecidableEq

/-- A way into a document. -/
abbrev Path := List Step

namespace Json

/-- The value one step into a document. -/
def step? : Json → Step → Option Json
  | .object entries, .key name => entries.get? name
  | .array items, .item index => items[index]?
  | _, _ => none

/-- The value at the end of a path. -/
def at? : Json → Path → Option Json
  | j, [] => some j
  | j, s :: p => (j.step? s).bind fun v => at? v p

@[simp] theorem at?_nil (j : Json) : j.at? [] = some j := by
  cases j <;> rfl

theorem at?_cons (j : Json) (s : Step) (p : Path) :
    j.at? (s :: p) = (j.step? s).bind fun v => v.at? p := by
  cases j <;> rfl

@[simp] theorem at?_key (m : KeyMap Json none) (name : String) (p : Path) :
    (Json.object m).at? (.key name :: p) = (m.get? name).bind fun v => v.at? p := rfl

@[simp] theorem at?_item (vs : List Json) (i : Nat) (p : Path) :
    (Json.array vs).at? (.item i :: p) = vs[i]?.bind fun v => v.at? p := rfl

theorem at?_append (j : Json) (p q : Path) :
    j.at? (p ++ q) = (j.at? p).bind fun v => v.at? q := by
  induction p generalizing j with
  | nil => simp
  | cons s p ih =>
    rw [List.cons_append, at?_cons, at?_cons]
    cases j.step? s with
    | none => rfl
    | some v => exact ih v

end Json

/-! ## Looking up documents -/

section
variable (k : SectionKey)

@[simp] theorem get?_optionDocuments {lo : Option String} (m : KeyMap OptionValue lo)
    (key : String) :
    (OptionValue.documents k m).get? key = (m.get? key).map (OptionValue.document k) := by
  rw [OptionValue.documents_eq, KeyMap.get?_map]

@[simp] theorem get?_aggregationDocuments {lo : Option String} (m : KeyMap Aggregation lo)
    (name : String) :
    (Aggregation.documents k m).get? name = (m.get? name).map (Aggregation.document k) := by
  rw [Aggregation.documents_eq, KeyMap.get?_map]

/-! ## What option values hold -/

/-- `v` holds `w` at a place: `v` itself, or in an item of a list or an entry of a map. -/
inductive OptionValue.Holds : OptionValue → Path → OptionValue → Prop
  | self {v} : Holds v [] v
  | item {vs i v p w} : vs[i]? = some v → Holds v p w → Holds (.list vs) (.item i :: p) w
  | entry {m key v p w} : m.get? key = some v → Holds v p w → Holds (.map m) (.key key :: p) w

/-- **What is held at a place has its document there.** -/
theorem at?_document_of_holds {v w : OptionValue} {p : Path} (h : v.Holds p w) :
    (v.document k).at? p = some (w.document k) := by
  induction h with
  | self => exact Json.at?_nil _
  | item hi _ ih =>
    rw [OptionValue.document, OptionValue.documentList_eq, Json.at?_item, List.getElem?_map, hi]
    exact ih
  | entry he _ ih =>
    rw [OptionValue.document, Json.at?_key, get?_optionDocuments, he]
    exact ih

end

@[simp] theorem holds_node {n : Node} {p : Path} {w : OptionValue} :
    (OptionValue.node n).Holds p w ↔ p = [] ∧ w = .node n := by
  constructor
  · rintro ⟨⟩
    exact ⟨rfl, rfl⟩
  · rintro ⟨rfl, rfl⟩
    exact .self

theorem OptionValue.Holds.ne_nil {v w : OptionValue} {p : Path} (h : v.Holds p w) (hvw : v ≠ w) :
    p ≠ [] := by
  rintro rfl
  cases h
  exact hvw rfl

/-- The node `n` stands in an option value, behind lists and maps alone. -/
def OptionValue.Contains (v : OptionValue) (n : Node) : Prop := ∃ p, v.Holds p (.node n)

namespace OptionValue

@[simp] theorem contains_scalar (v : Json) (n : Node) : ¬ (scalar v).Contains n := by
  rintro ⟨p, h⟩
  cases h

@[simp] theorem contains_node (m n : Node) : (node m).Contains n ↔ n = m := by
  constructor
  · rintro ⟨p, h⟩
    cases h
    rfl
  · rintro rfl
    exact ⟨[], .self⟩

@[simp] theorem contains_list (vs : List OptionValue) (n : Node) :
    (list vs).Contains n ↔ ∃ v ∈ vs, v.Contains n := by
  constructor
  · rintro ⟨p, h⟩
    cases h with
    | item hi hv => exact ⟨_, List.mem_of_getElem? hi, _, hv⟩
  · rintro ⟨v, hv, p, h⟩
    obtain ⟨i, hi⟩ := List.mem_iff_getElem?.1 hv
    exact ⟨_, .item hi h⟩

@[simp] theorem contains_map (m : Body) (n : Node) :
    (map m).Contains n ↔ ∃ key v, m.get? key = some v ∧ v.Contains n := by
  constructor
  · rintro ⟨p, h⟩
    cases h with
    | entry he hv => exact ⟨_, _, he, _, hv⟩
  · rintro ⟨key, v, he, p, h⟩
    exact ⟨_, .entry he h⟩

end OptionValue

/-! ## Induction over trees -/

/-- The properties `P` and `Q` pass from the parts of a tree to the tree. -/
structure Hereditary (P : Node → Prop) (Q : OptionValue → Prop) : Prop where
  query (q : Query) : Q (.map q.body) → P (.query q)
  aggregation (a : Aggregation) : Q (.map a.body) →
    (∀ name c, a.children.get? name = some c → P (.aggregation c)) → P (.aggregation a)
  script (s : Script) : Q (.map s.body) → P (.script s)
  scalar (v : Json) : Q (.scalar v)
  node (n : Node) : P n → Q (.node n)
  list (vs : List OptionValue) : (∀ v ∈ vs, Q v) → Q (.list vs)
  map (m : Body) : (∀ key v, m.get? key = some v → Q v) → Q (.map m)

namespace Hereditary

variable {P : Node → Prop} {Q : OptionValue → Prop}

mutual

theorem node_all (h : Hereditary P Q) : (n : Node) → P n
  | .query ⟨w, f, body⟩ => h.query ⟨w, f, body⟩ (h.map body (h.entry_all body))
  | .aggregation a => h.aggregation_all a
  | .script ⟨body⟩ => h.script ⟨body⟩ (h.map body (h.entry_all body))

theorem aggregation_all (h : Hereditary P Q) : (a : Aggregation) → P (.aggregation a)
  | ⟨name, w, body, metadata, children⟩ =>
    h.aggregation ⟨name, w, body, metadata, children⟩ (h.map body (h.entry_all body))
      (h.child_all children)

theorem value_all (h : Hereditary P Q) : (v : OptionValue) → Q v
  | .scalar v => h.scalar v
  | .node n => h.node n (h.node_all n)
  | .list vs => h.list vs (h.item_all vs)
  | .map m => h.map m (h.entry_all m)

theorem item_all (h : Hereditary P Q) : (vs : List OptionValue) → ∀ v ∈ vs, Q v
  | [], _, hw => by simp at hw
  | v :: vs, w, hw => by
    rcases List.mem_cons.1 hw with e | hw
    · exact e ▸ h.value_all v
    · exact h.item_all vs w hw

theorem entry_all (h : Hereditary P Q) : {lo : Option String} → (m : KeyMap OptionValue lo) →
    ∀ key v, m.get? key = some v → Q v
  | _, .nil, _, _, hw => by simp at hw
  | _, .cons key v _ rest, key', w, hw => by
    by_cases e : key' = key
    · have : v = w := by simpa [KeyMap.get?_cons, e] using hw
      exact this ▸ h.value_all v
    · exact h.entry_all rest key' w (by simpa [KeyMap.get?_cons, e] using hw)

theorem child_all (h : Hereditary P Q) : {lo : Option String} → (m : KeyMap Aggregation lo) →
    ∀ name c, m.get? name = some c → P (.aggregation c)
  | _, .nil, _, _, hc => by simp at hc
  | _, .cons key a _ rest, name, c, hc => by
    by_cases e : name = key
    · have : a = c := by simpa [KeyMap.get?_cons, e] using hc
      exact this ▸ h.aggregation_all a
    · exact h.child_all rest name c (by simpa [KeyMap.get?_cons, e] using hc)

end

end Hereditary

/-- Induction from the children of an aggregation to the aggregation. -/
theorem Aggregation.child_induction {P : Aggregation → Prop}
    (step : ∀ a : Aggregation, (∀ name c, a.child? name = some c → P c) → P a)
    (a : Aggregation) : P a := by
  let Q : Node → Prop := fun n => ∀ a, n = .aggregation a → P a
  have hQ : Hereditary Q fun _ => True :=
    { query := fun q _ a e => by cases e
      aggregation := fun a _ ih b e => by
        cases e
        exact step a fun name c hc => ih name c hc c rfl
      script := fun s _ a e => by cases e
      scalar := fun _ => trivial
      node := fun _ _ => trivial
      list := fun _ _ => trivial
      map := fun _ _ => trivial }
  exact hQ.node_all (.aggregation a) a rfl

end SearchBody
