/-
  Search bodies — documents mirror trees.

  Walking a document by section keys and names is walking the tree by names, and what is
  walked to is the document of what the names lead to.

  * `SectionKey.descent`: the way into a document along a list of names.
  * `at?_descent`: the walk from an aggregation, and the one from a request.
  * `document_mirrors`: both, and the documents of nodes among the options.
-/
import SearchBody.Proofs.Reachable

set_option autoImplicit false

namespace SearchBody

/-- The way into a document along names, each in the section of the one before. -/
def SectionKey.descent (k : SectionKey) : List String → Path
  | [] => []
  | name :: names => .key k.word :: .key name :: k.descent names

variable {k : SectionKey}

theorem Aggregation.at?_descent {a : Aggregation} (h : a.Known) (names : List String) :
    (a.document k).at? (k.descent names) = (a.descendant? names).map (Aggregation.document k) := by
  induction names generalizing a with
  | nil => exact Json.at?_nil _
  | cons name names ih =>
    have hs : (a.document k).at? (k.descent (name :: names)) =
        (a.child? name).bind fun c => (c.document k).at? (k.descent names) :=
      Tree.at?_section (t := .node (.aggregation a)) h.wireType trivial name _
    rw [hs, descendant?]
    cases hc : a.child? name with
    | none => rfl
    | some c => exact ih (h.child hc)

theorem SearchRequest.at?_descent {r : SearchRequest} (hr : r.Assembled)
    (h : ∀ name c, r.aggregations.get? name = some c → c.Known) (name : String)
    (names : List String) :
    (r.document k).at? (k.descent (name :: names)) =
      ((r.aggregations.get? name).bind fun c => c.descendant? names).map
        (Aggregation.document k) := by
  have hs : (r.document k).at? (k.descent (name :: names)) =
      (r.aggregations.get? name).bind fun c => (c.document k).at? (k.descent names) :=
    Tree.at?_section (t := .request r) hr trivial name _
  rw [hs]
  cases hc : r.aggregations.get? name with
  | none => rfl
  | some c => exact Aggregation.at?_descent (h name c hc) names

/-- A node among the options has its document at its place. -/
theorem Tree.at?_node {t : Tree} (h : t.Regular) {p : Path} {n : Node}
    (hn : (OptionValue.map t.body).Holds p (.node n)) :
    (t.document k).at? (t.optionsPath ++ p) = some (n.document k) :=
  at?_held h hn (hn.ne_nil nofun)

/-- **Documents mirror trees.**  By section keys and names, the document of an aggregation or
    of a request leads to the document of the descendant of those names, and nowhere if there is
    none; a node among the options of any tree has its own document at its place there: a script
    its options, a query its options under wire type and field. -/
theorem document_mirrors (k : SectionKey) :
    (∀ (a : Aggregation) names, a.Known →
      (a.document k).at? (k.descent names) =
        (a.descendant? names).map (Aggregation.document k)) ∧
    (∀ (r : SearchRequest) name names, r.Assembled →
      (∀ name c, r.aggregations.get? name = some c → c.Known) →
      (r.document k).at? (k.descent (name :: names)) =
        ((r.aggregations.get? name).bind fun c => c.descendant? names).map
          (Aggregation.document k)) ∧
    (∀ (t : Tree) p n, t.Regular → (OptionValue.map t.body).Holds p (.node n) →
      (t.document k).at? (t.optionsPath ++ p) = some (n.document k)) ∧
    (∀ body, Node.document k (.script ⟨body⟩) = .object (OptionValue.documents k body)) ∧
    (∀ w body, Node.document k (.query ⟨w, none, body⟩) =
      .object (.single w (.object (OptionValue.documents k body)))) ∧
    ∀ w f body, Node.document k (.query ⟨w, some f, body⟩) =
      .object (.single w (.object (.single f (.object (OptionValue.documents k body))))) :=
  ⟨fun _ names h => Aggregation.at?_descent h names,
    fun _ name names hr h => SearchRequest.at?_descent hr h name names,
    fun _ _ _ h hn => Tree.at?_node h hn, fun _ => rfl, fun _ _ => rfl, fun _ _ _ => rfl⟩

theorem document_mirrors_salesByMonth :
    SearchRequest.salesByMonth.Assembled ∧
      (∀ name c, SearchRequest.salesByMonth.aggregations.get? name = some c → c.Known) ∧
      (SearchRequest.salesByMonth.document .aggs).at?
          [.key "aggs", .key "sales", .key "aggs", .key "aggs"] =
        some ((NewAggregation.onField .sum "aggs" "price").aggregation.document .aggs) := by
  have hr := SearchRequest.reachable_salesByMonth.assembled
  have hk : ∀ name c, SearchRequest.salesByMonth.aggregations.get? name = some c → c.Known :=
    fun _ _ hc => (SearchRequest.regularThroughout_salesByMonth.child hc).known
  exact ⟨hr, hk, (document_mirrors .aggs).2.1 _ "sales" ["aggs"] hr hk⟩

end SearchBody
