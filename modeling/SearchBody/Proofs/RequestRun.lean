/-
  Search bodies — what a run of calls asks for.

  The document of a request can be read off the calls that made it.  An option has the value
  that was stored last, the order of hits has every clause in the order of the calls, and the
  section has the aggregations that were attached and have not been removed since.

  * `RequestCall.writes?`, `sortClause?` and `filings`: what a call does to an option, to the
    order of hits and to the aggregation of a name, in the words of the document.
  * `get?_body_ofCalls`, `get?_sort_ofCalls`, `get?_aggregations_ofCalls`: what the run leaves.
  * `RequestCall.EntriesOf`: the entries that a run asks for.
  * `document_of_calls`: these are the entries of the document, and no two of them meet.
-/
import SearchBody.Proofs.LastWrite
import SearchBody.Proofs.Tree

set_option autoImplicit false

namespace SearchBody

/-! ## What a call does -/

theorem RequestSetting.key_ne_sort (s : RequestSetting) : s.key ≠ "sort" := by
  cases s <;> simp [key]

theorem RequestSetting.key_ne_word (s : RequestSetting) (k : SectionKey) : s.key ≠ k.word := by
  cases s <;> cases k <;> simp [key, SectionKey.word]

theorem SectionKey.word_ne_sort (k : SectionKey) : k.word ≠ "sort" := by
  cases k <;> decide

namespace RequestCall

/-- The entry that an accepted call writes. -/
def writes? (k : SectionKey) : RequestCall → Option (Written Json)
  | .set s => some (s.written k)
  | .tryQuery (.node (.query q)) => some ⟨"query", q.document k⟩
  | _ => none

/-- The clause that a call adds to the order of hits: `{field: {"order": direction}}`. -/
def sortClause? : RequestCall → Option Json
  | .sort field order =>
    some (.object (.single field (.object (.single "order" (.string order.spelling)))))
  | _ => none

/-- What an accepted call does to the aggregation of a name, one thing after the other: put an
    aggregation there, or nothing. -/
def filings (name : String) : RequestCall → List (Option Aggregation)
  | .agg a | .tryAgg (.node (.aggregation a)) => if name = a.name then [some a] else []
  | .aggs as => (as.filter fun a => name = a.name).map some
  | .removeAgg name' => if name = name' then [none] else []
  | _ => []

end RequestCall

/-! ## What a run leaves -/

namespace Aggregations

variable (owner : String)

theorem get?_attach_eq (a : Aggregation) (m : Aggregations) (name : String) :
    (attach owner a m).state.get? name =
      (if name = a.name then [some a] else []).getLast?.getD (m.get? name) := by
  rw [attach, KeyMap.get?_insert]
  split <;> rfl

theorem get?_attachAll_eq (as : List Aggregation) (m : Aggregations) (name : String) :
    (attachAll owner as m).state.get? name =
      ((as.filter fun a => name = a.name).map some).getLast?.getD (m.get? name) := by
  induction as generalizing m with
  | nil => rfl
  | cons a as ih =>
    have hs : (attachAll owner (a :: as) m).state.get? name =
        ((as.filter fun a => name = a.name).map some).getLast?.getD
          ((attach owner a m).state.get? name) := ih _
    rw [hs, get?_attach_eq]
    by_cases e : name = a.name
    · simp [e, List.getLast?_cons]
    · simp [e]

end Aggregations

namespace RequestCall

section
variable {c : RequestCall} {r : SearchRequest} {k : SectionKey} {key : String}

theorem body_run_tryQuery (e : Element) (r : SearchRequest) :
    ((tryQuery e).run r).state.body =
      match e with
      | .node (.query q) => Body.set r.body "query" (.query q)
      | _ => r.body := by
  rcases e.query?_cases with ⟨q, rfl⟩ | he
  · rfl
  · match e, he with
    | .scalar _, _ | .node (.script _), _ | .node (.aggregation _), _ => rfl

theorem body_run_tryAgg (e : Element) (r : SearchRequest) :
    ((tryAgg e).run r).state.body = r.body := by
  rcases e.aggregation?_cases with ⟨a, rfl⟩ | he
  · rfl
  · rw [run, he]
    rfl

theorem get?_run (hkey : key ≠ "sort") (c : RequestCall) (r : SearchRequest) :
    ((c.run r).state.body.get? key).map (OptionValue.document k) =
      ((c.writes? k).bind (Written.at? key)).or
        ((r.body.get? key).map (OptionValue.document k)) := by
  have hset : ∀ key' v, ((Body.set r.body key' v).get? key).map (OptionValue.document k) =
      (Written.at? key ⟨key', v.document k⟩).or
        ((r.body.get? key).map (OptionValue.document k)) := by
    intro key' v
    rw [Body.get?_set, Written.at?]
    split <;> rfl
  cases c with
  | set s =>
    rw [writes?, s.written_eq]
    exact hset s.key s.stored
  | tryQuery e =>
    rw [body_run_tryQuery]
    cases e with
    | scalar v => rfl
    | node n =>
      cases n with
      | query q => exact hset "query" (.query q)
      | script | aggregation => rfl
  | sort field order =>
    show ((Body.push r.body "sort" _).get? key).map _ = _
    rw [Body.get?_push, if_neg hkey]
    rfl
  | tryAgg e =>
    rw [body_run_tryAgg]
    rfl
  | agg | aggs | removeAgg => rfl

/-- One call on the order of hits: only `sort` touches it, and it finds a list or nothing. -/
theorem get?_sort_run {items : List OptionValue} (h : r.body.get? "sort" = listSlot items) :
    (c.run r).state.body.get? "sort" =
      listSlot (items ++ (c.sortClause?.map OptionValue.scalar).toList) := by
  have hskip : (c.run r).state.body.get? "sort" = r.body.get? "sort" → c.sortClause? = none →
      (c.run r).state.body.get? "sort" =
        listSlot (items ++ (c.sortClause?.map OptionValue.scalar).toList) := by
    intro hb hc
    rw [hb, hc, h]
    exact congrArg listSlot (List.append_nil items).symm
  cases c with
  | sort field order =>
    rw [sortClause?, order.spelling_eq]
    exact Body.get?_push_listSlot h _
  | set s =>
    refine hskip ?_ rfl
    show (Body.set r.body s.key s.stored).get? "sort" = _
    rw [Body.get?_set, if_neg s.key_ne_sort.symm]
  | tryQuery e =>
    refine hskip ?_ rfl
    rw [body_run_tryQuery]
    match e with
    | .node (.query q) => rw [Body.get?_set, if_neg (by decide)]
    | .scalar _ | .node (.script _) | .node (.aggregation _) => rfl
  | tryAgg e => exact hskip (by rw [body_run_tryAgg]) rfl
  | agg | aggs | removeAgg => exact hskip rfl rfl

theorem get?_aggregations_run (name : String) (c : RequestCall) (r : SearchRequest) :
    (c.run r).state.aggregations.get? name =
      (c.filings name).getLast?.getD (r.aggregations.get? name) := by
  cases c with
  | agg a => exact Aggregations.get?_attach_eq SearchRequest.owner a _ name
  | aggs as => exact Aggregations.get?_attachAll_eq SearchRequest.owner as _ name
  | tryAgg e =>
    rcases e.aggregation?_cases with ⟨a, rfl⟩ | he
    · exact Aggregations.get?_attach_eq SearchRequest.owner a _ name
    · match e, he with
      | .scalar _, _ | .node (.script _), _ | .node (.query _), _ => rfl
  | removeAgg name' =>
    show (r.aggregations.erase name').get? name = _
    rw [KeyMap.get?_erase, filings]
    split <;> rfl
  | tryQuery e =>
    rcases e.query?_cases with ⟨q, rfl⟩ | he
    · rfl
    · rw [run, he]
      rfl
  | set | sort => rfl

end

end RequestCall

namespace RequestCall

variable (calls : List RequestCall)

/-- All clauses of the order of hits. -/
def clauses : List Json := calls.filterMap sortClause?

/-- The aggregation that was put under a name last, if it has not been removed since. -/
def surviving (name : String) : Option Aggregation :=
  (calls.flatMap (filings name)).getLast?.getD none

/-- The entries that calls ask for: `entries` are those of the document, `named` those of its
    section. -/
structure EntriesOf (k : SectionKey) (entries named : KeyMap Json none) : Prop where
  /-- the section has the documents of the aggregations that survive -/
  get?_named : ∀ name, named.get? name = (surviving calls name).map (Aggregation.document k)
  isEmpty_named : named.isEmpty = true ↔ ∀ name, surviving calls name = none
  /-- the section is there if it is not empty -/
  aggregations : entries.get? k.spelling = if named.isEmpty then none else some (.object named)
  /-- the order of hits has every clause, in the order of the calls -/
  sort : entries.get? "sort" =
    if (clauses calls).isEmpty then none else some (.array (clauses calls))
  /-- any other entry is the one that was written last, and is not there if none was -/
  option : ∀ key, key ≠ k.spelling → key ≠ "sort" →
    entries.get? key = Written.last? key (calls.filterMap (writes? k))

end RequestCall

namespace SearchRequest

variable (k : SectionKey) (calls : List RequestCall)

theorem get?_body_ofCalls {key : String} (hkey : key ≠ "sort") :
    ((Run.ofCalls RequestCall.run calls .empty).state.body.get? key).map
        (OptionValue.document k) =
      Written.last? key (calls.filterMap (RequestCall.writes? k)) := by
  have hempty : (SearchRequest.empty.body.get? key).map (OptionValue.document k) =
      Written.last? key [] := rfl
  exact Run.last_of_writes (fun r : SearchRequest => (r.body.get? key).map (OptionValue.document k))
    (fun c (_ : c ∈ calls) r => c.get?_run (k := k) hkey r) hempty

theorem get?_sort_ofCalls :
    (Run.ofCalls RequestCall.run calls .empty).state.body.get? "sort" =
      listSlot ((calls.filterMap RequestCall.sortClause?).map .scalar) := by
  have hempty : SearchRequest.empty.body.get? "sort" = listSlot [] := rfl
  have hlist := Run.list_of_calls (fun r : SearchRequest => r.body.get? "sort")
    (f := fun c => c.sortClause?.map .scalar)
    (fun c (_ : c ∈ calls) r items h => c.get?_sort_run h) hempty
  rw [hlist, List.nil_append, List.map_filterMap]

theorem get?_aggregations_ofCalls (name : String) :
    (Run.ofCalls RequestCall.run calls .empty).state.aggregations.get? name =
      (calls.flatMap (RequestCall.filings name)).getLast?.getD none :=
  Run.last_of_values (fun r : SearchRequest => r.aggregations.get? name)
    (fun c (_ : c ∈ calls) r => c.get?_aggregations_run name r) .empty

/-- **The document of a run of calls.**  It is an object with the entries that the calls ask for:
    under the section key the documents of the aggregations that were put under their names and
    not removed since, if there are any; under `sort` all clauses in the order of the calls, if
    there are any; and under any other key the last entry that an accepted call wrote, if one did.
    No option has the section key, and a clause is never pushed onto anything but a list. -/
theorem document_of_calls (k : SectionKey) (calls : List RequestCall) :
    let r := (Run.ofCalls RequestCall.run calls .empty).state
    (∃ entries named, r.document k = .object entries ∧
      RequestCall.EntriesOf calls k entries named) ∧
    r.body.get? k.spelling = none ∧
    (∀ s : RequestSetting, (s.written k).key ≠ k.spelling ∧ (s.written k).key ≠ "sort") ∧
    (r.body.get? "sort" = none ∨ ∃ items, r.body.get? "sort" = some (.list items)) := by
  intro r
  have hr : r.Assembled := ⟨calls, rfl⟩
  have hnamed : ∀ name, (Aggregation.documents k r.aggregations).get? name =
      (RequestCall.surviving calls name).map (Aggregation.document k) := fun name => by
    rw [get?_aggregationDocuments, get?_aggregations_ofCalls]
    rfl
  have hsort : r.body.get? "sort" = listSlot ((RequestCall.clauses calls).map .scalar) :=
    get?_sort_ofCalls calls
  have hentries := get?_entries k hr
  rw [k.spelling_eq]
  refine ⟨⟨r.entries k, Aggregation.documents k r.aggregations, r.document_eq k, hnamed, ?_, ?_, ?_,
    fun key hk hs => ?_⟩, hr.get?_word k, fun s => ?_, ?_⟩
  · rw [KeyMap.isEmpty_iff_get?]
    exact forall_congr' fun name => by rw [hnamed, Option.map_eq_none_iff]
  · rw [k.spelling_eq, hentries, if_pos rfl, isEmpty_aggregationDocuments]
  · have hlist : (OptionValue.list ((RequestCall.clauses calls).map .scalar)).document k =
        .array (RequestCall.clauses calls) := by
      rw [OptionValue.document, OptionValue.documentList_eq, List.map_map]
      exact congrArg Json.array (List.map_id _)
    rw [hentries, if_neg k.word_ne_sort.symm, hsort, listSlot, List.isEmpty_map]
    cases (RequestCall.clauses calls).isEmpty with
    | true => rfl
    | false => exact congrArg some hlist
  · rw [hentries, if_neg (k.spelling_eq ▸ hk)]
    exact get?_body_ofCalls k calls hs
  · rw [s.written_eq]
    exact ⟨s.key_ne_word k, s.key_ne_sort⟩
  · rw [hsort, listSlot]
    split
    · exact Or.inl rfl
    · exact Or.inr ⟨_, rfl⟩

end SearchRequest

/-- Offers in an order, without their sources: a query is refused, one aggregation replaced and
    another one removed, and the least score is given twice. -/
def RequestCall.offers : List RequestCall :=
  [.set (.minScore (.infinity true)), .set (.source (.bool false)), .tryQuery (.scalar .null),
    .sort "price" .descending, .agg (NewAggregation.named .max "price").aggregation,
    .aggs [(NewAggregation.named .avg "price").aggregation,
      (NewAggregation.named .sum "stock").aggregation],
    .sort "name" .ascending, .set (.size 3), .removeAgg "stock", .set (.minScore (.finite .two))]

theorem SearchRequest.document_of_calls_offers :
    (∃ entries named, (Run.ofCalls RequestCall.run RequestCall.offers .empty).state.document
        .aggregations = .object entries ∧
      entries.get? "min_score" = some (.number (.real .two)) ∧
      entries.get? "_source" = some (.bool false) ∧ entries.get? "size" = some (.unsigned 3) ∧
      entries.get? "query" = none ∧
      entries.get? "sort" = some (.array
        [.object (.single "price" (.object (.single "order" (.string "desc")))),
          .object (.single "name" (.object (.single "order" (.string "asc"))))]) ∧
      entries.get? "aggregations" = some (.object named) ∧
      named.get? "price" = some (.object (.single "avg" (.object .empty))) ∧
      named.get? "stock" = none) ∧
    ∃ entries, (Run.ofCalls RequestCall.run
        (RequestCall.offers ++ [.set (.minScore .undefined)]) .empty).state.document
        .aggs = .object entries ∧ entries.get? "min_score" = some .null := by
  refine ⟨?_, ?_⟩
  · obtain ⟨⟨entries, named, hdoc, h⟩, -⟩ := document_of_calls .aggregations RequestCall.offers
    have hprice : named.get? "price" = some (.object (.single "avg" (.object .empty))) :=
      h.get?_named "price"
    have hthere : named.isEmpty = false := Bool.eq_false_iff.2 fun he => by
      cases (KeyMap.isEmpty_iff_get?.1 he "price").symm.trans hprice
    have haggs := h.aggregations
    rw [hthere] at haggs
    exact ⟨entries, named, hdoc, h.option "min_score" (by decide) (by decide),
      h.option "_source" (by decide) (by decide), h.option "size" (by decide) (by decide),
      h.option "query" (by decide) (by decide), h.sort, haggs, hprice, h.get?_named "stock"⟩
  · obtain ⟨⟨entries, named, hdoc, h⟩, -⟩ :=
      document_of_calls .aggs (RequestCall.offers ++ [.set (.minScore .undefined)])
    exact ⟨entries, hdoc, h.option "min_score" (by decide) (by decide)⟩

end SearchBody
