/-
  Search bodies — trees that calls lead to.

  A call puts nothing into a tree but what it was given, so a property of trees that is
  about their parts passes from the arguments of calls to all that the calls lead to.

  * `Tree.Has`: the nodes directly in a tree, among its options or as named aggregations.
  * `has_run`: after a call, they were there before or came with the call.
  * `Reachable`: the trees that starts, calls and look-ups lead to.
  * `regularThroughout_ofCalls`: calls with regular arguments lead to regular trees.
-/
import SearchBody.Proofs.Tree

set_option autoImplicit false

namespace SearchBody

/-! ## The nodes in a tree -/

/-- A node stands directly in a tree: among the options, or as a named aggregation. -/
inductive Tree.Has (t : Tree) : Node → Prop
  | option {n} : (OptionValue.map t.body).Contains n → Has t n
  | named {name c} : t.named.get? name = some c → Has t (.aggregation c)

theorem Tree.has_write {t u : Tree} {w : SlotWrite} {n : Node} (h : u.Has n)
    (hb : u.body = w.apply t.body) (hm : u.named = t.named) : t.Has n ∨ w.value.Contains n := by
  cases h with
  | option h =>
    rw [hb] at h
    exact (SlotWrite.contains_apply h).imp .option id
  | named h => exact Or.inl (.named (hm ▸ h))

theorem QueryCall.has_run {c : QueryCall} {q : Query} {n : Node}
    (h : (Tree.node (.query (c.run q).state)).Has n) :
    (Tree.node (.query q)).Has n ∨ c.Takes n := by
  rcases c.run_cases q with e | ⟨w, e, hw⟩
  · exact Or.inl (e ▸ h)
  · rw [e] at h
    exact (Tree.has_write (t := .node (.query q)) h rfl rfl).imp id (hw n)

theorem ScriptCall.has_run {c : ScriptCall} {s : Script} {n : Node}
    (h : (Tree.node (.script (c.run s).state)).Has n) : (Tree.node (.script s)).Has n := by
  obtain ⟨key, v, e, hv⟩ := c.run_eq s
  rw [e] at h
  rcases Tree.has_write (t := .node (.script s)) (w := .set key v) h rfl rfl with h | h
  · exact h
  · exact .option (hv n h)

theorem AggregationCall.has_run {c : AggregationCall} {a : Aggregation} {n : Node}
    (h : (Tree.node (.aggregation (c.run a).state)).Has n) :
    (Tree.node (.aggregation a)).Has n ∨ c.Takes n := by
  rcases c.run_cases a with e | ⟨w, e, hw⟩ | ⟨v, e⟩ | ⟨m, e, hm⟩
  · exact Or.inl (e ▸ h)
  · rw [e] at h
    exact (Tree.has_write (t := .node (.aggregation a)) h rfl rfl).imp id (hw n)
  · rw [e] at h
    cases h with
    | option h => exact Or.inl (.option h)
    | named h => exact Or.inl (.named h)
  · rw [e] at h
    cases h with
    | option h => exact Or.inl (.option h)
    | named h => exact (hm _ _ h).imp .named And.right

theorem RequestCall.has_run {c : RequestCall} {r : SearchRequest} {n : Node}
    (h : (Tree.request (c.run r).state).Has n) : (Tree.request r).Has n ∨ c.Takes n := by
  rcases c.run_cases r with e | ⟨w, e, -, hw⟩ | ⟨m, e, hm⟩
  · exact Or.inl (e ▸ h)
  · rw [e] at h
    exact (Tree.has_write (t := .request r) h rfl rfl).imp id (hw n)
  · rw [e] at h
    cases h with
    | option h => exact Or.inl (.option h)
    | named h => exact (hm _ _ h).imp .named And.right

theorem NewQuery.has_start {s : NewQuery} {n : Node} (h : (Tree.node (.query s.query)).Has n) :
    s.Takes n := by
  cases h with
  | option h => exact takes_of_contains h
  | named h => cases h

theorem NewScript.not_has (s : NewScript) (n : Node) : ¬ (Tree.node (.script s.script)).Has n := by
  rintro (h | h)
  · exact s.not_contains n h
  · cases h

theorem NewAggregation.not_has (s : NewAggregation) (n : Node) :
    ¬ (Tree.node (.aggregation s.aggregation)).Has n := by
  have e : (Tree.node (.aggregation s.aggregation)).named = .empty := by cases s <;> rfl
  rintro (h | h)
  · exact s.not_contains n h
  · rw [e] at h
    cases h

theorem SearchRequest.not_has_empty (n : Node) : ¬ (Tree.request .empty).Has n := by
  rintro (h | h)
  · simp [Tree.body, empty] at h
  · cases h

/-! ## Reachable trees -/

/-- The trees that starts, calls and look-ups lead to, each with reachable arguments.  A
    look-up reads a node out of the options, or an aggregation by its name. -/
inductive Reachable : Tree → Prop
  | request : Reachable (.request .empty)
  | query (s : NewQuery) :
      (∀ n, s.Takes n → Reachable (.node n)) → Reachable (.node (.query s.query))
  | aggregation (s : NewAggregation) : Reachable (.node (.aggregation s.aggregation))
  | script (s : NewScript) : Reachable (.node (.script s.script))
  | requestCall {r} (c : RequestCall) : Reachable (.request r) →
      (∀ n, c.Takes n → Reachable (.node n)) → Reachable (.request (c.run r).state)
  | queryCall {q} (c : QueryCall) : Reachable (.node (.query q)) →
      (∀ n, c.Takes n → Reachable (.node n)) → Reachable (.node (.query (c.run q).state))
  | aggregationCall {a} (c : AggregationCall) : Reachable (.node (.aggregation a)) →
      (∀ n, c.Takes n → Reachable (.node n)) → Reachable (.node (.aggregation (c.run a).state))
  | scriptCall {s} (c : ScriptCall) : Reachable (.node (.script s)) →
      Reachable (.node (.script (c.run s).state))
  | lookUp {t n} : Reachable t → t.Has n → Reachable (.node n)
  | requestReply {r b} (c : RequestCall) : Reachable (.request r) →
      (c.run r).reply = .gave (some b) → Reachable (.node (.aggregation b))
  | aggregationReply {a b} (c : AggregationCall) : Reachable (.node (.aggregation a)) →
      (c.run a).reply = .gave (some b) → Reachable (.node (.aggregation b))

theorem Reachable.aggregationCalls {calls : List AggregationCall} {a : Aggregation}
    (ha : Reachable (.node (.aggregation a)))
    (hc : ∀ c ∈ calls, ∀ n, c.Takes n → Reachable (.node n)) :
    Reachable (.node (.aggregation (Run.ofCalls AggregationCall.run calls a).state)) :=
  Run.ofCalls_induction AggregationCall.run
    (I := fun a => Reachable (.node (.aggregation a)))
    (fun c hm _ ha => .aggregationCall c ha (hc c hm)) ha

/-- A reachable request comes from calls. -/
theorem Reachable.assembled {r : SearchRequest} (h : Reachable (.request r)) : r.Assembled := by
  generalize e : Tree.request r = t at h
  induction h generalizing r with
  | request =>
    cases e
    exact ⟨[], rfl⟩
  | requestCall c _ _ ih =>
    cases e
    exact (ih rfl).run c
  | _ => cases e

/-! ## Regular trees -/

theorem Tree.regularThroughout_iff {t : Tree} :
    t.RegularThroughout ↔ t.Regular ∧ ∀ n, t.Has n → (node n).RegularThroughout := by
  constructor
  · refine fun h => ⟨h.regular, fun n hn => ?_⟩
    rcases hn with ⟨p, hn⟩ | hc
    · exact h.inner hn
    · exact h.child hc
  · rintro ⟨h, hp⟩
    refine ⟨h, fun ha => ?_⟩
    cases ha with
    | self => exact h
    | inner hn ha => exact (hp _ (.option ⟨_, hn⟩)).wireType ha
    | child hc ha => exact (hp _ (.named hc)).wireType ha

/-- An aggregation of a known kind starts regular. -/
theorem NewAggregation.regularThroughout {s : NewAggregation} (kind : AggregationKind)
    (h : s.kind = some kind) : (Tree.node (.aggregation s.aggregation)).RegularThroughout := by
  refine Tree.regularThroughout_iff.2 ⟨⟨kind, ?_⟩, fun n hn => absurd hn (s.not_has n)⟩
  cases s with
  | ofType => cases h
  | _ => cases h; rfl

/-- **Calls with regular arguments keep an aggregation regular.** -/
theorem Aggregation.regularThroughout_ofCalls {calls : List AggregationCall} {a : Aggregation}
    (ha : (Tree.node (.aggregation a)).RegularThroughout)
    (hc : ∀ c ∈ calls, ∀ n, c.Takes n → (Tree.node n).RegularThroughout) :
    (Tree.node (.aggregation
      (Run.ofCalls AggregationCall.run calls a).state)).RegularThroughout := by
  refine Run.ofCalls_induction AggregationCall.run
    (I := fun a => (Tree.node (.aggregation a)).RegularThroughout) (fun c hm a ha => ?_) ha
  obtain ⟨hw, hp⟩ := Tree.regularThroughout_iff.1 ha
  refine Tree.regularThroughout_iff.2 ⟨?_, fun n hn => ?_⟩
  · show IsLeafType (c.run a).state.wireType
    rw [c.wireType_run]
    exact hw
  · exact (AggregationCall.has_run hn).elim (hp n) (hc c hm n)

/-- **Calls with regular arguments make a regular request.** -/
theorem SearchRequest.regularThroughout_ofCalls {calls : List RequestCall}
    (hc : ∀ c ∈ calls, ∀ n, c.Takes n → (Tree.node n).RegularThroughout) :
    (Tree.request (Run.ofCalls RequestCall.run calls .empty).state).RegularThroughout := by
  refine Run.ofCalls_induction RequestCall.run
    (I := fun r => (Tree.request r).RegularThroughout) (fun c hm r hr => ?_) ?_
  · obtain ⟨hs, hp⟩ := Tree.regularThroughout_iff.1 hr
    refine Tree.regularThroughout_iff.2 ⟨Assembled.run hs c, fun n hn => ?_⟩
    exact (RequestCall.has_run hn).elim (hp n) (hc c hm n)
  · exact Tree.regularThroughout_iff.2 ⟨⟨[], rfl⟩, fun n hn => absurd hn (not_has_empty n)⟩

/-! ## An example -/

namespace Aggregation

/-- A child, metadata and an option, all called like the section. -/
def salesCalls : List AggregationCall :=
  [.agg (NewAggregation.onField .sum "aggs" "price").aggregation,
    .metadata (.object (.single "aggs" (.string "sales"))),
    .write (.set "aggs"
      (.list [.node (.aggregation (NewAggregation.named .max "top").aggregation)]))]

theorem takes_salesCalls {c : AggregationCall} {n : Node} (hc : c ∈ salesCalls)
    (hn : c.Takes n) :
    ∃ (s : NewAggregation) (kind : AggregationKind),
      s.kind = some kind ∧ n = .aggregation s.aggregation := by
  simp only [salesCalls, List.mem_cons, List.not_mem_nil, or_false] at hc
  rcases hc with rfl | rfl | rfl
  · exact ⟨_, .sum, rfl, hn⟩
  · exact absurd hn id
  · obtain ⟨v, hv, hvn⟩ := (OptionValue.contains_list _ n).1 hn
    obtain rfl := List.mem_singleton.1 hv
    exact ⟨_, .max, rfl, (OptionValue.contains_node _ n).1 hvn⟩

/-- Sales by month. -/
def salesByMonth (name : String) : Aggregation :=
  (Run.ofCalls AggregationCall.run salesCalls
    (NewAggregation.dateHistogram name "date" "month").aggregation).state

theorem regularThroughout_salesByMonth (name : String) :
    (Tree.node (.aggregation (salesByMonth name))).RegularThroughout := by
  refine regularThroughout_ofCalls
    (NewAggregation.regularThroughout .dateHistogram rfl) fun c hc n hn => ?_
  obtain ⟨s, kind, hs, rfl⟩ := takes_salesCalls hc hn
  exact NewAggregation.regularThroughout kind hs

theorem reachable_salesByMonth (name : String) :
    Reachable (.node (.aggregation (salesByMonth name))) := by
  refine Reachable.aggregationCalls (.aggregation _) fun c hc n hn => ?_
  obtain ⟨s, kind, -, rfl⟩ := takes_salesCalls hc hn
  exact .aggregation s

end Aggregation

namespace SearchRequest

/-- A request for the sales by month. -/
def salesByMonth : SearchRequest :=
  (Run.ofCalls RequestCall.run [.agg (.salesByMonth "sales")] .empty).state

theorem regularThroughout_salesByMonth : (Tree.request salesByMonth).RegularThroughout := by
  refine regularThroughout_ofCalls fun c hc n hn => ?_
  obtain rfl := List.mem_singleton.1 hc
  obtain rfl : n = _ := hn
  exact Aggregation.regularThroughout_salesByMonth _

theorem reachable_salesByMonth : Reachable (.request salesByMonth) := by
  refine Reachable.requestCall _ .request fun n hn => ?_
  obtain rfl : n = _ := hn
  exact Aggregation.reachable_salesByMonth _

end SearchRequest

end SearchBody
