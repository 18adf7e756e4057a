/-
  Search bodies — named filters.

  An aggregation over filters keeps one filter for each bucket, all of them in one map.  A new
  filter takes the place of the one before it in its bucket and leaves the others; no other
  call comes near the map.

  * `AggregationCall.bucket?`, `filter?`: the bucket that a call is about, and the filter that
    an accepted call puts there; `filter?_eq_none_iff`: a call for a bucket puts one there unless
    it is refused.
  * `Aggregation.inBucket?`: what is in a bucket; `inBucket?_run`: after one call.
  * `holdsFilters_ofCalls`: the slot is empty or has a map; `HoldsFilters.isSome_iff`: the map is
    there exactly if something is in a bucket.
  * `commute_buckets`: calls for different buckets change places.
  * `named_filters_of_calls`: the map, and the document.
-/
import SearchBody.Proofs.LastWrite
import SearchBody.Proofs.Tree

set_option autoImplicit false

namespace SearchBody

/-! ## Entries of a slot -/

namespace OptionValue

/-- The entry of a map. -/
def entryAt? (entry : String) : OptionValue → Option OptionValue
  | .map entries => entries.get? entry
  | _ => none

theorem entryAt?_withEntry (slot : Option OptionValue) (entry e : String) (v : OptionValue) :
    (withEntry slot entry v).entryAt? e = if e = entry then some v else slot.bind (entryAt? e) := by
  unfold withEntry
  split
  · next entries => simp [entryAt?]
  · next hslot =>
    have hnone : slot.bind (entryAt? e) = none := by
      cases slot with
      | none => rfl
      | some w =>
        cases w with
        | map entries => exact absurd rfl (hslot entries)
        | _ => rfl
    rw [hnone]
    rfl

/-- Entries of different names can be set in any order. -/
theorem withEntry_comm {e e' : String} (h : e ≠ e') (slot : Option OptionValue)
    (v v' : OptionValue) :
    withEntry (some (withEntry slot e v)) e' v' = withEntry (some (withEntry slot e' v')) e v := by
  have hmap : ∀ entries : Body, OptionValue.map ((entries.insert e v).insert e' v') =
      .map ((entries.insert e' v').insert e v) := fun entries =>
    congrArg OptionValue.map (KeyMap.insert_comm h entries v v')
  cases slot with
  | none => exact hmap .empty
  | some w =>
    cases w with
    | map entries => exact hmap entries
    | _ => exact hmap .empty

end OptionValue

theorem Aggregation.setEntry_comm {e e' : String} (h : e ≠ e') (a : Aggregation) (key : String)
    (v v' : OptionValue) :
    (a.setEntry key e v).setEntry key e' v' = (a.setEntry key e' v').setEntry key e v := by
  have hbody : Body.setEntry (Body.setEntry a.body key e v) key e' v' =
      Body.setEntry (Body.setEntry a.body key e' v') key e v := by
    ext k : 1
    simp only [Body.get?_setEntry]
    split
    · simp only [if_pos, OptionValue.withEntry_comm h]
    · rfl
  exact congrArg (fun b => { a with body := b }) hbody

/-- What is in a bucket. -/
def Aggregation.inBucket? (a : Aggregation) (bucket : String) : Option OptionValue :=
  (a.body.get? "filters").bind (OptionValue.entryAt? bucket)

theorem Aggregation.inBucket?_setEntry (a : Aggregation) (b bucket : String) (v : OptionValue) :
    (a.setEntry "filters" b v).inBucket? bucket =
      if bucket = b then some v else a.inBucket? bucket := by
  have hslot : (a.setEntry "filters" b v).body.get? "filters" =
      some (.withEntry (a.body.get? "filters") b v) :=
    (Body.get?_setEntry a.body "filters" b "filters" v).trans (if_pos rfl)
  rw [inBucket?, hslot, Option.bind_some, OptionValue.entryAt?_withEntry]
  rfl

/-! ## One call -/

namespace AggregationCall

/-- The bucket that a call is about, accepted or not. -/
def bucket? : AggregationCall → Option String
  | .filter bucket _ | .tryFilter bucket _ => some bucket
  | _ => none

/-- The filter that an accepted call puts into a bucket. -/
def filter? (bucket : String) : AggregationCall → Option Query
  | .filter bucket' q | .tryFilter bucket' (.node (.query q)) =>
    if bucket = bucket' then some q else none
  | _ => none

variable {c d : AggregationCall} {bucket : String}

/-- A call for a bucket puts a filter there, or is refused. -/
theorem bucket_cases (h : c.bucket? = some bucket) :
    (∃ q, (∀ b, c.filter? b = if b = bucket then some q else none) ∧
      ∀ a, c.run a = .done (a.setEntry "filters" bucket (.query q))) ∨
    (∀ b, c.filter? b = none) ∧ ∃ m, ∀ a, c.run a = ⟨a, .refused m, [.rejected m]⟩ := by
  cases c with
  | filter bucket' q =>
    cases h
    exact Or.inl ⟨q, fun _ => rfl, fun _ => rfl⟩
  | tryFilter bucket' e =>
    cases h
    rcases e.query?_cases with ⟨q, rfl⟩ | he
    · exact Or.inl ⟨q, fun _ => rfl, fun _ => rfl⟩
    · refine Or.inr ⟨fun b => ?_, ⟨.query, e.kind⟩, fun a => by rw [run, he]; rfl⟩
      cases e with
      | scalar => rfl
      | node n =>
        cases n with
        | query => cases he
        | _ => rfl
  | _ => cases h

theorem filter?_of_no_bucket (h : c.bucket? = none) (b : String) : c.filter? b = none := by
  cases c with
  | filter | tryFilter => cases h
  | _ => rfl

/-- A call for a bucket is refused exactly if it puts no filter there. -/
theorem filter?_eq_none_iff (h : c.bucket? = some bucket) (a : Aggregation) :
    c.filter? bucket = none ↔ ∃ m, (c.run a).reply = .refused m := by
  rcases bucket_cases h with ⟨q, hq, hrun⟩ | ⟨hnone, m, hrun⟩
  · rw [hq, if_pos rfl, hrun]
    exact iff_of_false nofun nofun
  · rw [hrun]
    exact iff_of_true (hnone bucket) ⟨m, rfl⟩

/-- **A call of an aggregation over filters puts a filter into a bucket**, or leaves the map
    alone. -/
theorem filters_cases (hc : c.IsOwn .filters) :
    (∃ bucket q, (∀ b, c.filter? b = if b = bucket then some q else none) ∧
      ∀ a, (c.run a).state = a.setEntry "filters" bucket (.query q)) ∨
    (∀ b, c.filter? b = none) ∧
      ∀ a, (c.run a).state.body.get? "filters" = a.body.get? "filters" := by
  cases h : c.bucket? with
  | some bucket =>
    rcases bucket_cases h with ⟨q, hq, hrun⟩ | ⟨hnone, m, hrun⟩
    · exact Or.inl ⟨bucket, q, hq, fun a => by rw [hrun]; rfl⟩
    · exact Or.inr ⟨hnone, fun a => by rw [hrun]⟩
  | none =>
    refine Or.inr ⟨filter?_of_no_bucket h, fun a => ?_⟩
    cases c with
    | set s => exact (frame_run (c := .set s) rfl a).2 "filters" s.key_ne_filters.symm
    | tryScript e => exact (frame_run (c := .tryScript e) rfl a).2 "filters" (by decide)
    | write w => exact absurd rfl (hc.2 w)
    | filter | tryFilter => cases h
    | metadata | agg | aggs | tryAgg | attach | detach => rw [body_run_of_no_option rfl]

/-- **One call puts its filter into its bucket**, if it is accepted, and leaves all other
    buckets alone. -/
theorem inBucket?_run (hc : c.IsOwn .filters) (bucket : String) (a : Aggregation) :
    (c.run a).state.inBucket? bucket =
      ((c.filter? bucket).map .query).or (a.inBucket? bucket) := by
  rcases filters_cases hc with ⟨b, q, hq, hrun⟩ | ⟨hnone, hrun⟩
  · rw [hq, hrun, Aggregation.inBucket?_setEntry]
    split <;> rfl
  · rw [hnone, Aggregation.inBucket?, hrun]
    rfl

/-- Calls for different buckets can change places. -/
theorem commute_buckets {bucket' : String} (hc : c.bucket? = some bucket)
    (hd : d.bucket? = some bucket') (hne : bucket ≠ bucket') :
    Commute AggregationCall.run c d := by
  intro a
  rcases bucket_cases hc with ⟨q, -, hrun⟩ | ⟨-, m, hrun⟩ <;>
    rcases bucket_cases hd with ⟨q', -, hrun'⟩ | ⟨-, m', hrun'⟩ <;>
    simp only [hrun, hrun', Outcome.done, and_self, and_true]
  exact Aggregation.setEntry_comm hne a "filters" (.query q) (.query q')

end AggregationCall

/-! ## Runs -/

/-- A slot that is empty or has a map with an entry. -/
def HoldsFilters (slot : Option OptionValue) : Prop :=
  ∀ v, slot = some v → ∃ filters : Body, v = .map filters ∧ ∃ bucket, filters.get? bucket ≠ none

theorem holdsFilters_withEntry (slot : Option OptionValue) (bucket : String) (v : OptionValue) :
    HoldsFilters (some (.withEntry slot bucket v)) := by
  rintro _ ⟨⟩
  unfold OptionValue.withEntry
  split
  · exact ⟨_, rfl, bucket, by simp⟩
  · exact ⟨_, rfl, bucket, by simp⟩

namespace HoldsFilters

variable {a : Aggregation} (h : HoldsFilters (a.body.get? "filters"))
include h

theorem none_or_map : a.body.get? "filters" = none ∨
    ∃ filters : Body, a.body.get? "filters" = some (.map filters) := by
  cases hv : a.body.get? "filters" with
  | none => exact Or.inl rfl
  | some v =>
    obtain ⟨filters, rfl, -⟩ := h v hv
    exact Or.inr ⟨filters, rfl⟩

/-- The map is there if there is something in a bucket. -/
theorem isSome_iff :
    (a.body.get? "filters").isSome = true ↔ ∃ bucket, a.inBucket? bucket ≠ none := by
  constructor
  · intro hs
    obtain ⟨v, hv⟩ := Option.isSome_iff_exists.1 hs
    obtain ⟨filters, rfl, bucket, hb⟩ := h v hv
    exact ⟨bucket, by rw [Aggregation.inBucket?, hv]; exact hb⟩
  · rintro ⟨bucket, hb⟩
    cases hv : a.body.get? "filters" with
    | none =>
      rw [Aggregation.inBucket?, hv] at hb
      exact absurd rfl hb
    | some v => rfl

/-- **The document has the map of the filters**, if there is one, and in it the document of what
    is in each bucket. -/
theorem at?_document (hw : a.wireType = AggregationKind.filters.wireType) (k : SectionKey) :
    ∃ documents : KeyMap Json none,
      (a.document k).at? [.key "filters", .key "filters"] =
        (if documents.isEmpty then none else some (.object documents)) ∧
      ∀ bucket, documents.get? bucket =
        (a.inBucket? bucket).map (OptionValue.document k) := by
  have hoptions : (a.document k).at? [.key a.wireType] =
      some (.object (OptionValue.documents k a.body)) :=
    Tree.at?_options (k := k) (n := .aggregation a) ⟨.filters, hw.symm⟩
  have hslot : (a.document k).at? [.key "filters", .key "filters"] =
      (a.body.get? "filters").map (OptionValue.document k) := by
    rw [hw] at hoptions
    refine (Json.at?_append _ [.key AggregationKind.filters.wireType] [.key "filters"]).trans ?_
    rw [hoptions]
    simp
  rw [hslot]
  cases hv : a.body.get? "filters" with
  | none => exact ⟨.empty, rfl, fun bucket => by rw [Aggregation.inBucket?, hv]; rfl⟩
  | some v =>
    obtain ⟨filters, rfl, bucket, hb⟩ := h v hv
    refine ⟨OptionValue.documents k filters, ?_, fun bucket => ?_⟩
    · have hne : (OptionValue.documents k filters).isEmpty = false := by
        refine Bool.eq_false_iff.2 fun he => hb ?_
        simpa using KeyMap.isEmpty_iff_get?.1 he bucket
      rw [hne]
      rfl
    · rw [get?_optionDocuments, Aggregation.inBucket?, hv]
      rfl

end HoldsFilters

section
variable {name : String} {calls : List AggregationCall} (hc : ∀ c ∈ calls, c.IsOwn .filters)
include hc

/-- **Whatever the calls, the slot of the filters is empty or has a map.** -/
theorem holdsFilters_ofCalls :
    HoldsFilters ((Run.ofCalls AggregationCall.run calls
      (NewAggregation.named .filters name).aggregation).state.body.get? "filters") := by
  refine Run.ofCalls_induction AggregationCall.run
    (I := fun a => HoldsFilters (a.body.get? "filters")) (fun c hm a ha => ?_) nofun
  rcases AggregationCall.filters_cases (hc c hm) with ⟨bucket, q, -, hrun⟩ | ⟨-, hrun⟩
  · rw [hrun]
    show HoldsFilters ((Body.setEntry a.body "filters" bucket (.query q)).get? "filters")
    rw [Body.get?_setEntry, if_pos rfl]
    exact holdsFilters_withEntry _ bucket _
  · rwa [hrun]

/-- **A bucket has the last filter that was accepted for it.** -/
theorem inBucket?_ofCalls (bucket : String) :
    (Run.ofCalls AggregationCall.run calls
        (NewAggregation.named .filters name).aggregation).state.inBucket? bucket =
      (calls.filterMap (AggregationCall.filter? bucket)).getLast?.map .query := by
  have hlast := Run.last_of_calls (fun a : Aggregation => a.inBucket? bucket)
    (f := fun c => (c.filter? bucket).map .query)
    (fun c hm a => AggregationCall.inBucket?_run (hc c hm) bucket a)
    (NewAggregation.named .filters name).aggregation
  rw [← List.map_filterMap, List.getLast?_map] at hlast
  exact hlast.trans (Option.or_none ..)

end

/-- **Named filters are the last ones that were accepted.**  A call for a bucket puts a filter
    there unless it is refused.  After any calls of an aggregation over filters the option is
    there exactly if a filter was accepted, and is then a map with the buckets that one was
    accepted for, each with the last one; the document has the documents of these queries, each
    under its bucket.  Before any call the option is a map or nothing, so that nothing is thrown
    away: what is in a bucket then has something in it to the end.  Calls for different buckets
    can change places. -/
theorem named_filters_of_calls (name : String) (calls : List AggregationCall)
    (hc : ∀ c ∈ calls, c.IsOwn .filters) :
    let start := (NewAggregation.named .filters name).aggregation
    let r := Run.ofCalls AggregationCall.run calls start
    let accepted := fun bucket => calls.filterMap (AggregationCall.filter? bucket)
    (∀ (i : Nat) (c : AggregationCall) (bucket : String), calls[i]? = some c →
      c.bucket? = some bucket →
      (c.filter? bucket = none ↔ ∃ m, r.replies[i]? = some (.refused m))) ∧
    ((r.state.body.get? "filters").isSome = true ↔ ∃ bucket, accepted bucket ≠ []) ∧
    (∀ v, r.state.body.get? "filters" = some v → ∃ filters : Body, v = .map filters ∧
      ∀ bucket, filters.get? bucket = (accepted bucket).getLast?.map .query) ∧
    (∀ k, ∃ documents : KeyMap Json none,
      (r.state.document k).at? [.key "filters", .key "filters"] =
        (if documents.isEmpty then none else some (.object documents)) ∧
      ∀ bucket, documents.get? bucket = (accepted bucket).getLast?.map (Query.document k)) ∧
    (∀ i : Nat,
      let before := (Run.ofCalls AggregationCall.run (calls.take i) start).state
      (before.body.get? "filters" = none ∨
        ∃ filters : Body, before.body.get? "filters" = some (.map filters)) ∧
      ∀ bucket, before.inBucket? bucket ≠ none → r.state.inBucket? bucket ≠ none) ∧
    ∀ (c d : AggregationCall) (bucket bucket' : String), c.bucket? = some bucket →
      d.bucket? = some bucket' → bucket ≠ bucket' → Commute AggregationCall.run c d := by
  intro start r accepted
  have hholds : HoldsFilters (r.state.body.get? "filters") := holdsFilters_ofCalls hc
  have hbucket : ∀ bucket, r.state.inBucket? bucket = (accepted bucket).getLast?.map .query :=
    fun bucket => inBucket?_ofCalls hc bucket
  have hmap : ∀ v, r.state.body.get? "filters" = some v → ∃ filters : Body, v = .map filters ∧
      ∀ bucket, filters.get? bucket = (accepted bucket).getLast?.map .query := by
    intro v hv
    obtain ⟨filters, rfl, -⟩ := hholds v hv
    refine ⟨filters, rfl, fun bucket => ?_⟩
    rw [← hbucket, Aggregation.inBucket?, hv]
    rfl
  refine ⟨fun i c bucket hi hb => ?_, ?_, hmap, fun k => ?_, fun i => ⟨?_, fun bucket hb => ?_⟩,
    fun c d bucket bucket' => AggregationCall.commute_buckets⟩
  · have hreply := Run.getElem?_replies_ofCalls AggregationCall.run calls start i
    rw [hi, Option.map_some] at hreply
    simp only [r, hreply, Option.some.injEq]
    exact AggregationCall.filter?_eq_none_iff hb _
  · rw [hholds.isSome_iff]
    refine exists_congr fun bucket => not_congr ?_
    rw [hbucket, Option.map_eq_none_iff, List.getLast?_eq_none_iff]
  · have hw : r.state.wireType = AggregationKind.filters.wireType :=
      Run.ofCalls_induction AggregationCall.run
        (I := fun a => a.wireType = AggregationKind.filters.wireType)
        (fun c _ a h => (c.wireType_run a).trans h) rfl
    obtain ⟨documents, hat, hget⟩ := hholds.at?_document hw k
    refine ⟨documents, hat, fun bucket => ?_⟩
    rw [hget, hbucket, Option.map_map]
    rfl
  · exact (holdsFilters_ofCalls fun c hm => hc c (List.mem_of_mem_take hm)).none_or_map
  · have hbefore : (Run.ofCalls AggregationCall.run (calls.take i) start).state.inBucket? bucket =
        ((calls.take i).filterMap (AggregationCall.filter? bucket)).getLast?.map .query :=
      inBucket?_ofCalls (fun c hm => hc c (List.mem_of_mem_take hm)) bucket
    have hsplit : accepted bucket = (calls.take i).filterMap (AggregationCall.filter? bucket) ++
        (calls.drop i).filterMap (AggregationCall.filter? bucket) := by
      rw [← List.filterMap_append, List.take_append_drop]
    rw [hbefore, ne_eq, Option.map_eq_none_iff, List.getLast?_eq_none_iff] at hb
    rw [hbucket, ne_eq, Option.map_eq_none_iff, List.getLast?_eq_none_iff, hsplit,
      List.append_eq_nil_iff]
    exact fun h => hb h.1

/-- Messages by level, with a bucket called like the option, a refused aggregation, a child and a
    filter that takes the place of another. -/
def AggregationCall.messages : List AggregationCall :=
  [.filter "filters" .matchAll, .set (.otherBucketKey "filters"),
    .tryFilter "errors" (.node (.query (.term "level" (.string "error")))),
    .agg (NewAggregation.named .max "filters").aggregation,
    .tryFilter "totals" (.node (.aggregation (NewAggregation.named .sum "t").aggregation)),
    .filter "filters" (.range "size")]

theorem named_filters_of_calls_messages :
    (∀ c ∈ AggregationCall.messages, c.IsOwn .filters) ∧
    (let r := Run.ofCalls AggregationCall.run AggregationCall.messages
      (NewAggregation.named .filters "messages").aggregation
    ∃ filters : Body, r.state.body.get? "filters" = some (.map filters) ∧
      filters.get? "filters" = some (.query (.range "size")) ∧
      filters.get? "errors" = some (.query (.term "level" (.string "error"))) ∧
      filters.get? "totals" = none ∧
      ∃ m, r.replies[4]? = some (.refused m)) := by
  have hmessages : ∀ c ∈ AggregationCall.messages, c.IsOwn .filters := by
    intro c hc
    simp only [AggregationCall.messages, List.mem_cons, List.not_mem_nil, or_false] at hc
    rcases hc with rfl | rfl | rfl | rfl | rfl | rfl <;> exact ⟨by decide, nofun⟩
  obtain ⟨hreply, hsome, hmap, -⟩ :=
    named_filters_of_calls "messages" AggregationCall.messages hmessages
  have hthere := hsome.2 ⟨"errors", List.cons_ne_nil _ _⟩
  obtain ⟨v, hv⟩ := Option.isSome_iff_exists.1 hthere
  obtain ⟨filters, rfl, hget⟩ := hmap v hv
  exact ⟨hmessages, filters, hv, hget "filters", hget "errors", hget "totals",
    (hreply 4 _ "totals" rfl rfl).1 rfl⟩

end SearchBody
