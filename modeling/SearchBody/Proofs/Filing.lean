/-
  Search bodies — aggregations are filed under their own names.

  A call can only put an aggregation under its own name, and none renames its target.  So the
  names under which aggregations are found are their own, at every depth of a tree.

  * `Tree.Filed`: all named aggregations in a tree, at any depth, stand under their names.
  * `filed_iff`: the tree itself, and the nodes directly in it.
  * `ownNames_run`: a call keeps the named aggregations under their names.
  * `Reachable.filed`: every reachable tree is filed.
-/
import SearchBody.Proofs.Reachable

set_option autoImplicit false

namespace SearchBody

/-! ## One level of a tree -/

/-- The named aggregations stand under their own names. -/
def KeyMap.OwnNames (m : Aggregations) : Prop :=
  ∀ name c, m.get? name = some c → c.name = name

theorem KeyMap.ownNames_empty : OwnNames .empty := by
  rintro name c ⟨⟩

theorem AggregationCall.ownNames_run {c : AggregationCall} {a : Aggregation}
    (ha : a.children.OwnNames) : (c.run a).state.children.OwnNames := by
  rcases c.run_cases a with e | ⟨w, e, -⟩ | ⟨v, e⟩ | ⟨m, e, hm⟩
  · rwa [e]
  · rwa [e]
  · rwa [e]
  · rw [e]
    intro name b hb
    rcases hm name b hb with hb | ⟨hb, -⟩
    · exact ha name b hb
    · exact hb

theorem RequestCall.ownNames_run {c : RequestCall} {r : SearchRequest}
    (hr : r.aggregations.OwnNames) : (c.run r).state.aggregations.OwnNames := by
  rcases c.run_cases r with e | ⟨w, e, -⟩ | ⟨m, e, hm⟩
  · rwa [e]
  · rwa [e]
  · rw [e]
    intro name b hb
    rcases hm name b hb with hb | ⟨hb, -⟩
    · exact hr name b hb
    · exact hb

/-! ## All levels of a tree -/

namespace Tree

/-- The named aggregations in a tree stand under their own names, at any depth. -/
def Filed (t : Tree) : Prop := ∀ k p m, t.At k p (.named m) → m.OwnNames

theorem filed_iff {t : Tree} :
    t.Filed ↔ t.named.OwnNames ∧ ∀ n, t.Has n → (node n).Filed := by
  constructor
  · intro h
    constructor
    · cases he : t.named.isEmpty with
      | true =>
        rw [KeyMap.isEmpty_iff.1 he]
        exact KeyMap.ownNames_empty
      | false => exact h .aggs _ _ (.named he)
    · rintro n hn k p m hm
      rcases hn with ⟨q, hn⟩ | hc
      · exact h k _ m (.inner hn hm)
      · exact h k _ m (.child hc hm)
  · rintro ⟨hn, hp⟩ k p m hm
    cases hm with
    | named => exact hn
    | inner hi hm => exact hp _ (.option ⟨_, hi⟩) k _ m hm
    | child hc hm => exact hp _ (.named hc) k _ m hm

theorem filed_of_not_has {t : Tree} (h : ∀ n, ¬ t.Has n) : t.Filed :=
  filed_iff.2 ⟨fun _ _ hc => absurd (.named hc) (h _), fun n hn => absurd hn (h n)⟩

end Tree

/-- **Every reachable tree is filed.** -/
theorem Reachable.filed {t : Tree} (h : Reachable t) : t.Filed := by
  induction h with
  | request => exact Tree.filed_of_not_has SearchRequest.not_has_empty
  | query s _ ih =>
    exact Tree.filed_iff.2 ⟨KeyMap.ownNames_empty, fun n hn => ih n (NewQuery.has_start hn)⟩
  | aggregation s => exact Tree.filed_of_not_has s.not_has
  | script s => exact Tree.filed_of_not_has s.not_has
  | requestCall c _ _ ih ihc =>
    obtain ⟨hm, hp⟩ := Tree.filed_iff.1 ih
    refine Tree.filed_iff.2 ⟨RequestCall.ownNames_run hm, fun n hn => ?_⟩
    exact (RequestCall.has_run hn).elim (hp n) (ihc n)
  | queryCall c _ _ ih ihc =>
    obtain ⟨-, hp⟩ := Tree.filed_iff.1 ih
    refine Tree.filed_iff.2 ⟨KeyMap.ownNames_empty, fun n hn => ?_⟩
    exact (QueryCall.has_run hn).elim (hp n) (ihc n)
  | aggregationCall c _ _ ih ihc =>
    obtain ⟨hm, hp⟩ := Tree.filed_iff.1 ih
    refine Tree.filed_iff.2 ⟨AggregationCall.ownNames_run hm, fun n hn => ?_⟩
    exact (AggregationCall.has_run hn).elim (hp n) (ihc n)
  | scriptCall c _ ih =>
    obtain ⟨-, hp⟩ := Tree.filed_iff.1 ih
    exact Tree.filed_iff.2
      ⟨KeyMap.ownNames_empty, fun n hn => hp n (ScriptCall.has_run hn)⟩
  | lookUp _ hn ih => exact (Tree.filed_iff.1 ih).2 _ hn
  | requestReply c _ hb ih =>
    obtain ⟨name, hb⟩ := RequestCall.aggregation_of_gave hb
    exact (Tree.filed_iff.1 ih).2 _ (.named hb)
  | aggregationReply c _ hb ih =>
    obtain ⟨name, hb⟩ := AggregationCall.child_of_gave hb
    exact (Tree.filed_iff.1 ih).2 _ (.named hb)

/-- **What is looked up or taken out by a name has that name.**  In a reachable tree all named
    aggregations stand under their own names, no calls change the name or the wire type of an
    aggregation, or the wire type or the field of a query, and so an aggregation that a look-up
    or a detachment yields has the name that was asked for. -/
theorem filed_under_own_name :
    (∀ t, Reachable t → t.Filed) ∧
    (∀ (calls : List AggregationCall) a,
      (Run.ofCalls AggregationCall.run calls a).state.name = a.name ∧
      (Run.ofCalls AggregationCall.run calls a).state.wireType = a.wireType) ∧
    (∀ (calls : List QueryCall) q,
      (Run.ofCalls QueryCall.run calls q).state.wireType = q.wireType ∧
      (Run.ofCalls QueryCall.run calls q).state.field = q.field) ∧
    (∀ a name b, Reachable (.node (.aggregation a)) →
      (a.child? name = some b ∨
        ((AggregationCall.detach name).run a).reply = .gave (some b)) → b.name = name) ∧
    ∀ r name b, Reachable (.request r) →
      (r.aggregations.get? name = some b ∨
        ((RequestCall.removeAgg name).run r).reply = .gave (some b)) → b.name = name := by
  refine ⟨fun t h => h.filed, fun calls a => ?_, fun calls q => ?_, fun a name b h hb => ?_,
    fun r name b h hb => ?_⟩
  · exact Run.ofCalls_induction AggregationCall.run
      (I := fun b => b.name = a.name ∧ b.wireType = a.wireType)
      (fun c _ b hb => ⟨(c.name_run b).trans hb.1, (c.wireType_run b).trans hb.2⟩) ⟨rfl, rfl⟩
  · exact Run.ofCalls_induction QueryCall.run
      (I := fun p => p.wireType = q.wireType ∧ p.field = q.field)
      (fun c _ p hp => ⟨(c.wireType_run p).trans hp.1, (c.field_run p).trans hp.2⟩) ⟨rfl, rfl⟩
  · have ha : a.children.OwnNames := (Tree.filed_iff.1 h.filed).1
    exact hb.elim (ha name b) fun hb => ha name b (Reply.gave.inj hb)
  · have hr : r.aggregations.OwnNames := (Tree.filed_iff.1 h.filed).1
    exact hb.elim (hr name b) fun hb => hr name b (Reply.gave.inj hb)

theorem filed_under_own_name_salesByMonth :
    Reachable (.node (.aggregation (.salesByMonth "sales"))) ∧
      (Tree.node (.aggregation (.salesByMonth "sales"))).Filed ∧
      ∃ b, ((AggregationCall.detach "aggs").run (.salesByMonth "sales")).reply = .gave (some b) ∧
        b.name = "aggs" := by
  have h := Aggregation.reachable_salesByMonth "sales"
  have hb : ((AggregationCall.detach "aggs").run (.salesByMonth "sales")).reply =
      .gave (some (NewAggregation.onField .sum "aggs" "price").aggregation) := rfl
  exact ⟨h, filed_under_own_name.1 _ h, _, hb, filed_under_own_name.2.2.2.1 _ _ _ h (Or.inr hb)⟩

end SearchBody
