/-
  Search bodies — many aggregations at once.

  Aggregations that are attached together are attached one after the other.  A name that is
  taken when its turn comes, by an aggregation that was there or by an earlier one of the list,
  is a line in the log; so the lines make up for what the map does not grow.

  * `Aggregations.clashing`: the aggregations of a list whose names are taken.
  * `FiledAll`: the names, the aggregations under them, the lines and their number.
  * `log_attachAll`: the lines, in the order of the list; `size_attachAll`: their number;
    `filed_perm`: aggregations of different names in another order.
  * `Run.ofCalls_filing`: one call after the other, for aggregations and requests alike.
  * `bulk_attachment`: all of this for the calls on aggregations and on requests.
-/
import SearchBody.Config
import SearchBody.Proofs.RequestRun
import SearchBody.Proofs.Restoration

set_option autoImplicit false

namespace SearchBody

theorem KeyMap.contains_insert {α : Type} (m : KeyMap α none) (k k' : String) (v : α) :
    (m.insert k v).contains k' = (decide (k = k') || m.contains k') := by
  unfold contains
  rw [get?_insert]
  by_cases e : k' = k
  · simp [e]
  · simp [e, Ne.symm e]

theorem Event.line_replaced (name owner : String) :
    (Event.replaced name owner).line =
      "DEBUG Sub-aggregation '" ++ name ++ "' replaced under '" ++ owner ++ "'" := by
  have split : "DEBUG Sub-aggregation '" = "DEBUG" ++ " " ++ "Sub-aggregation '" := by decide
  show "DEBUG" ++ " " ++ ("Sub-aggregation '" ++ name ++ "' replaced under '" ++ owner ++ "'") = _
  simp only [split, String.append_assoc]

/-! ## One after the other -/

namespace Aggregations

/-- The aggregations of a list whose names are taken when their turn comes: by one of `m`, or by
    one that stands earlier in the list. -/
def clashing (m : Aggregations) (cs : List Aggregation) : List Aggregation :=
  (cs.zipIdx.filter fun p =>
    m.contains p.1.name || (cs.take p.2).any fun d => d.name = p.1.name).map Prod.fst

/-- The aggregations `m` and those of a list, a later one in place of an earlier one. -/
def filed (m : Aggregations) (cs : List Aggregation) : Aggregations :=
  cs.foldl (fun m c => m.insert c.name c) m

variable {owner : String} {m : Aggregations} {cs ds : List Aggregation}

theorem state_attachAll : (attachAll owner cs m).state = m.filed cs := by
  induction cs generalizing m with
  | nil => rfl
  | cons c cs ih => exact ih

theorem contains_filed (m : Aggregations) (cs : List Aggregation) (name : String) :
    (m.filed cs).contains name = (m.contains name || cs.any fun c => c.name = name) := by
  induction cs generalizing m with
  | nil => simp [filed]
  | cons c cs ih =>
    have hstep : m.filed (c :: cs) = filed (m.insert c.name c) cs := rfl
    rw [hstep, ih, KeyMap.contains_insert, List.any_cons, Bool.or_left_comm, Bool.or_assoc]

theorem ownNames_filed (hm : m.OwnNames) (cs : List Aggregation) : (m.filed cs).OwnNames := by
  intro name c hc
  have hstate : (attachAll "" cs m).state = m.filed cs := state_attachAll
  rw [← hstate] at hc
  rcases get?_attachAll hc with hc | ⟨e, -⟩
  · exact hm name c hc
  · exact e

theorem log_attach (hm : m.OwnNames) (c : Aggregation) :
    (attach owner c m).log = if m.contains c.name then [.replaced c.name owner] else [] := by
  unfold attach KeyMap.contains
  cases h : m.get? c.name with
  | none => rfl
  | some old => simp [Event.replacement, hm c.name old h]

/-- The lines for a list that goes on from the list `pre`. -/
theorem log_attachAll_filed (hm : m.OwnNames) (pre cs : List Aggregation) :
    (attachAll owner cs (m.filed pre)).log =
      (((cs.zipIdx pre.length).filter fun p =>
        m.contains p.1.name || ((pre ++ cs).take p.2).any fun d => d.name = p.1.name).map
          Prod.fst).map fun c => Event.replaced c.name owner := by
  induction cs generalizing pre with
  | nil => rfl
  | cons c cs ih =>
    have hstate : (attach owner c (m.filed pre)).state = m.filed (pre ++ [c]) := by
      simp [attach, filed]
    have hrest := ih (pre ++ [c])
    rw [← hstate, List.append_assoc, List.singleton_append, List.length_append,
      List.length_singleton] at hrest
    have hfirst : (attach owner c (m.filed pre)).log =
        if (m.filed pre).contains c.name then [.replaced c.name owner] else [] :=
      log_attach (ownNames_filed hm pre) c
    rw [contains_filed] at hfirst
    rw [attachAll, hrest, hfirst, List.zipIdx_cons, List.filter_cons]
    simp only [List.take_left]
    split <;> rfl

/-- **The lines are those of the aggregations whose names are taken**, in the order of the
    list. -/
theorem log_attachAll (hm : m.OwnNames) (cs : List Aggregation) :
    (attachAll owner cs m).log = (m.clashing cs).map fun c => .replaced c.name owner :=
  log_attachAll_filed hm [] cs

/-- **Each aggregation makes the map larger or is a line in the log.** -/
theorem size_attachAll (m : Aggregations) (cs : List Aggregation) :
    (attachAll owner cs m).log.length + (attachAll owner cs m).state.size =
      m.size + cs.length := by
  induction cs generalizing m with
  | nil => simp [attachAll, Outcome.done]
  | cons c cs ih =>
    have hrest := ih (attach owner c m).state
    have hfirst : (attach owner c m).state.size + (attach owner c m).log.length = m.size + 1 := by
      have hsize := KeyMap.size_insert m c.name c
      have hlog : (attach owner c m).log.length = (m.get? c.name).toList.length := by
        unfold attach
        cases m.get? c.name <;> rfl
      rw [hlog]
      exact hsize
    simp only [attachAll, List.length_append, List.length_cons]
    omega

/-- **Aggregations of different names can be attached in any order.** -/
theorem filed_perm (h : cs.Perm ds) (hnames : (cs.map Aggregation.name).Nodup) :
    m.filed cs = m.filed ds := by
  refine h.foldl_eq' (fun c hc d hd m => ?_) m
  by_cases e : c.name = d.name
  · rw [List.inj_on_of_nodup_map hnames hc hd e]
  · exact KeyMap.insert_comm e m c d

end Aggregations

/-- What it means that the aggregations `cs` of a list were filed with the aggregations `m` of an
    owner, one after the other. -/
structure FiledAll (owner : String) (m : Aggregations) (cs : List Aggregation)
    (final : Aggregations) (log : List Event) : Prop where
  names (name : String) :
    final.contains name = true ↔ m.contains name = true ∨ ∃ c ∈ cs, c.name = name
  last (name : String) :
    final.get? name = (cs.filter fun c => name = c.name).getLast?.or (m.get? name)
  lines : log.map Event.line = (m.clashing cs).map fun c =>
    "DEBUG Sub-aggregation '" ++ c.name ++ "' replaced under '" ++ owner ++ "'"
  balance : log.length + final.size = m.size + cs.length

theorem Aggregations.filedAll_attachAll {owner : String} {m : Aggregations} (hm : m.OwnNames)
    (cs : List Aggregation) :
    FiledAll owner m cs (attachAll owner cs m).state (attachAll owner cs m).log where
  names name := by
    rw [state_attachAll, contains_filed]
    simp
  last name := by
    rw [get?_attachAll_eq, List.getLast?_map]
    cases (cs.filter fun c => name = c.name).getLast? <;> rfl
  lines := by
    rw [log_attachAll hm, List.map_map]
    exact List.map_congr_left fun c _ => Event.line_replaced c.name owner
  balance := size_attachAll m cs

/-! ## Calls -/

/-- **Calls that attach one aggregation each**, on whatever owns the aggregations, file them one
    after the other. -/
theorem Run.ofCalls_filing {σ γ : Type} (call : γ → σ → Outcome σ) (owner : String)
    (build : Aggregations → σ) (agg : Aggregation → γ)
    (h : ∀ c m, call (agg c) (build m) = ((Aggregations.attach owner c m).map build).silent)
    (cs : List Aggregation) (m : Aggregations) :
    Run.ofCalls call (cs.map agg) (build m) =
      ⟨build (Aggregations.attachAll owner cs m).state, cs.map fun _ => .done,
        (Aggregations.attachAll owner cs m).log⟩ := by
  induction cs generalizing m with
  | nil => rfl
  | cons c cs ih =>
    have hrest := ih (Aggregations.attach owner c m).state
    simp only [List.map_cons, Run.ofCalls, h, Outcome.silent, Outcome.map, hrest]
    rfl

theorem Aggregation.ofCalls_agg (a : Aggregation) (cs : List Aggregation) :
    Run.ofCalls AggregationCall.run (cs.map .agg) a =
      ⟨(a.attachAll cs).state, cs.map fun _ => .done, (a.attachAll cs).log⟩ := by
  have h := Run.ofCalls_filing AggregationCall.run a.name
    (fun m => { a with children := m }) AggregationCall.agg (fun _ _ => rfl) cs a.children
  cases a
  exact h

theorem SearchRequest.ofCalls_agg (r : SearchRequest) (cs : List Aggregation) :
    Run.ofCalls RequestCall.run (cs.map .agg) r =
      ⟨(r.attachAll cs).state, cs.map fun _ => .done, (r.attachAll cs).log⟩ :=
  Run.ofCalls_filing RequestCall.run SearchRequest.owner
    (fun m => { r with aggregations := m }) RequestCall.agg (fun _ _ => rfl) cs r.aggregations

/-- **Many aggregations at once are one after the other.**  Attaching a list of aggregations to
    a reachable aggregation or request does what attaching each of them in turn does, and logs
    the same.  The names are then those that were there and those of the list; each name of the
    list has the last aggregation of that name, every other name what it had.  There is one line
    for each aggregation whose name was there or came earlier in the list, in the order of the
    list, and so as many lines as the map is smaller than both together.  In another order,
    aggregations of different names lead to the same tree and the same text. -/
theorem bulk_attachment :
    (∀ a cs, Reachable (.node (.aggregation a)) →
      let bulk := (AggregationCall.aggs cs).run a
      let each := Run.ofCalls AggregationCall.run (cs.map .agg) a
      each = ⟨bulk.state, cs.map fun _ => .done, bulk.log⟩ ∧ bulk.reply = .done ∧
      bulk.state = { a with children := bulk.state.children } ∧
      FiledAll a.name a.children cs bulk.state.children bulk.log ∧
      ∀ ds, cs.Perm ds → (cs.map Aggregation.name).Nodup →
        ((AggregationCall.aggs ds).run a).state = bulk.state ∧
        ∀ c : Config, c.render ((AggregationCall.aggs ds).run a).state = c.render bulk.state) ∧
    ∀ r cs, Reachable (.request r) →
      let bulk := (RequestCall.aggs cs).run r
      let each := Run.ofCalls RequestCall.run (cs.map .agg) r
      each = ⟨bulk.state, cs.map fun _ => .done, bulk.log⟩ ∧ bulk.reply = .done ∧
      bulk.state = { r with aggregations := bulk.state.aggregations } ∧
      FiledAll "request" r.aggregations cs bulk.state.aggregations bulk.log ∧
      ∀ ds, cs.Perm ds → (cs.map Aggregation.name).Nodup →
        ((RequestCall.aggs ds).run r).state = bulk.state ∧
        ∀ c : Config, c.render ((RequestCall.aggs ds).run r).state = c.render bulk.state := by
  constructor
  · intro a cs ha bulk each
    have hnames : a.children.OwnNames := (Tree.filed_iff.1 ha.filed).1
    refine ⟨a.ofCalls_agg cs, Aggregations.reply_attachAll cs a.children, rfl,
      Aggregations.filedAll_attachAll hnames cs, fun ds h hn => ?_⟩
    have hstate : ((AggregationCall.aggs ds).run a).state = bulk.state := by
      show { a with children := (Aggregations.attachAll a.name ds a.children).state } =
        { a with children := (Aggregations.attachAll a.name cs a.children).state }
      rw [Aggregations.state_attachAll, Aggregations.state_attachAll,
        Aggregations.filed_perm h hn]
    exact ⟨hstate, fun c => by rw [hstate]⟩
  · intro r cs hr bulk each
    have hnames : r.aggregations.OwnNames := (Tree.filed_iff.1 hr.filed).1
    refine ⟨r.ofCalls_agg cs, Aggregations.reply_attachAll cs r.aggregations, rfl,
      Aggregations.filedAll_attachAll hnames cs, fun ds h hn => ?_⟩
    have hstate : ((RequestCall.aggs ds).run r).state = bulk.state := by
      show { r with
          aggregations := (Aggregations.attachAll SearchRequest.owner ds r.aggregations).state } =
        { r with
          aggregations := (Aggregations.attachAll SearchRequest.owner cs r.aggregations).state }
      rw [Aggregations.state_attachAll, Aggregations.state_attachAll,
        Aggregations.filed_perm h hn]
    exact ⟨hstate, fun c => by rw [hstate]⟩

/-- One of the three has the name of a child, one that of another in the list. -/
theorem bulk_attachment_salesByMonth :
    let top := (NewAggregation.named .max "top").aggregation
    let aggs := (NewAggregation.named .min "aggs").aggregation
    let sales := (NewAggregation.named .stats "sales").aggregation
    let a := Aggregation.salesByMonth "sales"
    let r := SearchRequest.salesByMonth
    Reachable (.node (.aggregation a)) ∧ Reachable (.request r) ∧
      ((AggregationCall.aggs [top, aggs, top]).run a).log.map Event.line =
        ["DEBUG Sub-aggregation 'aggs' replaced under 'sales'",
          "DEBUG Sub-aggregation 'top' replaced under 'sales'"] ∧
      ((AggregationCall.aggs [top, aggs, top]).run a).state.children.size = 2 ∧
      [top, sales].Perm [sales, top] ∧ ([top, sales].map Aggregation.name).Nodup ∧
      ((RequestCall.aggs [sales, top]).run r).state =
        ((RequestCall.aggs [top, sales]).run r).state := by
  intro top aggs sales a r
  have ha : Reachable (.node (.aggregation a)) := Aggregation.reachable_salesByMonth "sales"
  have hr : Reachable (.request r) := SearchRequest.reachable_salesByMonth
  obtain ⟨-, -, -, hfiled, -⟩ := bulk_attachment.1 a [top, aggs, top] ha
  obtain ⟨-, -, -, -, hperm⟩ := bulk_attachment.2 r [top, sales] hr
  have hswap : [top, sales].Perm [sales, top] := .swap sales top []
  have hnames : ([top, sales].map Aggregation.name).Nodup := by decide
  have hlines := hfiled.lines
  have hbalance := hfiled.balance
  refine ⟨ha, hr, hlines, ?_, hswap, hnames, (hperm [sales, top] hswap hnames).1⟩
  have hlog : ((AggregationCall.aggs [top, aggs, top]).run a).log.length = 2 :=
    List.length_map Event.line ▸ congrArg List.length hlines
  rw [hlog] at hbalance
  exact Nat.add_left_cancel hbalance

end SearchBody
