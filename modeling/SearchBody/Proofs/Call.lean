/-
  Search bodies — what calls change.

  A call on a query, an aggregation or a request leaves it alone, writes one option, or
  changes the metadata or the named aggregations.  Each kind of call has one lemma that
  says so; what calls keep follows from it.

  * `Run.ofCalls_induction`: what every call keeps, a list of calls keeps;
    `Run.ofCalls_simulates`: what every call does to an image, a list of calls does.
  * `SlotWrite.apply_eq`: a write is an insertion into the body; `get?_apply`: the slots of a
    body after it, `contains_apply`: the nodes in it.
  * `Takes`: the nodes among the arguments of a call.
  * `QueryCall.run_cases`, `AggregationCall.run_cases`, `RequestCall.run_cases`: what one
    call does to the state.
-/
import SearchBody.Proofs.Path
import SearchBody.Script
import SearchBody.Query

set_option autoImplicit false

namespace SearchBody

/-! ## Lists of calls -/

/-- **What every call keeps, a list of calls keeps.** -/
theorem Run.ofCalls_induction {σ γ : Type} (call : γ → σ → Outcome σ) {I : σ → Prop}
    {cs : List γ} {s : σ} (step : ∀ c ∈ cs, ∀ s, I s → I (call c s).state) (h : I s) :
    I (Run.ofCalls call cs s).state := by
  induction cs generalizing s with
  | nil => exact h
  | cons c cs ih =>
    have h' : I (call c s).state := step c List.mem_cons_self s h
    exact ih (fun c' hc => step c' (List.mem_cons_of_mem c hc)) h'

/-- **What each call does to a state and to its image, a list of calls does.** -/
theorem Run.ofCalls_simulates {σ γ τ : Type} (call : γ → σ → Outcome σ) {next : τ → γ → τ}
    {R : σ → τ → Prop} (step : ∀ c s t, R s t → R (call c s).state (next t c)) {cs : List γ}
    {s : σ} {t : τ} (h : R s t) : R (Run.ofCalls call cs s).state (cs.foldl next t) := by
  induction cs generalizing s t with
  | nil => exact h
  | cons c cs ih =>
    have h' : R (call c s).state (next t c) := step c s t h
    exact ih h'

/-- More calls go on from where the calls before them stopped. -/
theorem Run.ofCalls_append {σ γ : Type} (call : γ → σ → Outcome σ) (cs ds : List γ) (s : σ) :
    Run.ofCalls call (cs ++ ds) s =
      let first := Run.ofCalls call cs s
      let rest := Run.ofCalls call ds first.state
      ⟨rest.state, first.replies ++ rest.replies, first.log ++ rest.log⟩ := by
  induction cs generalizing s with
  | nil => rfl
  | cons c cs ih => simp only [List.cons_append, Run.ofCalls, ih, List.append_assoc]

theorem Run.state_ofCalls_concat {σ γ : Type} (call : γ → σ → Outcome σ) (c : γ)
    (cs : List γ) (s : σ) :
    (Run.ofCalls call (cs ++ [c]) s).state = (call c (Run.ofCalls call cs s).state).state := by
  rw [Run.ofCalls_append]
  rfl

/-- Each call answers to the state that the calls before it left. -/
theorem Run.getElem?_replies_ofCalls {σ γ : Type} (call : γ → σ → Outcome σ) (cs : List γ) (s : σ)
    (i : Nat) :
    (Run.ofCalls call cs s).replies[i]? =
      cs[i]?.map fun c => (call c (Run.ofCalls call (cs.take i) s).state).reply := by
  induction cs generalizing s i with
  | nil => rfl
  | cons c cs ih =>
    cases i with
    | zero => rfl
    | succ i => exact ih (call c s).state i

/-! ## Checked arguments -/

namespace Element

theorem query?_cases (e : Element) :
    (∃ q, e = .node (.query q)) ∨ e.query? = .error ⟨.query, e.kind⟩ := by
  unfold query?
  split
  · next q => exact Or.inl ⟨q, rfl⟩
  · exact Or.inr rfl

theorem aggregation?_cases (e : Element) :
    (∃ a, e = .node (.aggregation a)) ∨ e.aggregation? = .error ⟨.aggregation, e.kind⟩ := by
  unfold aggregation?
  split
  · next a => exact Or.inl ⟨a, rfl⟩
  · exact Or.inr rfl

theorem script?_cases (e : Element) :
    (∃ s, e = .node (.script s)) ∨ e.script? = .error ⟨.script, e.kind⟩ := by
  unfold script?
  split
  · next s => exact Or.inl ⟨s, rfl⟩
  · exact Or.inr rfl

end Element

/-- A call on a checked argument gives what the call gives that was checked for. -/
theorem Outcome.gave_of_guarded {σ α : Type} {s : σ} {arg : Except TypeMismatch α}
    {call : α → Outcome σ} {b : Option Aggregation}
    (h : (guarded s arg call).reply = .gave b) : ∃ v, (call v).reply = .gave b := by
  cases arg with
  | ok v => exact ⟨v, h⟩
  | error m => cases h

/-! ## Writes -/

namespace SlotWrite

/-- The slot that a write goes to. -/
def key : SlotWrite → String
  | set key _ | push key _ | setEntry key _ _ => key

/-- The value that a write brings along. -/
def value : SlotWrite → OptionValue
  | set _ v | push _ v | setEntry _ _ v => v

/-- What the slot of a write holds after it. -/
def filled : SlotWrite → Option OptionValue → OptionValue
  | set _ v, _ => v
  | push _ v, slot => .pushed slot v
  | setEntry _ entry v, slot => .withEntry slot entry v

theorem apply_eq (w : SlotWrite) (b : Body) :
    w.apply b = b.insert w.key (w.filled (b.get? w.key)) := by
  cases w <;> rfl

/-- A write fills its own slot, and no other. -/
theorem get?_apply (w : SlotWrite) (b : Body) (k : String) :
    (w.apply b).get? k = if k = w.key then some (w.filled (b.get? k)) else b.get? k := by
  rw [apply_eq, KeyMap.get?_insert]
  by_cases e : k = w.key
  · rw [if_pos e, if_pos e, e]
  · rw [if_neg e, if_neg e]

theorem contains_filled {w : SlotWrite} {slot : Option OptionValue} {n : Node}
    (h : (w.filled slot).Contains n) : (∃ v, slot = some v ∧ v.Contains n) ∨ w.value.Contains n := by
  cases w with
  | set key v => exact Or.inr h
  | push key v =>
    simp only [filled, OptionValue.pushed] at h
    split at h
    · simp only [OptionValue.contains_list, List.mem_singleton, exists_eq_left] at h
      exact Or.inr h
    · next items =>
      rw [OptionValue.contains_list] at h
      obtain ⟨u, hu, hn⟩ := h
      rcases List.mem_append.1 hu with hu | hu
      · exact Or.inl ⟨_, rfl, (OptionValue.contains_list _ _).2 ⟨u, hu, hn⟩⟩
      · rw [List.mem_singleton.1 hu] at hn
        exact Or.inr hn
    · next u _ =>
      simp only [OptionValue.contains_list, List.mem_cons, List.not_mem_nil, or_false,
        exists_eq_or_imp, exists_eq_left] at h
      exact h.imp (fun h => ⟨u, rfl, h⟩) id
  | setEntry key entry v =>
    simp only [filled, OptionValue.withEntry] at h
    split at h
    · next entries =>
      rw [OptionValue.contains_map] at h
      obtain ⟨key', u, hu, hn⟩ := h
      rw [KeyMap.get?_insert] at hu
      split at hu
      · cases hu
        exact Or.inr hn
      · exact Or.inl ⟨_, rfl, (OptionValue.contains_map _ _).2 ⟨key', u, hu, hn⟩⟩
    · simp only [OptionValue.contains_map, KeyMap.get?_single] at h
      obtain ⟨key', u, hu, hn⟩ := h
      split at hu
      · cases hu
        exact Or.inr hn
      · cases hu

/-- The nodes in a body after a write were there before, or came with the write. -/
theorem contains_apply {w : SlotWrite} {b : Body} {n : Node}
    (h : (OptionValue.map (w.apply b)).Contains n) :
    (OptionValue.map b).Contains n ∨ w.value.Contains n := by
  rw [OptionValue.contains_map] at h
  obtain ⟨key, v, hv, hn⟩ := h
  rw [get?_apply] at hv
  split at hv
  · cases hv
    refine (contains_filled hn).imp (fun h => ?_) id
    obtain ⟨u, hu, hn⟩ := h
    exact (OptionValue.contains_map _ _).2 ⟨_, u, hu, hn⟩
  · exact Or.inl ((OptionValue.contains_map _ _).2 ⟨key, v, hv, hn⟩)

end SlotWrite

/-! ## Calls on queries -/

namespace QueryCall

/-- The nodes among the arguments of a call. -/
def Takes : QueryCall → Node → Prop
  | set s, n => s.stored.Contains n
  | clause _ q, n => n = .query q
  | tryClause _ e, n | tryFilter e, n => e = .node n
  | write w, n => w.value.Contains n

/-- **A call on a query writes one option, or leaves the query alone.** -/
theorem run_cases (c : QueryCall) (q : Query) :
    (c.run q).state = q ∨
      ∃ w : SlotWrite, (c.run q).state = q.write w ∧ ∀ n, w.value.Contains n → c.Takes n := by
  cases c with
  | set s => exact Or.inr ⟨.set s.key s.stored, rfl, fun _ h => h⟩
  | clause occur d =>
    exact Or.inr ⟨.push occur.key (.query d), rfl, fun _ h => (OptionValue.contains_node _ _).1 h⟩
  | tryClause occur e =>
    rcases e.query?_cases with ⟨d, rfl⟩ | h
    · refine Or.inr ⟨.push occur.key (.query d), rfl, fun n hn => ?_⟩
      rw [Takes, (OptionValue.contains_node _ _).1 hn]
    · exact Or.inl (by rw [run, h]; rfl)
  | tryFilter e =>
    rcases e.query?_cases with ⟨d, rfl⟩ | h
    · refine Or.inr ⟨.set "filter" (.query d), rfl, fun n hn => ?_⟩
      rw [Takes, (OptionValue.contains_node _ _).1 hn]
    · exact Or.inl (by rw [run, h]; rfl)
  | write w => exact Or.inr ⟨w, rfl, fun _ h => h⟩

/-- No call changes the wire type or the field. -/
theorem wireType_run (c : QueryCall) (q : Query) : (c.run q).state.wireType = q.wireType := by
  rcases c.run_cases q with e | ⟨w, e, -⟩
  · rw [e]
  · rw [e, Query.write]

theorem field_run (c : QueryCall) (q : Query) : (c.run q).state.field = q.field := by
  rcases c.run_cases q with e | ⟨w, e, -⟩
  · rw [e]
  · rw [e, Query.write]

end QueryCall

/-- The nodes that a new query takes over. -/
def NewQuery.Takes : NewQuery → Node → Prop
  | constantScore filter, n => n = .query filter
  | _, _ => False

theorem NewQuery.takes_of_contains {s : NewQuery} {n : Node}
    (h : (OptionValue.map s.query.body).Contains n) : s.Takes n := by
  have hs : ∀ (b : Body) key v, (OptionValue.map (b.set key v)).Contains n →
      (OptionValue.map b).Contains n ∨ v.Contains n :=
    fun b key v h => SlotWrite.contains_apply (w := .set key v) h
  have he : ¬ (OptionValue.map .empty).Contains n := by simp
  cases s with
  | constantScore filter =>
    rcases hs _ _ _ h with h | h
    · exact absurd h he
    · exact (OptionValue.contains_node _ _).1 h
  | term | matching | hasField =>
    rcases hs _ _ _ h with h | h
    · exact absurd h he
    · exact absurd h (OptionValue.contains_scalar _ _)
  | ofType | onField | matchAll | range | bool => exact absurd h he

/-! ## Calls on scripts -/

/-- A script takes no nodes, neither when it starts nor later. -/
theorem NewScript.not_contains (s : NewScript) (n : Node) :
    ¬ (OptionValue.map s.script.body).Contains n := by
  rw [OptionValue.contains_map]
  rintro ⟨key, v, hv, hn⟩
  cases s with
  | inline source | stored id =>
    simp only [NewScript.script, Script.inline, Script.stored, KeyMap.get?_single] at hv
    split at hv
    · cases hv
      exact OptionValue.contains_scalar _ _ hn
    · cases hv

namespace ScriptCall

/-- **A call on a script writes one option**, with no node in it that was not there before. -/
theorem run_eq (c : ScriptCall) (s : Script) :
    ∃ key v, (c.run s).state = s.set key v ∧
      ∀ n, v.Contains n → (OptionValue.map s.body).Contains n := by
  cases c with
  | lang name => exact ⟨_, _, rfl, fun n h => absurd h (OptionValue.contains_scalar _ n)⟩
  | params v => exact ⟨_, _, rfl, fun n h => absurd h (OptionValue.contains_scalar _ n)⟩
  | param key v =>
    refine ⟨_, _, rfl, fun n h => ?_⟩
    rcases SlotWrite.contains_filled (w := .setEntry "params" key (.scalar v)) h with
      ⟨u, hu, hn⟩ | h
    · rw [OptionValue.contains_map]
      unfold Script.openParams at hu
      split at hu
      · next entries _ =>
        cases hu
        rw [OptionValue.contains_map] at hn
        obtain ⟨key', w, hw, hn⟩ := hn
        rw [KeyMap.get?_map] at hw
        obtain ⟨j, -, rfl⟩ := Option.map_eq_some_iff.1 hw
        exact absurd hn (OptionValue.contains_scalar _ n)
      · exact ⟨_, u, hu, hn⟩
    · exact absurd h (OptionValue.contains_scalar _ n)

end ScriptCall

/-! ## Named aggregations -/

namespace Aggregations

variable {owner name : String} {b : Aggregation}

theorem get?_attach {a : Aggregation} {m : Aggregations}
    (h : (attach owner a m).state.get? name = some b) :
    m.get? name = some b ∨ (b.name = name ∧ b = a) := by
  rw [attach, KeyMap.get?_insert] at h
  split at h
  · next e =>
    cases h
    exact Or.inr ⟨e.symm, rfl⟩
  · exact Or.inl h

theorem get?_attachAll {as : List Aggregation} {m : Aggregations}
    (h : (attachAll owner as m).state.get? name = some b) :
    m.get? name = some b ∨ (b.name = name ∧ b ∈ as) := by
  induction as generalizing m with
  | nil => exact Or.inl h
  | cons a as ih =>
    rcases ih h with h | ⟨e, h⟩
    · rcases get?_attach h with h | ⟨e, rfl⟩
      · exact Or.inl h
      · exact Or.inr ⟨e, List.mem_cons_self⟩
    · exact Or.inr ⟨e, List.mem_cons_of_mem _ h⟩

@[simp] theorem reply_attachAll (as : List Aggregation) (m : Aggregations) :
    (attachAll owner as m).reply = .done := by
  cases as <;> rfl

theorem get?_detach {name' : String} {m : Aggregations}
    (h : (detach name' m).state.get? name = some b) : m.get? name = some b := by
  rw [detach, KeyMap.get?_erase] at h
  split at h
  · cases h
  · exact h

end Aggregations

/-! ## Calls on aggregations -/

namespace AggregationCall

/-- The nodes among the arguments of a call. -/
def Takes : AggregationCall → Node → Prop
  | set s, n => s.stored.Contains n
  | filter _ q, n => n = .query q
  | tryScript e, n | tryFilter _ e, n | tryAgg e, n => e = .node n
  | agg c, n | attach c, n => n = .aggregation c
  | aggs cs, n => ∃ c ∈ cs, n = .aggregation c
  | write w, n => w.value.Contains n
  | metadata _, _ | detach _, _ => False

/-- **A call on an aggregation writes one option, replaces the metadata, changes the children,
    or leaves the aggregation alone.**  A child that is new came with the call and stands under
    its own name. -/
theorem run_cases (c : AggregationCall) (a : Aggregation) :
    (c.run a).state = a ∨
      (∃ w : SlotWrite, (c.run a).state = a.write w ∧ ∀ n, w.value.Contains n → c.Takes n) ∨
      (∃ v, (c.run a).state = a.setMetadata v) ∨
      ∃ m, (c.run a).state = { a with children := m } ∧ ∀ name b, m.get? name = some b →
        a.children.get? name = some b ∨ (b.name = name ∧ c.Takes (.aggregation b)) := by
  cases c with
  | set s => exact Or.inr (Or.inl ⟨.set s.key s.stored, rfl, fun _ h => h⟩)
  | tryScript e =>
    rcases e.script?_cases with ⟨s, rfl⟩ | h
    · refine Or.inr (Or.inl ⟨.set "script" (.script s), rfl, fun n hn => ?_⟩)
      rw [Takes, (OptionValue.contains_node _ _).1 hn]
    · exact Or.inl (by rw [run, h]; rfl)
  | filter bucket q =>
    exact Or.inr (Or.inl ⟨.setEntry "filters" bucket (.query q), rfl,
      fun _ h => (OptionValue.contains_node _ _).1 h⟩)
  | tryFilter bucket e =>
    rcases e.query?_cases with ⟨q, rfl⟩ | h
    · refine Or.inr (Or.inl ⟨.setEntry "filters" bucket (.query q), rfl, fun n hn => ?_⟩)
      rw [Takes, (OptionValue.contains_node _ _).1 hn]
    · exact Or.inl (by rw [run, h]; rfl)
  | metadata v => exact Or.inr (Or.inr (Or.inl ⟨v, rfl⟩))
  | agg child =>
    refine Or.inr (Or.inr (Or.inr ⟨_, rfl, fun name b h => ?_⟩))
    exact (Aggregations.get?_attach h).imp id fun ⟨h, e⟩ => ⟨h, by rw [Takes, e]⟩
  | aggs children =>
    refine Or.inr (Or.inr (Or.inr ⟨_, rfl, fun name b h => ?_⟩))
    exact (Aggregations.get?_attachAll h).imp id fun ⟨h, hb⟩ => ⟨h, b, hb, rfl⟩
  | tryAgg e =>
    rcases e.aggregation?_cases with ⟨child, rfl⟩ | h
    · refine Or.inr (Or.inr (Or.inr ⟨_, rfl, fun name b hb => ?_⟩))
      exact (Aggregations.get?_attach hb).imp id fun ⟨h, e⟩ => ⟨h, by rw [Takes, e]⟩
    · exact Or.inl (by rw [run, h]; rfl)
  | attach child =>
    refine Or.inr (Or.inr (Or.inr ⟨_, rfl, fun name b h => ?_⟩))
    exact (Aggregations.get?_attach h).imp id fun ⟨h, e⟩ => ⟨h, by rw [Takes, e]⟩
  | detach name' =>
    exact Or.inr (Or.inr (Or.inr ⟨_, rfl, fun name b h => Or.inl (Aggregations.get?_detach h)⟩))
  | write w => exact Or.inr (Or.inl ⟨w, rfl, fun _ h => h⟩)

/-- No call changes the name or the wire type. -/
theorem name_run (c : AggregationCall) (a : Aggregation) : (c.run a).state.name = a.name := by
  rcases c.run_cases a with e | ⟨w, e, -⟩ | ⟨v, e⟩ | ⟨m, e, -⟩
  · rw [e]
  · rw [e, Aggregation.write]
  · rw [e, Aggregation.setMetadata]
  · rw [e]

theorem wireType_run (c : AggregationCall) (a : Aggregation) :
    (c.run a).state.wireType = a.wireType := by
  rcases c.run_cases a with e | ⟨w, e, -⟩ | ⟨v, e⟩ | ⟨m, e, -⟩
  · rw [e]
  · rw [e, Aggregation.write]
  · rw [e, Aggregation.setMetadata]
  · rw [e]

theorem child_of_gave {c : AggregationCall} {a b : Aggregation}
    (h : (c.run a).reply = .gave (some b)) : ∃ name, a.children.get? name = some b := by
  cases c with
  | attach child => exact ⟨child.name, Reply.gave.inj h⟩
  | detach name => exact ⟨name, Reply.gave.inj h⟩
  | tryScript e | tryFilter bucket e | tryAgg e =>
    obtain ⟨v, h⟩ := Outcome.gave_of_guarded h
    cases h
  | aggs children =>
    rw [run, Aggregation.attachAll, Outcome.map, Aggregations.reply_attachAll] at h
    cases h
  | set | filter | metadata | agg | write => cases h

end AggregationCall

theorem NewAggregation.not_contains (s : NewAggregation) (n : Node) :
    ¬ (OptionValue.map s.aggregation.body).Contains n := by
  have hs : ∀ (a : Aggregation) key j, ¬ (OptionValue.map a.body).Contains n →
      ¬ (OptionValue.map (a.set key (.scalar j)).body).Contains n := fun a key j ha h => by
    rcases SlotWrite.contains_apply (w := .set key (.scalar j)) h with h | h
    · exact ha h
    · exact OptionValue.contains_scalar _ _ h
  have he : ¬ (OptionValue.map .empty).Contains n := by simp
  cases s with
  | ofType | named => exact he
  | onField => exact hs _ _ _ he
  | histogram | dateHistogram | autoDateHistogram => exact hs _ _ _ (hs _ _ _ he)

/-! ## Calls on requests -/

/-- The options of a request. -/
def SearchRequest.optionKeys : List String :=
  ["query", "post_filter", "size", "from", "sort", "_source", "track_total_hits", "min_score",
    "timeout"]

theorem RequestSetting.key_mem (s : RequestSetting) : s.key ∈ SearchRequest.optionKeys := by
  cases s <;> simp [key, SearchRequest.optionKeys]

namespace RequestCall

/-- The nodes among the arguments of a call. -/
def Takes : RequestCall → Node → Prop
  | set s, n => s.stored.Contains n
  | tryQuery e, n | tryAgg e, n => e = .node n
  | agg a, n => n = .aggregation a
  | aggs as, n => ∃ a ∈ as, n = .aggregation a
  | sort _ _, _ | removeAgg _, _ => False

/-- **A call on a request writes one of its options, changes the aggregations, or leaves the
    request alone.**  An aggregation that is new came with the call and stands under its own
    name. -/
theorem run_cases (c : RequestCall) (r : SearchRequest) :
    (c.run r).state = r ∨
      (∃ w : SlotWrite, (c.run r).state = r.write w ∧ w.key ∈ SearchRequest.optionKeys ∧
        ∀ n, w.value.Contains n → c.Takes n) ∨
      ∃ m, (c.run r).state = { r with aggregations := m } ∧ ∀ name b, m.get? name = some b →
        r.aggregations.get? name = some b ∨ (b.name = name ∧ c.Takes (.aggregation b)) := by
  cases c with
  | set s =>
    exact Or.inr (Or.inl ⟨.set s.key s.stored, rfl, s.key_mem, fun _ h => h⟩)
  | tryQuery e =>
    rcases e.query?_cases with ⟨q, rfl⟩ | h
    · refine Or.inr (Or.inl ⟨.set "query" (.query q), rfl, (RequestSetting.query q).key_mem,
        fun n hn => ?_⟩)
      rw [Takes, (OptionValue.contains_node _ _).1 hn]
    · exact Or.inl (by rw [run, h]; rfl)
  | sort field order =>
    refine Or.inr (Or.inl ⟨.push "sort" (.scalar (SearchRequest.sortClause field order)), rfl,
      ?_, fun n h => absurd h (OptionValue.contains_scalar _ n)⟩)
    simp [SlotWrite.key, SearchRequest.optionKeys]
  | agg a =>
    refine Or.inr (Or.inr ⟨_, rfl, fun name b h => ?_⟩)
    exact (Aggregations.get?_attach h).imp id fun ⟨h, e⟩ => ⟨h, by rw [Takes, e]⟩
  | aggs as =>
    refine Or.inr (Or.inr ⟨_, rfl, fun name b h => ?_⟩)
    exact (Aggregations.get?_attachAll h).imp id fun ⟨h, hb⟩ => ⟨h, b, hb, rfl⟩
  | tryAgg e =>
    rcases e.aggregation?_cases with ⟨a, rfl⟩ | h
    · refine Or.inr (Or.inr ⟨_, rfl, fun name b hb => ?_⟩)
      exact (Aggregations.get?_attach hb).imp id fun ⟨h, e⟩ => ⟨h, by rw [Takes, e]⟩
    · exact Or.inl (by rw [run, h]; rfl)
  | removeAgg name' =>
    exact Or.inr (Or.inr ⟨_, rfl, fun name b h => Or.inl (Aggregations.get?_detach h)⟩)

theorem aggregation_of_gave {c : RequestCall} {r : SearchRequest} {b : Aggregation}
    (h : (c.run r).reply = .gave (some b)) : ∃ name, r.aggregations.get? name = some b := by
  cases c with
  | removeAgg name => exact ⟨name, Reply.gave.inj h⟩
  | tryQuery e | tryAgg e =>
    obtain ⟨v, h⟩ := Outcome.gave_of_guarded h
    cases h
  | aggs as =>
    rw [run, SearchRequest.attachAll, Outcome.map, Aggregations.reply_attachAll] at h
    cases h
  | set | sort | agg => cases h

end RequestCall

end SearchBody
