/-
  Search bodies — the last write wins.

  Most calls on aggregations and queries store one option.  After any calls an option holds
  what the last accepted call for it stored, and calls for different options do not meet.

  * `Run.last_of_calls`: a slot that every call either leaves alone or overwrites holds the
    last value of the run, `Run.last_of_writes` that of all that was written;
    `Run.list_of_calls`: one that calls push onto holds all values.
  * `writes?`: the option that an accepted call writes, in place of what was there, with key and
    value as the tables of `Written` have them.
  * `option?`, `option`: the option that a call is about, accepted or not; `Overwrites`: the call
    is not one that adds to what is there.
  * `WritesTo`: such a call writes to that option or nothing, whatever the state.
  * `Commute`: two calls that can change places.
  * `NewAggregation.LastWins`, `NewQuery.LastWins`: what a run leaves, option by option;
    `AggregationCall.Confined`, `QueryCall.Confined`: what a call leaves alone; `OptionsApart`:
    options do not share a key.
  * `last_write_wins`: all of this holds.
-/
import SearchBody.Proofs.Call
import SearchBody.Proofs.Written

set_option autoImplicit false

namespace SearchBody

/-! ## Slots of a run -/

section
variable {σ γ α : Type} {call : γ → σ → Outcome σ}

/-- If each call puts some values into a slot, one after the other, the slot ends up with the
    last value of all. -/
theorem Run.last_of_values (slot : σ → α) {f : γ → List α} {cs : List γ}
    (step : ∀ c ∈ cs, ∀ s, slot (call c s).state = (f c).getLast?.getD (slot s)) (s : σ) :
    slot (Run.ofCalls call cs s).state = (cs.flatMap f).getLast?.getD (slot s) := by
  induction cs generalizing s with
  | nil => rfl
  | cons c cs ih =>
    have hc : slot (call c s).state = (f c).getLast?.getD (slot s) :=
      step c List.mem_cons_self s
    have hs : slot (Run.ofCalls call (c :: cs) s).state =
        (cs.flatMap f).getLast?.getD (slot (call c s).state) :=
      ih (fun c' h => step c' (List.mem_cons_of_mem c h)) (call c s).state
    rw [hs, hc, List.flatMap_cons, List.getLast?_append, Option.getD_or]

theorem Run.last_of_calls (slot : σ → Option α) {f : γ → Option α} {cs : List γ}
    (step : ∀ c ∈ cs, ∀ s, slot (call c s).state = (f c).or (slot s)) (s : σ) :
    slot (Run.ofCalls call cs s).state = (cs.filterMap f).getLast?.or (slot s) := by
  have values : ∀ cs : List γ,
      cs.flatMap (fun c => ((f c).map some).toList) = (cs.filterMap f).map some := by
    intro cs
    induction cs with
    | nil => rfl
    | cons c cs ih => cases h : f c <;> simp [h, ih]
  have hv := Run.last_of_values slot (f := fun c => ((f c).map some).toList)
    (fun c hc s => by rw [step c hc s]; cases f c <;> rfl) s
  rw [hv, values, List.getLast?_map]
  cases (cs.filterMap f).getLast? <;> rfl

/-- A slot that each call either leaves alone or writes ends up with the last value written. -/
theorem Run.last_of_writes (slot : σ → Option α) {f : γ → Option (Written α)} {cs : List γ}
    {key : String} (step : ∀ c ∈ cs, ∀ s,
      slot (call c s).state = ((f c).bind (Written.at? key)).or (slot s))
    {s : σ} {ws : List (Written α)} (h : slot s = Written.last? key ws) :
    slot (Run.ofCalls call cs s).state = Written.last? key (ws ++ cs.filterMap f) := by
  rw [Run.last_of_calls slot step, h, Written.last?, Written.last?, List.filterMap_append,
    List.getLast?_append, List.filterMap_filterMap]

/-- A slot with a list of values, which is only there if the list has a value. -/
def listSlot (items : List OptionValue) : Option OptionValue :=
  if items.isEmpty then none else some (.list items)

/-- A push onto such a slot makes its list longer by one. -/
theorem pushed_listSlot (items : List OptionValue) (v : OptionValue) :
    some (.pushed (listSlot items) v) = listSlot (items ++ [v]) := by
  cases items <;> rfl

/-- A push onto such a slot of a body. -/
theorem Body.get?_push_listSlot {b : Body} {key : String} {items : List OptionValue}
    (h : b.get? key = listSlot items) (v : OptionValue) :
    (b.push key v).get? key = listSlot (items ++ [v]) := by
  rw [Body.get?_push, if_pos rfl, h, pushed_listSlot]

theorem Run.list_of_calls (slot : σ → Option OptionValue) {f : γ → Option OptionValue}
    {cs : List γ}
    (step : ∀ c ∈ cs, ∀ s items, slot s = listSlot items →
      slot (call c s).state = listSlot (items ++ (f c).toList))
    {s : σ} {items : List OptionValue} (h : slot s = listSlot items) :
    slot (Run.ofCalls call cs s).state = listSlot (items ++ cs.filterMap f) := by
  induction cs generalizing s items with
  | nil => rw [List.filterMap_nil, List.append_nil]; exact h
  | cons c cs ih =>
    have hc : slot (call c s).state = listSlot (items ++ (f c).toList) :=
      step c List.mem_cons_self s items h
    have hs : slot (Run.ofCalls call (c :: cs) s).state =
        listSlot (items ++ (f c).toList ++ cs.filterMap f) :=
      ih (fun c' hm => step c' (List.mem_cons_of_mem c hm)) hc
    rw [hs, List.append_assoc]
    cases hf : f c <;> simp [hf]

/-- Two calls that can change places: either order leads to the same state, and each call has
    its reply and its lines in both. -/
def Commute (call : γ → σ → Outcome σ) (c d : γ) : Prop :=
  ∀ s, (call d (call c s).state).state = (call c (call d s).state).state ∧
    (call d (call c s).state).reply = (call d s).reply ∧
    (call d (call c s).state).log = (call d s).log ∧
    (call c (call d s).state).reply = (call c s).reply ∧
    (call c (call d s).state).log = (call c s).log

end

/-! ## Calls about one option -/

/-- The call makes one write to the slot `key`, or none; which it is, and the reply and the
    lines, do not depend on the state. -/
def WritesTo {σ γ : Type} (write : σ → SlotWrite → σ) (call : γ → σ → Outcome σ) (c : γ)
    (key : String) : Prop :=
  ∃ (w : Option SlotWrite) (reply : Reply) (log : List Event), (∀ v, w = some v → v.key = key) ∧
    ∀ s, call c s = ⟨(w.map (write s)).getD s, reply, log⟩

namespace WritesTo

variable {σ γ : Type} {write : σ → SlotWrite → σ} {call : γ → σ → Outcome σ} {c d : γ}
  {key key' : String}

theorem of_done (w : SlotWrite) (h : ∀ s, call c s = .done (write s w)) :
    WritesTo write call c w.key := by
  refine ⟨some w, .done, [], ?_, h⟩
  rintro v ⟨⟩
  rfl

theorem of_guarded {α : Type} {arg : Except TypeMismatch α} (w : α → SlotWrite)
    (hw : ∀ v, (w v).key = key)
    (h : ∀ s, call c s = .guarded s arg fun v => .done (write s (w v))) :
    WritesTo write call c key := by
  cases arg with
  | ok v => exact hw v ▸ of_done (w v) h
  | error m => exact ⟨none, .refused m, [.rejected m], by rintro v ⟨⟩, h⟩

theorem state_cases (h : WritesTo write call c key) (s : σ) :
    (call c s).state = s ∨ ∃ w : SlotWrite, w.key = key ∧ (call c s).state = write s w := by
  obtain ⟨w, reply, log, hw, hcall⟩ := h
  rw [hcall]
  cases w with
  | none => exact Or.inl rfl
  | some w => exact Or.inr ⟨w, hw w rfl, rfl⟩

theorem get?_state (body : σ → Body) (hbody : ∀ s w, body (write s w) = w.apply (body s))
    (h : WritesTo write call c key) (s : σ) {k : String} (hk : k ≠ key) :
    (body (call c s).state).get? k = (body s).get? k := by
  rcases h.state_cases s with e | ⟨w, hw, e⟩
  · rw [e]
  · rw [e, hbody, SlotWrite.get?_apply, hw, if_neg hk]

/-- **Calls about different options can change places**, if writes to different slots can. -/
theorem commute (hwrite : ∀ s w v, w.key ≠ v.key → write (write s v) w = write (write s w) v)
    (hc : WritesTo write call c key) (hd : WritesTo write call d key') (hne : key ≠ key') :
    Commute call c d := by
  obtain ⟨w, reply, log, hw, hcall⟩ := hc
  obtain ⟨v, reply', log', hv, hcall'⟩ := hd
  intro s
  simp only [hcall, hcall', and_self, and_true]
  cases w with
  | none => rfl
  | some w =>
    cases v with
    | none => rfl
    | some v =>
      have hk : v.key ≠ w.key := by rw [hw w rfl, hv v rfl]; exact hne.symm
      exact hwrite s v w hk

end WritesTo

theorem SlotWrite.apply_comm {w v : SlotWrite} (h : w.key ≠ v.key) (b : Body) :
    w.apply (v.apply b) = v.apply (w.apply b) := by
  refine KeyMap.ext_get? fun k => ?_
  simp only [get?_apply]
  by_cases hw : k = w.key
  · have hv : k ≠ v.key := fun hv => h (hw.symm.trans hv)
    simp only [if_pos hw, if_neg hv]
  · simp only [if_neg hw]

theorem Body.get?_set_or (b : Body) (k key : String) (v : OptionValue) :
    (b.set k v).get? key = (if key = k then some v else none).or (b.get? key) := by
  rw [Body.get?_set]
  split <;> rfl

/-! ## Calls on aggregations -/

namespace AggregationCall

/-- The option that an accepted call writes. -/
def writes? : AggregationCall → Option (Written OptionValue)
  | .set s => some s.written
  | .tryScript (.node (.script s)) => some ⟨"script", .node (.script s)⟩
  | .write (.set key v) => some ⟨key, v⟩
  | _ => none

/-- The metadata that a call sets. -/
def metadata? : AggregationCall → Option Json
  | .metadata v => some v
  | _ => none

/-- The option that a call is about. -/
def option? : AggregationCall → Option String
  | .set s => some s.written.key
  | .tryScript _ => some "script"
  | .filter .. | .tryFilter .. => some "filters"
  | .write w => some w.key
  | _ => none

/-- The call adds nothing to what an option holds: at most it takes its place. -/
def Overwrites : AggregationCall → Prop
  | .filter .. | .tryFilter .. | .write (.push ..) | .write (.setEntry ..) => False
  | _ => True

/-- The calls of a known kind: those that it takes, without the plain writes. -/
def IsOwn (kind : AggregationKind) (c : AggregationCall) : Prop :=
  c.isOffered (some kind) = true ∧ ∀ w, c ≠ .write w

theorem writesTo {c : AggregationCall} {key : String} (h : c.option? = some key) :
    WritesTo Aggregation.write AggregationCall.run c key := by
  cases c with
  | set s =>
    cases h
    rw [s.written_eq]
    exact .of_done (.set s.key s.stored) fun _ => rfl
  | tryScript e =>
    cases h
    exact .of_guarded (fun s => .set "script" (.script s)) (fun _ => rfl) fun _ => rfl
  | filter bucket q =>
    cases h
    exact .of_done (.setEntry "filters" bucket (.query q)) fun _ => rfl
  | tryFilter bucket e =>
    cases h
    exact .of_guarded (fun q => .setEntry "filters" bucket (.query q)) (fun _ => rfl) fun _ => rfl
  | write w =>
    cases h
    exact .of_done w fun _ => rfl
  | metadata | agg | aggs | tryAgg | attach | detach => cases h

theorem body_run_of_no_option {c : AggregationCall} (h : c.option? = none) (a : Aggregation) :
    (c.run a).state.body = a.body := by
  cases c with
  | tryAgg e =>
    rcases e.aggregation?_cases with ⟨child, rfl⟩ | he
    · rfl
    · rw [run, he]
      rfl
  | set | tryScript | filter | tryFilter | write => cases h
  | metadata | agg | aggs | attach | detach => rfl

/-- **A call about an option leaves everything else of the aggregation alone.** -/
theorem frame_run {c : AggregationCall} {key : String} (h : c.option? = some key)
    (a : Aggregation) :
    (c.run a).state = { a with body := (c.run a).state.body } ∧
      ∀ k, k ≠ key → (c.run a).state.body.get? k = a.body.get? k := by
  refine ⟨?_, fun k hk => (writesTo h).get?_state Aggregation.body (fun _ _ => rfl) a hk⟩
  rcases (writesTo h).state_cases a with e | ⟨w, -, e⟩
  · rw [e]
    cases a
    rfl
  · rw [e]
    rfl

theorem commute_run {c d : AggregationCall} {key key' : String} (hc : c.option? = some key)
    (hd : d.option? = some key') (hne : key ≠ key') : Commute AggregationCall.run c d := by
  refine (writesTo hc).commute (fun a w v h => ?_) (writesTo hd) hne
  simp only [Aggregation.write, SlotWrite.apply_comm h]

/-- What one call does to the slot of an option, unless it adds to what is there. -/
theorem get?_run {c : AggregationCall} {key : String} (hc : c.option? = some key → c.Overwrites)
    (a : Aggregation) :
    (c.run a).state.body.get? key = (c.writes?.bind (Written.at? key)).or (a.body.get? key) := by
  -- a call that adds to an option is about another one
  have hskip : ∀ k, c.option? = some k → c.writes? = none → ¬ c.Overwrites →
      (c.run a).state.body.get? key = (c.writes?.bind (Written.at? key)).or (a.body.get? key) := by
    intro k ho hw hadds
    have hne : key ≠ k := fun e => hadds (hc (e ▸ ho))
    rw [(frame_run ho a).2 key hne, hw]
    rfl
  cases c with
  | set s =>
    rw [writes?, s.written_eq]
    exact Body.get?_set_or a.body s.key key s.stored
  | tryScript e =>
    rcases e.script?_cases with ⟨s, rfl⟩ | he
    · exact Body.get?_set_or a.body "script" key (.script s)
    · have hs : (tryScript e).writes? = none := by
        match e, he with
        | .scalar _, _ | .node (.query _), _ | .node (.aggregation _), _ => rfl
      rw [hs, run, he]
      rfl
  | filter bucket q => exact hskip "filters" rfl rfl id
  | tryFilter bucket e => exact hskip "filters" rfl rfl id
  | write w =>
    cases w with
    | set k v => exact Body.get?_set_or a.body k key v
    | push k v | setEntry k e v => exact hskip k rfl rfl id
  | metadata | agg | aggs | tryAgg | attach | detach =>
    rw [body_run_of_no_option rfl]
    rfl

theorem metadata_run (c : AggregationCall) (a : Aggregation) :
    (c.run a).state.metadata = c.metadata?.or a.metadata := by
  cases ho : c.option? with
  | some key =>
    rw [(frame_run ho a).1]
    cases c with
    | metadata => cases ho
    | _ => rfl
  | none =>
    cases c with
    | tryAgg e =>
      rcases e.aggregation?_cases with ⟨child, rfl⟩ | he
      · rfl
      · rw [run, he]
        rfl
    | set | tryScript | filter | tryFilter | write => cases ho
    | metadata | agg | aggs | attach | detach => rfl

end AggregationCall

/-! ## Starts of aggregations -/

namespace NewAggregation

variable {n : NewAggregation} {kind : AggregationKind}

theorem bare_eq (h : n.kind = some kind) :
    n.bare = (NewAggregation.named kind n.bare.name).aggregation := by
  cases n with
  | ofType => cases h
  | _ => cases h; rfl

/-- The values that a start brings along are stored by the calls that set them. -/
theorem ofCalls_settings (n : NewAggregation) :
    Run.ofCalls AggregationCall.run (n.settings.map .set) n.bare =
      ⟨n.aggregation, n.settings.map fun _ => .done, []⟩ := by
  cases n <;> rfl

theorem get?_start (n : NewAggregation) (key : String) :
    n.aggregation.body.get? key = Written.last? key n.written := by
  have hset : ∀ c ∈ n.settings.map AggregationCall.set, ∀ a : Aggregation,
      (c.run a).state.body.get? key =
        (c.writes?.bind (Written.at? key)).or (a.body.get? key) := by
    intro c hc a
    obtain ⟨s, -, rfl⟩ := List.mem_map.1 hc
    have hover : (AggregationCall.set s).Overwrites := trivial
    exact AggregationCall.get?_run (fun _ => hover) a
  have hbare : n.bare.body.get? key = Written.last? key [] := by cases n <;> rfl
  have hlast := Run.last_of_writes (fun a : Aggregation => a.body.get? key) hset hbare
  have hwrites : (n.settings.map AggregationCall.set).filterMap AggregationCall.writes? =
      n.written := by
    rw [List.filterMap_map, ← n.written_settings, ← List.filterMap_eq_map]
    rfl
  rw [ofCalls_settings, hwrites] at hlast
  exact hlast

theorem name_start (n : NewAggregation) : n.aggregation.name = n.bare.name := by
  cases n <;> rfl

theorem metadata_start (n : NewAggregation) : n.aggregation.metadata = none := by
  cases n <;> rfl

end NewAggregation

/-! ## Calls on queries -/

namespace QueryCall

/-- The option that an accepted call writes. -/
def writes? : QueryCall → Option (Written OptionValue)
  | .set s => some s.written
  | .tryFilter (.node (.query q)) => some ⟨"filter", .node (.query q)⟩
  | .write (.set key v) => some ⟨key, v⟩
  | _ => none

/-- The option that a call is about. -/
def option : QueryCall → String
  | .set s => s.written.key
  | .clause occur _ | .tryClause occur _ => occur.spelling
  | .tryFilter _ => "filter"
  | .write w => w.key

/-- The call adds nothing to what its option holds: at most it takes its place. -/
def Overwrites : QueryCall → Prop
  | .clause .. | .tryClause .. | .write (.push ..) | .write (.setEntry ..) => False
  | _ => True

/-- The calls of a known kind: those that it takes, without the plain writes. -/
def IsOwn (kind : QueryKind) (c : QueryCall) : Prop :=
  c.isOffered (some kind) = true ∧ ∀ w, c ≠ .write w

theorem writesTo (c : QueryCall) : WritesTo Query.write QueryCall.run c c.option := by
  cases c with
  | set s =>
    rw [option, s.written_eq]
    exact .of_done (.set s.key s.stored) fun _ => rfl
  | clause occur d =>
    rw [option, occur.spelling_eq]
    exact .of_done (.push occur.key (.query d)) fun _ => rfl
  | tryClause occur e =>
    rw [option, occur.spelling_eq]
    exact .of_guarded (fun d => .push occur.key (.query d)) (fun _ => rfl) fun _ => rfl
  | tryFilter e => exact .of_guarded (fun d => .set "filter" (.query d)) (fun _ => rfl) fun _ => rfl
  | write w => exact .of_done w fun _ => rfl

/-- **A call on a query leaves everything but its option alone.** -/
theorem frame_run (c : QueryCall) (q : Query) :
    (c.run q).state = { q with body := (c.run q).state.body } ∧
      ∀ k, k ≠ c.option → (c.run q).state.body.get? k = q.body.get? k := by
  refine ⟨?_, fun k hk => c.writesTo.get?_state Query.body (fun _ _ => rfl) q hk⟩
  rcases c.writesTo.state_cases q with e | ⟨w, -, e⟩
  · rw [e]
    cases q
    rfl
  · rw [e]
    rfl

theorem commute_run {c d : QueryCall} (hne : c.option ≠ d.option) : Commute QueryCall.run c d := by
  refine c.writesTo.commute (fun q w v h => ?_) d.writesTo hne
  simp only [Query.write, SlotWrite.apply_comm h]

/-- What one call does to the slot of an option, unless it adds to what is there. -/
theorem get?_run {c : QueryCall} {key : String} (hc : c.option = key → c.Overwrites) (q : Query) :
    (c.run q).state.body.get? key = (c.writes?.bind (Written.at? key)).or (q.body.get? key) := by
  have hskip : c.writes? = none → ¬ c.Overwrites →
      (c.run q).state.body.get? key = (c.writes?.bind (Written.at? key)).or (q.body.get? key) := by
    intro hw hadds
    have hne : key ≠ c.option := fun e => hadds (hc e.symm)
    rw [(c.frame_run q).2 key hne, hw]
    rfl
  cases c with
  | set s =>
    rw [writes?, s.written_eq]
    exact Body.get?_set_or q.body s.key key s.stored
  | clause occur d => exact hskip rfl id
  | tryClause occur e => exact hskip rfl id
  | tryFilter e =>
    rcases e.query?_cases with ⟨d, rfl⟩ | he
    · exact Body.get?_set_or q.body "filter" key (.query d)
    · have hs : (tryFilter e).writes? = none := by
        match e, he with
        | .scalar _, _ | .node (.script _), _ | .node (.aggregation _), _ => rfl
      rw [hs, run, he]
      rfl
  | write w =>
    cases w with
    | set k v => exact Body.get?_set_or q.body k key v
    | push k v | setEntry k e v => exact hskip rfl id

end QueryCall

theorem QuerySetting.key_ne_spelling {s : QuerySetting} (h : (QueryCall.set s).IsOwn .bool)
    (occur : Occur) : s.written.key ≠ occur.spelling := by
  have hs : s.key ∈ Query.commonOptions ++ QueryKind.bool.options := of_decide_eq_true h.1
  intro e
  rw [s.written_eq] at e
  rw [show s.key = occur.spelling from e] at hs
  cases occur <;> simp [Query.commonOptions, QueryKind.options, Occur.spelling] at hs

/-! ## Starts of queries -/

namespace NewQuery

theorem get?_start (n : NewQuery) (key : String) :
    n.query.body.get? key = Written.last? key n.written := by
  have hone : ∀ w : Written OptionValue, (Body.set .empty w.key w.value).get? key =
      Written.last? key [w] := by
    intro w
    have hat : (Body.set .empty w.key w.value).get? key = w.at? key := by
      rw [Body.get?_set_or, KeyMap.get?_empty, Option.or_none, Written.at?]
    rw [hat, Written.last?]
    cases h : w.at? key <;> simp [h]
  cases n with
  | term field v => exact hone ⟨"value", .scalar v⟩
  | matching field text => exact hone ⟨"query", .text text⟩
  | hasField field => exact hone ⟨"field", .text field⟩
  | constantScore filter => exact hone ⟨"filter", .query filter⟩
  | ofType | onField | matchAll | range | bool => rfl

end NewQuery

/-! ## Runs -/

/-- What a start and a run of calls leave of an aggregation, option by option. -/
structure NewAggregation.LastWins (n : NewAggregation) (calls : List AggregationCall) : Prop where
  /-- an option that no call adds to holds what was written last, and nothing if nothing was -/
  slot : ∀ key, (∀ c ∈ calls, c.option? = some key → c.Overwrites) →
    (Run.ofCalls AggregationCall.run calls n.aggregation).state.body.get? key =
      Written.last? key (n.written ++ calls.filterMap AggregationCall.writes?)
  /-- the metadata are those of the last call that sets them -/
  metadata : (Run.ofCalls AggregationCall.run calls n.aggregation).state.metadata =
    (calls.filterMap AggregationCall.metadata?).getLast?
  name : (Run.ofCalls AggregationCall.run calls n.aggregation).state.name = n.aggregation.name
  wireType :
    (Run.ofCalls AggregationCall.run calls n.aggregation).state.wireType = n.aggregation.wireType
  /-- the options of the start are those of the calls that set them -/
  settings : n.settings.map AggregationSetting.written = n.written
  /-- a start with options is one without, followed by the calls that set them -/
  shorthand : ∀ kind, n.kind = some kind →
    Run.ofCalls AggregationCall.run (n.settings.map .set ++ calls)
        (NewAggregation.named kind n.aggregation.name).aggregation =
      let r := Run.ofCalls AggregationCall.run calls n.aggregation
      ⟨r.state, n.settings.map (fun _ => .done) ++ r.replies, r.log⟩

/-- What a start and a run of calls leave of a query, option by option. -/
structure NewQuery.LastWins (n : NewQuery) (calls : List QueryCall) : Prop where
  /-- an option that no call adds to holds what was written last, and nothing if nothing was -/
  slot : ∀ key, (∀ c ∈ calls, c.option = key → c.Overwrites) →
    (Run.ofCalls QueryCall.run calls n.query).state.body.get? key =
      Written.last? key (n.written ++ calls.filterMap QueryCall.writes?)
  wireType : (Run.ofCalls QueryCall.run calls n.query).state.wireType = n.query.wireType
  field : (Run.ofCalls QueryCall.run calls n.query).state.field = n.query.field

/-- What a call leaves alone: everything but the option that it is about. -/
structure AggregationCall.Confined (c : AggregationCall) : Prop where
  /-- a call about an option changes the body at most, and there the one slot -/
  frame : ∀ key, c.option? = some key → ∀ a,
    (c.run a).state = { a with body := (c.run a).state.body } ∧
      ∀ k, k ≠ key → (c.run a).state.body.get? k = a.body.get? k
  /-- any other call changes no option -/
  body : c.option? = none → ∀ a, (c.run a).state.body = a.body
  /-- calls about different options can change places -/
  commutes : ∀ (d : AggregationCall) (key key' : String), c.option? = some key →
    d.option? = some key' → key ≠ key' → Commute AggregationCall.run c d

/-- What a call leaves alone: everything but the option that it is about. -/
structure QueryCall.Confined (c : QueryCall) : Prop where
  frame : ∀ q, (c.run q).state = { q with body := (c.run q).state.body } ∧
    ∀ k, k ≠ c.option → (c.run q).state.body.get? k = q.body.get? k
  commutes : ∀ d : QueryCall, c.option ≠ d.option → Commute QueryCall.run c d

/-- Each option has a key of its own, and all but two sorts of options are only overwritten. -/
structure OptionsApart : Prop where
  aggregation : ∀ s t : AggregationSetting, s.written.key = t.written.key → s.ctorIdx = t.ctorIdx
  query : ∀ s t : QuerySetting, s.written.key = t.written.key → s.ctorIdx = t.ctorIdx
  /-- of the calls of a known aggregation only those for named filters add to an option -/
  overwrites : ∀ (kind : AggregationKind) (c : AggregationCall), c.IsOwn kind →
    c.Overwrites ∨ kind = .filters ∧ c.option? = some "filters"
  /-- no setter writes the option of named filters -/
  filters : ∀ s : AggregationSetting, s.written.key ≠ "filters"
  /-- of the calls of a known query only clauses of a combination add to an option -/
  overwritesQuery : ∀ (kind : QueryKind) (c : QueryCall), c.IsOwn kind →
    c.Overwrites ∨ kind = .bool ∧ ∃ occur : Occur, c.option = occur.spelling
  /-- no setter of a combination writes the option of an occurrence -/
  clauses : ∀ (s : QuerySetting) (occur : Occur), (QueryCall.set s).IsOwn .bool →
    s.written.key ≠ occur.spelling
  /-- a call that checks its argument is about the option of the call that does not -/
  tryScript : ∀ e s, (AggregationCall.tryScript e).option? = (AggregationCall.set (.script s)).option?
  tryFilter : ∀ bucket e q,
    (AggregationCall.tryFilter bucket e).option? = (AggregationCall.filter bucket q).option?
  tryFilterQuery : ∀ e q, (QueryCall.tryFilter e).option = (QueryCall.set (.filter q)).option
  tryClause : ∀ occur e q, (QueryCall.tryClause occur e).option = (QueryCall.clause occur q).option

theorem NewAggregation.lastWins (n : NewAggregation) (calls : List AggregationCall) :
    n.LastWins calls where
  slot key hkey := Run.last_of_writes (fun a : Aggregation => a.body.get? key)
    (fun c h a => AggregationCall.get?_run (hkey c h) a) (n.get?_start key)
  metadata := by
    have hlast := Run.last_of_calls Aggregation.metadata
      (fun c (_ : c ∈ calls) a => c.metadata_run a) n.aggregation
    rw [hlast, n.metadata_start, Option.or_none]
  name := Run.ofCalls_induction AggregationCall.run (I := fun a => a.name = n.aggregation.name)
    (fun c _ a h => (c.name_run a).trans h) rfl
  wireType := Run.ofCalls_induction AggregationCall.run
    (I := fun a => a.wireType = n.aggregation.wireType)
    (fun c _ a h => (c.wireType_run a).trans h) rfl
  settings := n.written_settings
  shorthand kind hn := by
    rw [Run.ofCalls_append, n.name_start, ← n.bare_eq hn, n.ofCalls_settings]
    rfl

theorem NewQuery.lastWins (n : NewQuery) (calls : List QueryCall) : n.LastWins calls where
  slot key hkey := Run.last_of_writes (fun q : Query => q.body.get? key)
    (fun c h q => QueryCall.get?_run (hkey c h) q) (n.get?_start key)
  wireType := Run.ofCalls_induction QueryCall.run (I := fun q => q.wireType = n.query.wireType)
    (fun c _ q h => (c.wireType_run q).trans h) rfl
  field := Run.ofCalls_induction QueryCall.run (I := fun q => q.field = n.query.field)
    (fun c _ q h => (c.field_run q).trans h) rfl

theorem AggregationCall.confined (c : AggregationCall) : c.Confined where
  frame _ h a := frame_run h a
  body h a := body_run_of_no_option h a
  commutes _ _ _ hc hd hne := commute_run hc hd hne

theorem QueryCall.confined (c : QueryCall) : c.Confined where
  frame q := c.frame_run q
  commutes _ hne := commute_run hne

theorem optionsApart : OptionsApart where
  aggregation _ _ h := AggregationSetting.ctorIdx_eq_of_key h
  query _ _ h := QuerySetting.ctorIdx_eq_of_key h
  overwrites kind c hc := by
    cases c with
    | filter | tryFilter =>
      have hkind : kind = .filters := Option.some.inj (of_decide_eq_true hc.1)
      exact Or.inr ⟨hkind, rfl⟩
    | write w => exact absurd rfl (hc.2 w)
    | _ => exact Or.inl trivial
  filters s := s.key_ne_filters
  overwritesQuery kind c hc := by
    cases c with
    | clause occur | tryClause occur =>
      have hkind : kind = .bool := Option.some.inj (of_decide_eq_true hc.1)
      exact Or.inr ⟨hkind, occur, rfl⟩
    | write w => exact absurd rfl (hc.2 w)
    | set | tryFilter => exact Or.inl trivial
  clauses _ occur hs := QuerySetting.key_ne_spelling hs occur
  tryScript _ _ := rfl
  tryFilter _ _ _ := rfl
  tryFilterQuery _ _ := rfl
  tryClause _ _ _ := rfl

/-- **The last write wins.**  After any run of calls an option holds what was written last, by the
    start or by an accepted call, and nothing if nothing was written; the metadata are those of the
    last call that sets them; and a start with options is one without, followed by the calls that
    set them.  A call about an option leaves all else alone, other calls leave the options alone,
    and calls about different options can change places.  Options do not share a key, and the calls
    of a known kind overwrite all options but the named filters of an aggregation and the clauses
    of a combination. -/
theorem last_write_wins :
    (∀ (n : NewAggregation) (calls : List AggregationCall), n.LastWins calls) ∧
    (∀ (n : NewQuery) (calls : List QueryCall), n.LastWins calls) ∧
    (∀ c : AggregationCall, c.Confined) ∧ (∀ c : QueryCall, c.Confined) ∧ OptionsApart :=
  ⟨fun n calls => n.lastWins calls, fun n calls => n.lastWins calls, fun c => c.confined,
    fun c => c.confined, optionsApart⟩

/-- Genres, asked for with a refused script, a child, an order and two sizes. -/
def AggregationCall.genres : List AggregationCall :=
  [.set (.size 5), .tryScript (.scalar .null), .agg (NewAggregation.named .max "size").aggregation,
    .set (.field "kind"), .metadata (.bool true), .set (.order "_count" .descending),
    .set (.size 7)]

/-- The number two. -/
def Binary64.two : Binary64 := ⟨false, Nat.pow 2 52, 1023, by decide, by decide, .inr (by decide)⟩

/-- A filter that is refused at first, and a boost. -/
def QueryCall.scores : List QueryCall :=
  [.tryFilter (.scalar (.string "hat")), .set (.boost (.infinity true)), .set (.queryName "hats"),
    .tryFilter (.node (.query (.term "type" (.string "hat")))), .set (.boost (.finite .two))]

/-- A bound that is moved, and a boost that is no number in the end. -/
def QueryCall.prices : List QueryCall :=
  [.set (.gte (.string "10")), .set (.boost (.finite .two)), .set (.lt (.string "90")),
    .set (.gte (.string "20")), .set (.boost (.infinity false))]

theorem last_write_wins_genres :
    (∀ c ∈ AggregationCall.genres, c.IsOwn .terms) ∧
    (∀ c ∈ QueryCall.scores, c.IsOwn .constantScore) ∧
    (∀ c ∈ QueryCall.prices, c.IsOwn .range) ∧
    (let genres := (Run.ofCalls AggregationCall.run AggregationCall.genres
      (NewAggregation.onField .terms "genres" "genre").aggregation).state
    genres.body.get? "size" = some (.scalar (.unsigned 7)) ∧
    genres.body.get? "field" = some (.scalar (.string "kind")) ∧
    genres.body.get? "order" = some (.scalar (.object (.single "_count" (.string "desc")))) ∧
    genres.body.get? "script" = none ∧ genres.metadata = some (.bool true) ∧
    (Run.ofCalls AggregationCall.run (.set (.field "genre") :: AggregationCall.genres)
      (NewAggregation.named .terms "genres").aggregation).state = genres) ∧
    (let scores := (Run.ofCalls QueryCall.run QueryCall.scores
      (NewQuery.constantScore .matchAll).query).state
    scores.body.get? "filter" = some (.node (.query (.term "type" (.string "hat")))) ∧
    scores.body.get? "boost" = some (.scalar (.number (.real .two)))) ∧
    let prices := (Run.ofCalls QueryCall.run QueryCall.prices (NewQuery.range "price").query).state
    prices.body.get? "gte" = some (.scalar (.string "20")) ∧
    prices.body.get? "boost" = some (.scalar .null) ∧ prices.body.get? "gt" = none := by
  have hgenres : ∀ c ∈ AggregationCall.genres, c.IsOwn .terms := by
    intro c hc
    simp only [AggregationCall.genres, List.mem_cons, List.not_mem_nil, or_false] at hc
    rcases hc with rfl | rfl | rfl | rfl | rfl | rfl | rfl <;> exact ⟨by decide, nofun⟩
  have hscores : ∀ c ∈ QueryCall.scores, c.IsOwn .constantScore := by
    intro c hc
    simp only [QueryCall.scores, List.mem_cons, List.not_mem_nil, or_false] at hc
    rcases hc with rfl | rfl | rfl | rfl | rfl <;> exact ⟨by decide, nofun⟩
  have hprices : ∀ c ∈ QueryCall.prices, c.IsOwn .range := by
    intro c hc
    simp only [QueryCall.prices, List.mem_cons, List.not_mem_nil, or_false] at hc
    rcases hc with rfl | rfl | rfl | rfl | rfl <;> exact ⟨by decide, nofun⟩
  obtain ⟨hagg, hquery, -, -, hapart⟩ := last_write_wins
  have hoverGenres : ∀ c ∈ AggregationCall.genres, c.Overwrites := fun c hc =>
    (hapart.overwrites .terms c (hgenres c hc)).resolve_right (by simp)
  have hoverScores : ∀ c ∈ QueryCall.scores, c.Overwrites := fun c hc =>
    (hapart.overwritesQuery .constantScore c (hscores c hc)).resolve_right (by simp)
  have hoverPrices : ∀ c ∈ QueryCall.prices, c.Overwrites := fun c hc =>
    (hapart.overwritesQuery .range c (hprices c hc)).resolve_right (by simp)
  have hgenre := hagg (.onField .terms "genres" "genre") AggregationCall.genres
  have hslot := fun key => hgenre.slot key fun c hc _ => hoverGenres c hc
  have hnamed := congrArg Run.state (hgenre.shorthand .terms rfl)
  have hscore := fun key =>
    (hquery (.constantScore .matchAll) QueryCall.scores).slot key fun c hc _ => hoverScores c hc
  have hprice := fun key =>
    (hquery (.range "price") QueryCall.prices).slot key fun c hc _ => hoverPrices c hc
  exact ⟨hgenres, hscores, hprices, ⟨hslot "size", hslot "field", hslot "order", hslot "script",
    hgenre.metadata, hnamed⟩, ⟨hscore "filter", hscore "boost"⟩, hprice "gte", hprice "boost",
    hprice "gt"⟩

end SearchBody
