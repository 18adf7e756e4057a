/-
  Search bodies — refused calls.

  Some calls take an element and need a node of one family.  Given one, they do what the call
  on that node does; given anything else, they leave a refusal and one line in the log, and a
  run goes on as if they had not been made.

  * `Outcome.Checked`: what it means that a call on an element is the checked form of a call
    on the members of a family.
  * `checked_guarded`: a guarded call is such a form, with two checks and one record.
  * `Outcome.Faithful`: a refusal changes nothing and is the only line, and no other call
    leaves such a line (`AggregationCall.faithful_run` and its companions).
  * `ofCalls_accepted`: the run of the calls that are not refused.
-/
import SearchBody.Proofs.Call

set_option autoImplicit false

namespace SearchBody

/-! ## Checking an element -/

theorem Element.expect_node (family : Family) (x : family.Member) :
    expect family (.node (family.node x)) = ⟨.ok x, []⟩ := by
  cases family <;> rfl

/-- An element that is no node of the family fails the first check, so that there is one line
    in the log and not two. -/
theorem Element.expect_of_ne {family : Family} {e : Element}
    (h : ∀ x, e ≠ .node (family.node x)) :
    e.expect family = ⟨.error ⟨family, e.kind⟩, [.rejected ⟨family, e.kind⟩]⟩ := by
  have hk : e.kind ≠ .node family := by
    intro hk
    match e, family, hk with
    | .node (.query q), .query, _ => exact h q rfl
    | .node (.aggregation a), .aggregation, _ => exact h a rfl
    | .node (.script s), .script, _ => exact h s rfl
    | .scalar v, _, hk => cases v <;> cases hk
  have hc : e.check family = .error ⟨family, e.kind⟩ := by rw [check, if_neg hk]
  rw [expect, hc]
  rfl

theorem Element.member?_node (family : Family) (x : family.Member) :
    member? family (.node (family.node x)) = .ok x := by
  cases family <;> rfl

theorem Element.member?_of_ne {family : Family} {e : Element}
    (h : ∀ x, e ≠ .node (family.node x)) : e.member? family = .error ⟨family, e.kind⟩ := by
  cases family with
  | query => exact e.query?_cases.resolve_left fun ⟨q, hq⟩ => h q hq
  | aggregation => exact e.aggregation?_cases.resolve_left fun ⟨a, ha⟩ => h a ha
  | script => exact e.script?_cases.resolve_left fun ⟨s, hs⟩ => h s hs

theorem Event.line_rejected (m : TypeMismatch) :
    (Event.rejected m).line =
      "DEBUG Rejected " ++ m.actual.words ++ " where a " ++ m.expected.word
        ++ " node is required" := by
  have split : "DEBUG Rejected " = "DEBUG" ++ " " ++ "Rejected " := by decide
  show "DEBUG" ++ " " ++ ("Rejected " ++ m.actual.words ++ " where a " ++ m.expected.word
    ++ " node is required") = _
  simp only [split, String.append_assoc]

namespace Outcome

variable {σ : Type}

/-- The outcome of a call that takes a member of a family, on the answer of a recorded check. -/
def expecting {α : Type} (state : σ) (arg : Logged (Except TypeMismatch α))
    (call : α → Outcome σ) : Outcome σ :=
  match arg.value with
  | .ok v => { call v with log := arg.log ++ (call v).log }
  | .error m => ⟨state, .refused m, arg.log⟩

/-- The outcome `o` of a call on the element `e` in the state `s` is that of `typed` on the
    member of the family that `e` is; if `e` is none, it is a refusal that names the family and
    the element, and nothing else. -/
structure Checked (family : Family) (e : Element) (s : σ) (o : Outcome σ)
    (typed : family.Member → Outcome σ) : Prop where
  expects : o = expecting s (e.expect family) typed
  accepts (x : family.Member) : e = .node (family.node x) → o = typed x ∧ o.reply = .done
  refuses : (∀ x, e ≠ .node (family.node x)) → ∃ m : TypeMismatch,
    o = ⟨s, .refused m, [.rejected m]⟩ ∧ m.expected = family ∧ m.actual.words = e.describe ∧
    (Event.rejected m).line =
      "DEBUG Rejected " ++ e.describe ++ " where a " ++ family.word ++ " node is required"

/-- **A guarded call is a checked one**: of its two checks only the first can fail. -/
theorem checked_guarded (family : Family) (e : Element) (s : σ)
    {typed : family.Member → Outcome σ} (done : ∀ x, (typed x).reply = .done) :
    Checked family e s (guarded s (e.member? family) typed) typed where
  expects := by
    by_cases h : ∃ x, e = .node (family.node x)
    · obtain ⟨x, rfl⟩ := h
      rw [Element.member?_node, Element.expect_node]
      rfl
    · have h' : ∀ x, e ≠ .node (family.node x) := fun x hx => h ⟨x, hx⟩
      rw [Element.member?_of_ne h', Element.expect_of_ne h']
      rfl
  accepts x hx := by
    subst hx
    rw [Element.member?_node]
    exact ⟨rfl, done x⟩
  refuses h := by
    refine ⟨⟨family, e.kind⟩, ?_, rfl, rfl, ?_⟩
    · rw [Element.member?_of_ne h]
      rfl
    · exact Event.line_rejected ⟨family, e.kind⟩

end Outcome

/-! ## Runs without the refused calls -/

def Reply.isRefusal : Reply → Bool
  | .refused _ => true
  | _ => false

def Event.isRejection : Event → Bool
  | .rejected _ => true
  | _ => false

/-- The outcome `o` of a call in the state `s` tells of a refusal if and only if it is nothing
    but a refusal. -/
def Outcome.Faithful {σ : Type} (s : σ) (o : Outcome σ) : Prop :=
  (∃ m, o = ⟨s, .refused m, [.rejected m]⟩) ∨
    (o.reply.isRefusal = false ∧ ∀ ev ∈ o.log, ev.isRejection = false)

section
variable {σ γ : Type}

/-- The calls of a run that are not refused. -/
def Run.accepted (call : γ → σ → Outcome σ) : List γ → σ → List γ
  | [], _ => []
  | c :: cs, s =>
    let rest := Run.accepted call cs (call c s).state
    if (call c s).reply.isRefusal then rest else c :: rest

/-- A run without its refusals. -/
def Run.withoutRefusals (r : Run σ) : Run σ :=
  ⟨r.state, r.replies.filter fun x => !x.isRefusal, r.log.filter fun ev => !ev.isRejection⟩

/-- **Without the refused calls a run is the same but for the refusals.** -/
theorem Run.ofCalls_accepted {call : γ → σ → Outcome σ}
    (h : ∀ c s, (call c s).Faithful s) (cs : List γ) (s : σ) :
    Run.ofCalls call (Run.accepted call cs s) s = (Run.ofCalls call cs s).withoutRefusals := by
  induction cs generalizing s with
  | nil => rfl
  | cons c cs ih =>
    rcases h c s with ⟨m, hm⟩ | ⟨hr, hl⟩
    · -- the call is refused: the state stays, and its reply and its line are filtered out
      have hs : (call c s).state = s := by rw [hm]
      rw [accepted, hm]
      simp only [Reply.isRefusal, if_true]
      rw [ih s, Run.ofCalls, hm]
      rfl
    · have hl' : (call c s).log.filter (fun ev => !ev.isRejection) = (call c s).log :=
        List.filter_eq_self.2 fun ev hev => by rw [hl ev hev]; rfl
      rw [accepted, if_neg (by simp [hr])]
      simp only [Run.ofCalls, ih, withoutRefusals, List.filter_append, hl',
        List.filter_cons, hr, Bool.not_false, if_true]

end

/-! ## Calls are faithful -/

namespace Outcome

variable {σ τ : Type} {s : σ}

theorem Faithful.of_done (t : σ) : (done t).Faithful s :=
  Or.inr ⟨rfl, by simp [done]⟩

theorem Faithful.guarded {α : Type} {arg : Except TypeMismatch α} {call : α → Outcome σ}
    (h : ∀ v, (call v).Faithful s) : (guarded s arg call).Faithful s := by
  cases arg with
  | ok v => exact h v
  | error m => exact Or.inl ⟨m, rfl⟩

end Outcome

namespace Aggregations

theorem isRejection_of_mem_replacement {owner : String} {old : Option Aggregation} {ev : Event}
    (h : ev ∈ Event.replacement owner old) : ev.isRejection = false := by
  cases old with
  | none => simp [Event.replacement] at h
  | some a =>
    rw [Event.replacement, List.mem_singleton] at h
    rw [h]
    rfl

theorem isRejection_of_mem_attachAll {owner : String} {as : List Aggregation} {m : Aggregations}
    {ev : Event} (h : ev ∈ (attachAll owner as m).log) : ev.isRejection = false := by
  induction as generalizing m with
  | nil => simp [attachAll, Outcome.done] at h
  | cons a as ih =>
    rcases List.mem_append.1 h with h | h
    · exact isRejection_of_mem_replacement h
    · exact ih h

end Aggregations

namespace AggregationCall

theorem faithful_run (c : AggregationCall) (a : Aggregation) : (c.run a).Faithful a := by
  have hattach : ∀ child, ((a.attach child).silent).Faithful a := fun child =>
    Or.inr ⟨rfl, fun ev hev => Aggregations.isRejection_of_mem_replacement hev⟩
  cases c with
  | tryScript e | tryFilter bucket e => exact .guarded fun _ => .of_done _
  | tryAgg e => exact .guarded fun child => hattach child
  | agg child => exact hattach child
  | attach child =>
    exact Or.inr ⟨rfl, fun ev hev => Aggregations.isRejection_of_mem_replacement hev⟩
  | aggs children =>
    refine Or.inr ⟨?_, fun ev hev => Aggregations.isRejection_of_mem_attachAll hev⟩
    show ((Aggregations.attachAll a.name children a.children).reply).isRefusal = false
    rw [Aggregations.reply_attachAll]
    rfl
  | detach name => exact Or.inr ⟨rfl, fun ev hev => by cases hev⟩
  | set s | filter bucket q | metadata v | write w => exact .of_done _

end AggregationCall

theorem QueryCall.faithful_run (c : QueryCall) (q : Query) : (c.run q).Faithful q := by
  cases c with
  | tryClause occur e | tryFilter e => exact .guarded fun _ => .of_done _
  | set s | clause occur d | write w => exact .of_done _

theorem RequestCall.faithful_run (c : RequestCall) (r : SearchRequest) :
    (c.run r).Faithful r := by
  have hattach : ∀ a, ((r.attach a).silent).Faithful r := fun a =>
    Or.inr ⟨rfl, fun ev hev => Aggregations.isRejection_of_mem_replacement hev⟩
  cases c with
  | tryQuery e => exact .guarded fun _ => .of_done _
  | tryAgg e => exact .guarded fun a => hattach a
  | agg a => exact hattach a
  | aggs as =>
    refine Or.inr ⟨?_, fun ev hev => Aggregations.isRejection_of_mem_attachAll hev⟩
    show ((Aggregations.attachAll SearchRequest.owner as r.aggregations).reply).isRefusal = false
    rw [Aggregations.reply_attachAll]
    rfl
  | removeAgg name => exact Or.inr ⟨rfl, fun ev hev => by cases hev⟩
  | set s | sort field order => exact .of_done _

/-- **Refused calls are invisible, and accepted ones are the calls on nodes.**  Each of the
    seven calls that take an element is the checked form of a call on nodes of one family, in
    every state; and a run of calls on an aggregation, a query or a request without those that
    are refused has the same state, the same other replies and the same other lines. -/
theorem refused_calls_are_invisible :
    (∀ a e, Outcome.Checked .aggregation e a ((AggregationCall.tryAgg e).run a)
      fun child => (AggregationCall.agg child).run a) ∧
    (∀ a e, Outcome.Checked .script e a ((AggregationCall.tryScript e).run a)
      fun s => (AggregationCall.set (.script s)).run a) ∧
    (∀ a bucket e, Outcome.Checked .query e a ((AggregationCall.tryFilter bucket e).run a)
      fun q => (AggregationCall.filter bucket q).run a) ∧
    (∀ q occur e, Outcome.Checked .query e q ((QueryCall.tryClause occur e).run q)
      fun d => (QueryCall.clause occur d).run q) ∧
    (∀ q e, Outcome.Checked .query e q ((QueryCall.tryFilter e).run q)
      fun d => (QueryCall.set (.filter d)).run q) ∧
    (∀ r e, Outcome.Checked .query e r ((RequestCall.tryQuery e).run r)
      fun q => (RequestCall.set (.query q)).run r) ∧
    (∀ r e, Outcome.Checked .aggregation e r ((RequestCall.tryAgg e).run r)
      fun a => (RequestCall.agg a).run r) ∧
    (∀ calls a,
      Run.ofCalls AggregationCall.run (Run.accepted AggregationCall.run calls a) a =
        (Run.ofCalls AggregationCall.run calls a).withoutRefusals) ∧
    (∀ calls q,
      Run.ofCalls QueryCall.run (Run.accepted QueryCall.run calls q) q =
        (Run.ofCalls QueryCall.run calls q).withoutRefusals) ∧
    ∀ calls r,
      Run.ofCalls RequestCall.run (Run.accepted RequestCall.run calls r) r =
        (Run.ofCalls RequestCall.run calls r).withoutRefusals := by
  refine ⟨?_, ?_, ?_, ?_, ?_, ?_, ?_, ?_, ?_, ?_⟩
  · exact fun a e => Outcome.checked_guarded .aggregation e a fun _ => rfl
  · exact fun a e => Outcome.checked_guarded .script e a fun _ => rfl
  · exact fun a _ e => Outcome.checked_guarded .query e a fun _ => rfl
  · exact fun q _ e => Outcome.checked_guarded .query e q fun _ => rfl
  · exact fun q e => Outcome.checked_guarded .query e q fun _ => rfl
  · exact fun r e => Outcome.checked_guarded .query e r fun _ => rfl
  · exact fun r e => Outcome.checked_guarded .aggregation e r fun _ => rfl
  · exact fun calls a => Run.ofCalls_accepted AggregationCall.faithful_run calls a
  · exact fun calls q => Run.ofCalls_accepted QueryCall.faithful_run calls q
  · exact fun calls r => Run.ofCalls_accepted RequestCall.faithful_run calls r

end SearchBody
