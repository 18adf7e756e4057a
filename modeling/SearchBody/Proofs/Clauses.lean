/-
  Search bodies — the clauses of a combination.

  A combination of queries keeps a list of clauses for each occurrence.  The lists only grow,
  each by the queries that are accepted for its occurrence, and no other call comes near them.

  * `QueryCall.clause?`: the clause that an accepted call adds for an occurrence;
    `clause?_eq_none_iff`: a call for it adds one unless it is refused.
  * `get?_clause_run`: what one call does to the list of an occurrence; `get?_clause_ofCalls`:
    what a list of calls leaves there.
  * `key_of_get?_ofCalls`: the options of a combination.
  * `clauses_of_calls`: the lists, and the document.
-/
import SearchBody.Proofs.LastWrite

set_option autoImplicit false

namespace SearchBody

/-! ## One call -/

/-- The clause that an accepted call adds for an occurrence. -/
def QueryCall.clause? (occur : Occur) : QueryCall → Option Query
  | .clause occur' q | .tryClause occur' (.node (.query q)) =>
    if occur = occur' then some q else none
  | _ => none

namespace QueryCall

variable {c : QueryCall} {q : Query} {occur : Occur}

/-- A clause joins the list of its occurrence, and no other. -/
theorem get?_push_clause {items : List OptionValue}
    (h : q.body.get? occur.spelling = listSlot items) (occur' : Occur) (d : Query) :
    (q.push occur'.key (.query d)).body.get? occur.spelling =
      listSlot (items ++ ((if occur = occur' then some d else none).map .query).toList) := by
  rw [← occur'.spelling_eq]
  show (Body.push q.body occur'.spelling (.query d)).get? occur.spelling = _
  by_cases e : occur = occur'
  · subst e
    rw [if_pos rfl]
    exact Body.get?_push_listSlot h (.query d)
  · have hkey : occur.spelling ≠ occur'.spelling := fun hk => e (Occur.spelling_injective hk)
    rw [if_neg e, Body.get?_push, if_neg hkey, h]
    exact congrArg listSlot (List.append_nil items).symm

/-- An argument that is no query is no clause. -/
theorem clause?_refused {occur' : Occur} {e : Element} {m : TypeMismatch}
    (he : e.query? = .error m) : (tryClause occur' e).clause? occur = none := by
  match e, he with
  | .scalar _, _ | .node (.script _), _ | .node (.aggregation _), _ => rfl

/-- A call of a combination is a setting, brings a clause, or is refused. -/
theorem own_cases (hc : c.IsOwn .bool) :
    (∃ s, c = .set s) ∨
      (∃ occur d, c = .clause occur d ∨ c = .tryClause occur (.node (.query d))) ∨
      ∃ occur e m, c = .tryClause occur e ∧ e.query? = .error m := by
  cases c with
  | set s => exact Or.inl ⟨s, rfl⟩
  | clause occur d => exact Or.inr (Or.inl ⟨occur, d, Or.inl rfl⟩)
  | tryClause occur e =>
    rcases e.query?_cases with ⟨d, rfl⟩ | he
    · exact Or.inr (Or.inl ⟨occur, d, Or.inr rfl⟩)
    · exact Or.inr (Or.inr ⟨occur, e, _, rfl, he⟩)
  | tryFilter e =>
    have hkind : some QueryKind.bool = some .constantScore := of_decide_eq_true hc.1
    cases hkind
  | write w => exact absurd rfl (hc.2 w)

/-- **A call of a combination adds its clause to the list of an occurrence**, if it is accepted
    and has one for it. -/
theorem get?_clause_run (hc : c.IsOwn .bool) {items : List OptionValue}
    (h : q.body.get? occur.spelling = listSlot items) :
    (c.run q).state.body.get? occur.spelling =
      listSlot (items ++ ((c.clause? occur).map .query).toList) := by
  have hskip : listSlot items = listSlot (items ++ []) :=
    congrArg listSlot (List.append_nil items).symm
  rcases own_cases hc with ⟨s, rfl⟩ | ⟨occur', d, rfl | rfl⟩ | ⟨occur', e, m, rfl, he⟩
  · have hkey : occur.spelling ≠ s.written.key := (QuerySetting.key_ne_spelling hc occur).symm
    rw [(frame_run (.set s) q).2 occur.spelling hkey, h]
    exact hskip
  · exact get?_push_clause h occur' d
  · exact get?_push_clause h occur' d
  · rw [clause?_refused he, run, he]
    exact h.trans hskip

/-- A call about the clauses of an occurrence is refused exactly if it adds none. -/
theorem clause?_eq_none_iff (hc : c.IsOwn .bool) (ho : c.option = occur.spelling) (q : Query) :
    c.clause? occur = none ↔ ∃ m, (c.run q).reply = .refused m := by
  rcases own_cases hc with ⟨s, rfl⟩ | ⟨occur', d, hd⟩ | ⟨occur', e, m, rfl, he⟩
  · exact absurd ho (QuerySetting.key_ne_spelling hc occur)
  · have hadds : c.clause? occur = some d ∧ (c.run q).reply = .done := by
      rcases hd with rfl | rfl <;> exact ⟨if_pos (Occur.spelling_injective ho).symm, rfl⟩
    rw [hadds.1, hadds.2]
    exact iff_of_false nofun nofun
  · rw [clause?_refused he, run, he]
    exact iff_of_true rfl ⟨m, rfl⟩

/-- The options that the calls of a combination are about. -/
theorem option_cases (hc : c.IsOwn .bool) :
    (∃ occur : Occur, c.option = occur.spelling) ∨
      c.option ∈ ["minimum_should_match", "boost", "_name"] := by
  rcases own_cases hc with ⟨s, rfl⟩ | ⟨occur, d, rfl | rfl⟩ | ⟨occur, e, m, rfl, -⟩
  · have hs : s.key ∈ Query.commonOptions ++ QueryKind.bool.options := of_decide_eq_true hc.1
    simp only [Query.commonOptions, QueryKind.options, List.cons_append, List.nil_append,
      List.mem_cons, List.not_mem_nil, or_false] at hs
    refine Or.inr ?_
    show s.written.key ∈ ["minimum_should_match", "boost", "_name"]
    rw [s.written_eq]
    rcases hs with hs | hs | hs <;> simp [hs]
  all_goals exact Or.inl ⟨occur, rfl⟩

end QueryCall

/-! ## Runs -/

section
variable {calls : List QueryCall} (hc : ∀ c ∈ calls, c.IsOwn .bool)
include hc

/-- **The list of an occurrence has all clauses that were accepted for it, in order.** -/
theorem get?_clause_ofCalls (occur : Occur) :
    (Run.ofCalls QueryCall.run calls .bool).state.body.get? occur.spelling =
      listSlot ((calls.filterMap (QueryCall.clause? occur)).map .query) := by
  have hempty : Query.bool.body.get? occur.spelling = listSlot [] := rfl
  have hlist := Run.list_of_calls (fun q : Query => q.body.get? occur.spelling)
    (f := fun c => (c.clause? occur).map .query)
    (fun c hm q items h => QueryCall.get?_clause_run (hc c hm) h) hempty
  rw [hlist, List.nil_append, List.map_filterMap]

/-- The options of a combination are its clauses and a few more. -/
theorem key_of_get?_ofCalls {key : String} {v : OptionValue}
    (hv : (Run.ofCalls QueryCall.run calls .bool).state.body.get? key = some v) :
    (∃ occur : Occur, key = occur.spelling) ∨ key ∈ ["minimum_should_match", "boost", "_name"] := by
  refine Run.ofCalls_induction QueryCall.run
    (I := fun q => ∀ v, q.body.get? key = some v →
      (∃ occur : Occur, key = occur.spelling) ∨ key ∈ ["minimum_should_match", "boost", "_name"])
    (fun c hm q hq v hv => ?_) (s := .bool) (fun v hv => by cases hv) v hv
  by_cases e : key = c.option
  · rw [e]
    exact QueryCall.option_cases (hc c hm)
  · rw [(c.frame_run q).2 key e] at hv
    exact hq v hv

end

theorem Query.document_of_no_field (k : SectionKey) {q : Query} (h : q.field = none) :
    q.document k =
      .object (.single q.wireType (.object (OptionValue.documents k q.body))) := by
  cases q
  cases h
  rfl

/-- **The clauses of a combination are the queries that were accepted**, in the order of the
    calls and each once: a call for an occurrence has a clause for it unless it is refused.
    Under the key of an occurrence the body has the list of those that were accepted for it, if
    there are any, and the document has the array of their documents; the other options of the
    document are those that a combination has besides its clauses.  Before any call of the run,
    what is under the key of an occurrence is a list or nothing, so that no clause is ever joined
    to anything but a list. -/
theorem clauses_of_calls (calls : List QueryCall) (hc : ∀ c ∈ calls, c.IsOwn .bool) :
    let r := Run.ofCalls QueryCall.run calls .bool
    let accepted := fun occur : Occur => calls.filterMap (QueryCall.clause? occur)
    (∀ (i : Nat) (c : QueryCall) (occur : Occur), calls[i]? = some c → c.option = occur.spelling →
      (c.clause? occur = none ↔ ∃ m, r.replies[i]? = some (.refused m))) ∧
    (∀ occur, r.state.body.get? occur.spelling =
      if (accepted occur).isEmpty then none else some (.list ((accepted occur).map .query))) ∧
    (∀ k, ∃ entries, r.state.document k = .object (.single "bool" (.object entries)) ∧
      (∀ occur, entries.get? occur.spelling =
        if (accepted occur).isEmpty then none
        else some (.array ((accepted occur).map (Query.document k)))) ∧
      ∀ key v, entries.get? key = some v →
        (∃ occur : Occur, key = occur.spelling) ∨
          key ∈ ["minimum_should_match", "boost", "_name"]) ∧
    ∀ (i : Nat) (occur : Occur),
      let before := (Run.ofCalls QueryCall.run (calls.take i) .bool).state
      before.body.get? occur.spelling = none ∨
        ∃ items, before.body.get? occur.spelling = some (.list items) := by
  intro r accepted
  have hlist : ∀ occur, r.state.body.get? occur.spelling =
      if (accepted occur).isEmpty then none else some (.list ((accepted occur).map .query)) := by
    intro occur
    rw [get?_clause_ofCalls hc occur, listSlot, List.isEmpty_map]
  refine ⟨fun i c occur hi ho => ?_, hlist, fun k => ?_, fun i occur => ?_⟩
  · have hown : c.IsOwn .bool := hc c (List.mem_of_getElem? hi)
    have hreply := Run.getElem?_replies_ofCalls QueryCall.run calls .bool i
    rw [hi, Option.map_some] at hreply
    simp only [r, hreply, Option.some.injEq]
    exact QueryCall.clause?_eq_none_iff hown ho _
  · have hwire : r.state.wireType = "bool" ∧ r.state.field = none :=
      Run.ofCalls_induction QueryCall.run (I := fun q => q.wireType = "bool" ∧ q.field = none)
        (fun c _ q h => ⟨(c.wireType_run q).trans h.1, (c.field_run q).trans h.2⟩) ⟨rfl, rfl⟩
    refine ⟨OptionValue.documents k r.state.body, ?_, fun occur => ?_, fun key v hv => ?_⟩
    · rw [Query.document_of_no_field k hwire.2, hwire.1]
    · rw [get?_optionDocuments, hlist]
      cases (accepted occur).isEmpty with
      | true => rfl
      | false =>
        show some (OptionValue.document k (.list ((accepted occur).map .query))) = _
        rw [OptionValue.document, OptionValue.documentList_eq, List.map_map]
        rfl
    · rw [get?_optionDocuments, Option.map_eq_some_iff] at hv
      obtain ⟨w, hw, -⟩ := hv
      exact key_of_get?_ofCalls hc hw
  · have hbefore : ∀ c ∈ calls.take i, c.IsOwn .bool := fun c hm =>
      hc c (List.mem_of_mem_take hm)
    show _ ∨ _
    rw [get?_clause_ofCalls hbefore occur, listSlot]
    split
    · exact Or.inl rfl
    · exact Or.inr ⟨_, rfl⟩

/-- Either of two things. -/
def Query.either (a b : Query) : Query :=
  (Run.ofCalls QueryCall.run [.clause .should a, .clause .should b] .bool).state

/-- Hats, with a refused script, a filter, a combination in the combination, and one clause
    twice. -/
def QueryCall.hats : List QueryCall :=
  [.clause .must (.term "type" (.string "hat")), .tryClause .must (.node (.script (.inline "1"))),
    .set (.minimumShouldMatch (.ofUInt64 1)), .clause .filter (.hasField "brim"),
    .tryClause .must (.node (.query (.either .matchAll (.range "price")))),
    .clause .mustNot .matchAll, .clause .must (.term "type" (.string "hat"))]

theorem clauses_of_calls_hats :
    (∀ c ∈ QueryCall.hats, c.IsOwn .bool) ∧
    (let q := (Run.ofCalls QueryCall.run QueryCall.hats .bool).state
    q.body.get? "must" = some (.list [.query (.term "type" (.string "hat")),
      .query (.either .matchAll (.range "price")), .query (.term "type" (.string "hat"))]) ∧
    q.body.get? "filter" = some (.list [.query (.hasField "brim")]) ∧
    q.body.get? "must_not" = some (.list [.query .matchAll]) ∧
    q.body.get? "should" = none) := by
  have hhats : ∀ c ∈ QueryCall.hats, c.IsOwn .bool := by
    intro c hc
    simp only [QueryCall.hats, List.mem_cons, List.not_mem_nil, or_false] at hc
    rcases hc with rfl | rfl | rfl | rfl | rfl | rfl | rfl <;> exact ⟨by decide, nofun⟩
  obtain ⟨-, hlist, -⟩ := clauses_of_calls QueryCall.hats hhats
  exact ⟨hhats, hlist .must, hlist .filter, hlist .mustNot, hlist .should⟩

end SearchBody
