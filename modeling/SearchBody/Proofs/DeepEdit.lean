/-
  Search bodies — editing deep inside a tree.

  A sub-aggregation is edited by taking it out of its owner, that one out of the owner above,
  and so on from the top down, and by putting everything back from the bottom up.  The document
  then differs from the one before at one place.

  * `Json.replaceAt` replaces the value at the end of a path; `ReplacedAt`: one document is
    another with a value replaced.
  * `Aggregation.takeOut`, `putBack` and `rework`: the edit, step by step;
    `SearchRequest.rework`: the same from a request down.
  * `Aggregation.graft`: the tree with another descendant; `exists_takeOut`: the edit makes it,
    and makes no line; `document_graft`: its document.
  * `deep_edit`: the document before and after an edit.
-/
import SearchBody.Proofs.Mirror
import SearchBody.Proofs.Restoration

set_option autoImplicit false

namespace SearchBody

/-! ## Replacing a value in a document -/

namespace Json

/-- The document with `v` at the end of a path; a path that leads nowhere changes nothing. -/
def replaceAt : Json → Path → Json → Json
  | _, [], v => v
  | .object m, .key name :: p, v =>
    match m.get? name with
    | none => .object m
    | some j => .object (m.insert name (j.replaceAt p v))
  | .array js, .item i :: p, v => .array (js.modify i fun j => j.replaceAt p v)
  | j, _ :: _, _ => j

@[simp] theorem replaceAt_nil (j v : Json) : j.replaceAt [] v = v := by
  cases j <;> rfl

/-- A step into the document after the replacement is the step before it, with the replacement
    behind it if it is the first step of the path. -/
theorem step?_replaceAt (j : Json) (s s' : Step) (p : Path) (v : Json) :
    (j.replaceAt (s :: p) v).step? s' =
      if s' = s then (j.step? s').map fun j => j.replaceAt p v else j.step? s' := by
  match j, s with
  | .object m, .key name =>
    cases hm : m.get? name <;> cases s' with
    | item i => simp [replaceAt, step?, hm]
    | key name' =>
      by_cases e : name' = name
      · subst e
        simp [replaceAt, step?, hm]
      · simp [replaceAt, step?, hm, e]
  | .array js, .item i =>
    cases s' with
    | key name => simp [replaceAt, step?]
    | item i' =>
      by_cases e : i' = i
      · subst e
        simp [replaceAt, step?]
      · simp [replaceAt, step?, e, Ne.symm e]
  | .object _, .item _ | .array _, .key _ => cases s' <;> simp [replaceAt, step?]
  | .null, s | .bool _, s | .number _, s | .string _, s =>
    cases s <;> cases s' <;> simp [replaceAt, step?]

/-- **The replaced value stands at the end of the path**, if there was one. -/
theorem at?_replaceAt {j w : Json} {p : Path} (h : j.at? p = some w) (v : Json) :
    (j.replaceAt p v).at? p = some v := by
  induction p generalizing j with
  | nil => simp
  | cons s p ih =>
    rw [at?_cons, Option.bind_eq_some_iff] at h
    obtain ⟨i, hi, h⟩ := h
    rw [at?_cons, step?_replaceAt, if_pos rfl, hi]
    exact ih h

/-- **Elsewhere**, at a place neither above nor below the end of the path, nothing changes. -/
theorem at?_replaceAt_of_not_prefix {p q : Path} (hpq : ¬ p <+: q) (hqp : ¬ q <+: p)
    (j v : Json) : (j.replaceAt p v).at? q = j.at? q := by
  induction p generalizing j q with
  | nil => exact absurd List.nil_prefix hpq
  | cons s p ih =>
    obtain _ | ⟨s', q⟩ := q
    · exact absurd List.nil_prefix hqp
    rw [at?_cons, at?_cons, step?_replaceAt]
    by_cases e : s' = s
    · subst e
      have hrest : ∀ i : Json, (i.replaceAt p v).at? q = i.at? q :=
        ih (fun h => hpq (List.cons_prefix_cons.2 ⟨rfl, h⟩))
          fun h => hqp (List.cons_prefix_cons.2 ⟨rfl, h⟩)
      rw [if_pos rfl]
      cases j.step? s' with
      | none => rfl
      | some i => exact hrest i
    · rw [if_neg e]

/-- The document `j'` is `j` with the value `v` at the end of the path `p`, and is like `j`
    elsewhere. -/
structure ReplacedAt (p : Path) (v j j' : Json) : Prop where
  eq : j' = j.replaceAt p v
  here : j'.at? p = some v
  elsewhere (q : Path) : ¬ p <+: q → ¬ q <+: p → j'.at? q = j.at? q

theorem replacedAt_replaceAt {j w : Json} {p : Path} (h : j.at? p = some w) (v : Json) :
    ReplacedAt p v j (j.replaceAt p v) where
  eq := rfl
  here := at?_replaceAt h v
  elsewhere _ hpq hqp := at?_replaceAt_of_not_prefix hpq hqp j v

end Json

/-! ## Replacing a value in a section -/

section
variable {k : SectionKey} {name : String}

theorem withSection_of_get? {named : KeyMap Json none} {j : Json} (h : named.get? name = some j)
    (rest : KeyMap Json none) :
    withSection k named rest = rest.insert k.word (.object named) := by
  have hne : named.isEmpty = false := by
    refine Bool.eq_false_iff.2 fun he => ?_
    rw [KeyMap.isEmpty_iff_get?.1 he] at h
    cases h
  rw [withSection, hne]
  rfl

/-- What stands in a section is reached there, whatever else the document has. -/
theorem at?_withSection {m : Aggregations} {a : Aggregation} (h : m.get? name = some a)
    (rest : KeyMap Json none) (p : Path) :
    (Json.object (withSection k (Aggregation.documents k m) rest)).at?
      (.key k.word :: .key name :: p) = (a.document k).at? p := by
  have hdoc : (Aggregation.documents k m).get? name = some (a.document k) := by simp [h]
  simp [withSection_of_get? hdoc, hdoc]

/-- **What stands in a section is replaced there**, whatever else the document has. -/
theorem replaceAt_withSection {m : Aggregations} {a b : Aggregation} (h : m.get? name = some a)
    {p : Path} {v : Json} (hb : b.document k = (a.document k).replaceAt p v)
    (rest : KeyMap Json none) :
    Json.object (withSection k (Aggregation.documents k (m.insert name b)) rest) =
      (Json.object (withSection k (Aggregation.documents k m) rest)).replaceAt
        (.key k.word :: .key name :: p) v := by
  have hdoc : (Aggregation.documents k m).get? name = some (a.document k) := by simp [h]
  have hself : (Aggregation.documents k (m.insert name b)).get? name = some (b.document k) := by
    simp
  have hinsert : Aggregation.documents k (m.insert name b) =
      (Aggregation.documents k m).insert name (b.document k) := by
    rw [Aggregation.documents_eq, KeyMap.map_insert, ← Aggregation.documents_eq]
  rw [withSection_of_get? hdoc, withSection_of_get? hself, hinsert, hb]
  simp [Json.replaceAt, hdoc, KeyMap.insert_insert]

end

/-! ## Taking out and putting back -/

namespace Aggregation

/-- Take the aggregations along a path out of their owners, from the top down.  The answer is
    the last of them, with what is left of the owners, the lowest one first. -/
def takeOut : Aggregation → List String → List Aggregation →
    Option (Aggregation × List Aggregation)
  | a, [], owners => some (a, owners)
  | a, name :: names, owners =>
    let taken := a.detach name
    match taken.reply with
    | .gave (some c) => c.takeOut names (taken.state :: owners)
    | _ => none

/-- Put an aggregation back into the first owner, that one into the next, and so on. -/
def putBack : Aggregation → List Aggregation → Outcome Aggregation
  | a, [] => .done a
  | a, owner :: owners =>
    let first := owner.attach a
    let rest := first.state.putBack owners
    ⟨rest.state, .done, first.log ++ rest.log⟩

/-- Take the aggregations along a path out, make calls on the last of them and put all of them
    back.  The lines are those of putting back. -/
def rework (a : Aggregation) (names : List String) (calls : List AggregationCall) :
    Option (Outcome Aggregation) :=
  (a.takeOut names []).map fun taken =>
    (Run.ofCalls AggregationCall.run calls taken.1).state.putBack taken.2

/-- The aggregation with `d` as the descendant that a path leads to. -/
def graft : Aggregation → List String → Aggregation → Aggregation
  | _, [], d => d
  | a, name :: names, d =>
    match a.child? name with
    | none => a
    | some c => { a with children := a.children.insert name (c.graft names d) }

variable {a c d : Aggregation} {name : String} {names : List String}

theorem graft_cons (h : a.child? name = some c) :
    a.graft (name :: names) d =
      { a with children := a.children.insert name (c.graft names d) } := by
  rw [graft, h]

/-- An aggregation with a descendant in its own place is what it was. -/
theorem graft_self (h : a.descendant? names = some c) : a.graft names c = a := by
  induction names generalizing a with
  | nil =>
    cases h
    rfl
  | cons name names ih =>
    obtain ⟨b, hb, h⟩ := Option.bind_eq_some_iff.1 h
    rw [graft_cons hb, ih h, insert_child hb]

theorem name_graft (h : a.descendant? names = some c) (hd : d.name = c.name) :
    (a.graft names d).name = a.name := by
  cases names with
  | nil =>
    cases h
    exact hd
  | cons name names =>
    obtain ⟨b, hb, -⟩ := Option.bind_eq_some_iff.1 h
    rw [graft_cons hb]

theorem reply_putBack (a : Aggregation) (owners : List Aggregation) :
    (a.putBack owners).reply = .done := by
  cases owners <;> rfl

/-- Putting back where a namesake was taken out makes no line. -/
theorem putBack_detach (h : c.name = name) (a : Aggregation) (owners : List Aggregation) :
    c.putBack ((a.detach name).state :: owners) =
      putBack { a with children := a.children.insert name c } owners := by
  rw [putBack, attach_detach a h]
  exact congrArg (Outcome.mk _ · _) (reply_putBack _ owners).symm

/-- **What is put back in place of a descendant** that was taken out stands where that one
    stood, and the owners are put back as if they had never been apart. -/
theorem exists_takeOut (hf : (Tree.node (.aggregation a)).Filed)
    (h : a.descendant? names = some c) (owners : List Aggregation) :
    ∃ left, a.takeOut names owners = some (c, left) ∧
      ∀ d, d.name = c.name → putBack d left = (a.graft names d).putBack owners := by
  induction names generalizing a owners with
  | nil =>
    cases h
    exact ⟨owners, rfl, fun d _ => rfl⟩
  | cons name names ih =>
    obtain ⟨b, hb, h⟩ := Option.bind_eq_some_iff.1 h
    obtain ⟨hnames, hparts⟩ := Tree.filed_iff.1 hf
    obtain ⟨left, hout, hback⟩ := ih (hparts _ (.named hb)) h ((a.detach name).state :: owners)
    refine ⟨left, ?_, fun d hd => ?_⟩
    · have hreply : (a.detach name).reply = .gave (some b) := congrArg Reply.gave hb
      rw [takeOut, hreply]
      exact hout
    · have hname : (b.graft names d).name = name :=
        (name_graft h hd).trans (hnames name b hb)
      rw [hback d hd, putBack_detach hname, graft_cons hb]

end Aggregation

theorem Aggregation.name_ofCalls (calls : List AggregationCall) (a : Aggregation) :
    (Run.ofCalls AggregationCall.run calls a).state.name = a.name :=
  Run.ofCalls_induction AggregationCall.run (I := fun b => b.name = a.name)
    (fun call _ b hb => (call.name_run b).trans hb) rfl

/-- **An edit makes the tree with the changed descendant**, and no line. -/
theorem Aggregation.rework_eq {a c : Aggregation} {names : List String}
    (hf : (Tree.node (.aggregation a)).Filed) (h : a.descendant? names = some c)
    (calls : List AggregationCall) :
    a.rework names calls =
      some (.done (a.graft names (Run.ofCalls AggregationCall.run calls c).state)) := by
  obtain ⟨left, hout, hback⟩ := exists_takeOut hf h []
  rw [rework, hout, Option.map_some]
  exact congrArg some (hback _ (name_ofCalls calls c))

namespace SearchRequest

/-- Take the aggregations along a path out of a request, make calls on the last of them and put
    all of them back.  The lines are those of putting back. -/
def rework (r : SearchRequest) (name : String) (names : List String)
    (calls : List AggregationCall) : Option (Outcome SearchRequest) :=
  let taken := (RequestCall.removeAgg name).run r
  match taken.reply with
  | .gave (some a) => (a.rework names calls).map fun inner =>
    let last := (RequestCall.agg inner.state).run taken.state
    ⟨last.state, .done, inner.log ++ last.log⟩
  | _ => none

/-- The request with `d` as the descendant that a path leads to. -/
def graft (r : SearchRequest) (name : String) (names : List String) (d : Aggregation) :
    SearchRequest :=
  match r.aggregations.get? name with
  | none => r
  | some a => { r with aggregations := r.aggregations.insert name (a.graft names d) }

variable {r : SearchRequest} {a c d : Aggregation} {name : String} {names : List String}

theorem graft_of_get? (h : r.aggregations.get? name = some a) :
    r.graft name names d =
      { r with aggregations := r.aggregations.insert name (a.graft names d) } := by
  rw [graft, h]

theorem graft_self (ha : r.aggregations.get? name = some a) (h : a.descendant? names = some c) :
    r.graft name names c = r := by
  rw [graft_of_get? ha, Aggregation.graft_self h, KeyMap.insert_of_get? ha]

theorem rework_eq (hf : (Tree.request r).Filed) (ha : r.aggregations.get? name = some a)
    (h : a.descendant? names = some c) (calls : List AggregationCall) :
    r.rework name names calls =
      some (.done (r.graft name names (Run.ofCalls AggregationCall.run calls c).state)) := by
  obtain ⟨hnames, hparts⟩ := Tree.filed_iff.1 hf
  have hname : (a.graft names (Run.ofCalls AggregationCall.run calls c).state).name = name :=
    (Aggregation.name_graft h (Aggregation.name_ofCalls calls c)).trans (hnames name a ha)
  have htaken : ((RequestCall.removeAgg name).run r).reply = .gave (some a) :=
    congrArg Reply.gave ha
  have hlast : (RequestCall.agg (a.graft names (Run.ofCalls AggregationCall.run calls c).state)).run
      ((RequestCall.removeAgg name).run r).state =
        .done (r.graft name names (Run.ofCalls AggregationCall.run calls c).state) := by
    rw [graft_of_get? ha]
    have hfiled := Aggregations.attach_detach hname owner r.aggregations
    exact congrArg (fun o => (Outcome.map (fun m => { r with aggregations := m }) o).silent) hfiled
  rw [rework, htaken]
  simp only [Aggregation.rework_eq (hparts _ (.named ha)) h calls, Option.map_some, Outcome.done,
    List.nil_append] at hlast ⊢
  rw [hlast]

end SearchRequest

/-! ## Documents -/

section
variable {k : SectionKey} {c : Aggregation} {names : List String}

theorem Aggregation.at?_descendant {a : Aggregation} (h : a.descendant? names = some c) :
    (a.document k).at? (k.descent names) = some (c.document k) := by
  induction names generalizing a with
  | nil =>
    cases h
    exact Json.at?_nil _
  | cons name names ih =>
    obtain ⟨b, hb, h⟩ := Option.bind_eq_some_iff.1 h
    rw [Aggregation.document_eq]
    exact (at?_withSection hb _ _).trans (ih h)

/-- **The document with another descendant** is the document with another value at the place of
    the descendant. -/
theorem Aggregation.document_graft {a : Aggregation} (h : a.descendant? names = some c)
    (d : Aggregation) :
    (a.graft names d).document k =
      (a.document k).replaceAt (k.descent names) (d.document k) := by
  induction names generalizing a with
  | nil => exact (Json.replaceAt_nil _ _).symm
  | cons name names ih =>
    obtain ⟨b, hb, h⟩ := Option.bind_eq_some_iff.1 h
    rw [graft_cons hb, Aggregation.document_eq, Aggregation.document_eq]
    exact replaceAt_withSection hb (ih h) _

theorem Aggregation.replacedAt_graft {a : Aggregation} (h : a.descendant? names = some c)
    (d : Aggregation) :
    Json.ReplacedAt (k.descent names) (d.document k) (a.document k)
      ((a.graft names d).document k) := by
  rw [document_graft h]
  exact Json.replacedAt_replaceAt (at?_descendant h) _

theorem SearchRequest.replacedAt_graft {r : SearchRequest} {a : Aggregation} {name : String}
    (ha : r.aggregations.get? name = some a) (h : a.descendant? names = some c)
    (d : Aggregation) :
    Json.ReplacedAt (k.descent (name :: names)) (d.document k) (r.document k)
      ((r.graft name names d).document k) := by
  have hat : (r.document k).at? (k.descent (name :: names)) = some (c.document k) :=
    (at?_withSection ha _ _).trans (Aggregation.at?_descendant h)
  have hdoc : (r.graft name names d).document k =
      (r.document k).replaceAt (k.descent (name :: names)) (d.document k) := by
    rw [graft_of_get? ha]
    exact replaceAt_withSection ha (Aggregation.document_graft h d) _
  rw [hdoc]
  exact Json.replacedAt_replaceAt hat _

end

/-- **An edit deep inside a tree changes the document exactly there.**  In a reachable aggregation
    or request, take the aggregations along a path out of their owners, from the top down, make
    any calls on the last of them, and put each back into its owner, from the bottom up.  Putting
    back makes no line; the document is then the one before with the document of the changed
    aggregation at the end of the path, and nothing else changed; and without any call the whole
    tree is what it was. -/
theorem deep_edit (calls : List AggregationCall) :
    (∀ (a : Aggregation) names c, Reachable (.node (.aggregation a)) →
      a.descendant? names = some c →
      let c' := (Run.ofCalls AggregationCall.run calls c).state
      ∃ o, a.rework names calls = some o ∧ o.log = [] ∧
        (∀ k, Json.ReplacedAt (k.descent names) (c'.document k) (a.document k)
          (o.state.document k)) ∧
        (calls = [] → o.state = a)) ∧
    ∀ (r : SearchRequest) name names c, Reachable (.request r) →
      (r.aggregations.get? name).bind (fun a => a.descendant? names) = some c →
      let c' := (Run.ofCalls AggregationCall.run calls c).state
      ∃ o, r.rework name names calls = some o ∧ o.log = [] ∧
        (∀ k, Json.ReplacedAt (k.descent (name :: names)) (c'.document k) (r.document k)
          (o.state.document k)) ∧
        (calls = [] → o.state = r) := by
  constructor
  · intro a names c ha h c'
    refine ⟨_, Aggregation.rework_eq ha.filed h calls, rfl,
      fun k => Aggregation.replacedAt_graft h c', ?_⟩
    rintro rfl
    exact Aggregation.graft_self h
  · intro r name names c hr h c'
    obtain ⟨a, ha, h⟩ := Option.bind_eq_some_iff.1 h
    refine ⟨_, SearchRequest.rework_eq hr.filed ha h calls, rfl,
      fun k => SearchRequest.replacedAt_graft ha h c', ?_⟩
    rintro rfl
    exact SearchRequest.graft_self ha h

/-- The sum is the only child, so that the section is gone while the sum is out of the tree. -/
theorem deep_edit_salesByMonth :
    let a := Aggregation.salesByMonth "sales"
    let r := SearchRequest.salesByMonth
    let sum := (NewAggregation.onField .sum "aggs" "price").aggregation
    let calls : List AggregationCall :=
      [.set (.missing (.string "none")), .agg (NewAggregation.named .max "top").aggregation]
    let sum' := (Run.ofCalls AggregationCall.run calls sum).state
    Reachable (.node (.aggregation a)) ∧ Reachable (.request r) ∧
      a.descendant? ["aggs"] = some sum ∧
      (r.aggregations.get? "sales").bind (fun a => a.descendant? ["aggs"]) = some sum ∧
      (∃ o, a.rework ["aggs"] calls = some o ∧ o.log = [] ∧
        (o.state.document .aggs).at? [.key "aggs", .key "aggs"] = some (sum'.document .aggs) ∧
        (o.state.document .aggs).at? [.key "meta"] = (a.document .aggs).at? [.key "meta"]) ∧
      ∃ o, r.rework "sales" ["aggs"] [] = some o ∧ o.log = [] ∧ o.state = r := by
  intro a r sum calls sum'
  have ha : Reachable (.node (.aggregation a)) := Aggregation.reachable_salesByMonth "sales"
  have hr : Reachable (.request r) := SearchRequest.reachable_salesByMonth
  obtain ⟨o, ho, hlog, hdoc, -⟩ := (deep_edit calls).1 a ["aggs"] sum ha rfl
  obtain ⟨o', ho', hlog', -, hsame⟩ := (deep_edit []).2 r "sales" ["aggs"] sum hr rfl
  refine ⟨ha, hr, rfl, rfl, ⟨o, ho, hlog, (hdoc .aggs).here, ?_⟩, o', ho', hlog', hsame rfl⟩
  exact (hdoc .aggs).elsewhere [.key "meta"] (by decide) (by decide)

end SearchBody
