/-
  Search bodies — attaching and detaching undo each other.

  An aggregation hands back what it loses: the child that was detached, or the one that gave
  way to another.  Since children stand under their own names, what was handed back finds its
  old place when it is attached again.

  * `attach_detach`: what is attached in place of a detached child of its name.
  * `ChildCall.commute_run`: calls about different names change places.
  * `attachment_restores`: detaching and attaching again, attaching and detaching again,
    replacing and replacing again; each leaves the aggregation as it was.
-/
import SearchBody.Proofs.Filing
import SearchBody.Proofs.LastWrite
import SearchBody.Proofs.Conservation

set_option autoImplicit false

namespace SearchBody

/-! ## Attached and detached children -/

/-- **What is attached in place of a detached aggregation** of its name replaces nothing, and
    stands where that one stood. -/
theorem Aggregations.attach_detach {c : Aggregation} {name : String} (h : c.name = name)
    (owner : String) (m : Aggregations) :
    attach owner c (detach name m).state = ⟨m.insert name c, .gave none, []⟩ := by
  subst h
  have hnone : (detach c.name m).state.get? c.name = none := by simp [detach]
  rw [attach, hnone, detach, KeyMap.insert_erase]
  rfl

namespace Aggregation

variable {a c d : Aggregation} {name : String}

theorem attach_eq (a c : Aggregation) :
    a.attach c = ⟨{ a with children := a.children.insert c.name c }, .gave (a.child? c.name),
      Event.replacement a.name (a.child? c.name)⟩ := rfl

theorem detach_eq (a : Aggregation) (name : String) :
    a.detach name = ⟨{ a with children := a.children.erase name }, .gave (a.child? name), []⟩ := rfl

theorem insert_child (h : a.child? name = some c) :
    { a with children := a.children.insert name c } = a := by
  obtain ⟨_, _, _, _, children⟩ := a
  exact congrArg (Aggregation.mk _ _ _ _) (KeyMap.insert_of_get? h)

theorem attach_detach (a : Aggregation) (h : c.name = name) :
    (a.detach name).state.attach c =
      ⟨{ a with children := a.children.insert name c }, .gave none, []⟩ := by
  have hchildren := Aggregations.attach_detach h a.name a.children
  exact congrArg (Outcome.map fun m : Aggregations => { a with children := m }) hchildren

/-- A child without a namesake is gone without a trace when it is detached again. -/
theorem detach_attach (h : a.child? c.name = none) :
    (a.attach c).state.detach c.name = ⟨a, .gave (some c), []⟩ := by
  have hself : (a.attach c).state.child? c.name = some c := by simp [attach_eq, child?]
  rw [detach_eq, hself, attach_eq, KeyMap.erase_insert h]
  cases a
  rfl

/-- A child that gave way to a namesake makes it give way in turn. -/
theorem attach_attach (h : a.child? c.name = some d) (hd : d.name = c.name) :
    (a.attach c).state.attach d = ⟨a, .gave (some c), [.replaced c.name a.name]⟩ := by
  have hself : (a.attach c).state.child? d.name = some c := by simp [attach_eq, child?, hd]
  rw [attach_eq, hself, attach_eq, hd, KeyMap.insert_insert, insert_child h]
  rfl

end Aggregation

/-! ## Calls about different names -/

namespace ChildCall

/-- What a call makes of the children. -/
def edit : ChildCall → Aggregations → Aggregations
  | attach child, m => m.insert child.name child
  | detach name, m => m.erase name

theorem run_eq (c : ChildCall) (a : Aggregation) :
    c.run a = ⟨{ a with children := c.edit a.children }, .gave (a.child? c.name),
      Event.replacement a.name (c.brought?.bind fun _ => a.child? c.name)⟩ := by
  cases c <;> rfl

theorem get?_edit {c : ChildCall} {name : String} (h : name ≠ c.name) (m : Aggregations) :
    (c.edit m).get? name = m.get? name := by
  cases c <;> simp_all [edit, ChildCall.name]

theorem edit_comm {c d : ChildCall} (h : c.name ≠ d.name) (m : Aggregations) :
    d.edit (c.edit m) = c.edit (d.edit m) := by
  cases c with
  | attach x =>
    cases d with
    | attach y => exact KeyMap.insert_comm h m x y
    | detach name => exact KeyMap.erase_insert_comm h m x
  | detach name =>
    cases d with
    | attach y => exact (KeyMap.erase_insert_comm h.symm m y).symm
    | detach name' => exact KeyMap.erase_comm m name name'

/-- **Calls about different names can change places.** -/
theorem commute_run {c d : ChildCall} (h : c.name ≠ d.name) : Commute ChildCall.run c d := by
  intro a
  have hc : (d.edit a.children).get? c.name = a.children.get? c.name := get?_edit h _
  have hd : (c.edit a.children).get? d.name = a.children.get? d.name := get?_edit h.symm _
  simp only [run_eq, Aggregation.child?, edit_comm h, hc, hd, and_self]

end ChildCall

/-- **Attaching and detaching undo each other.**  In a reachable aggregation a child that was
    detached and is attached again replaces nothing, a child that replaced nothing is handed back
    when it is detached again, and a child that gave way to another makes that one give way when
    it is attached again; each leaves the aggregation as it was.  Calls about different names can
    change places: they lead to the same aggregation and hand back the same in both orders. -/
theorem attachment_restores {a : Aggregation} (ha : Reachable (.node (.aggregation a))) :
    (∀ name c, (a.detach name).reply = .gave (some c) →
      let again := (a.detach name).state.attach c
      again.reply = .gave none ∧ again.state = a) ∧
    (∀ c, (a.attach c).reply = .gave none →
      let again := (a.attach c).state.detach c.name
      again.reply = .gave (some c) ∧ again.state = a) ∧
    (∀ c old, (a.attach c).reply = .gave (some old) →
      let again := (a.attach c).state.attach old
      again.reply = .gave (some c) ∧ again.state = a) ∧
    ∀ c d : ChildCall, c.name ≠ d.name → Commute ChildCall.run c d := by
  have hnames : a.children.OwnNames := (Tree.filed_iff.1 ha.filed).1
  refine ⟨fun name c h => ?_, fun c h => ?_, fun c old h => ?_, fun c d => ChildCall.commute_run⟩
  · have hc : a.child? name = some c := Reply.gave.inj h
    rw [Aggregation.attach_detach a (hnames name c hc), Aggregation.insert_child hc]
    exact ⟨rfl, rfl⟩
  · have hc : a.child? c.name = none := Reply.gave.inj h
    rw [Aggregation.detach_attach hc]
    exact ⟨rfl, rfl⟩
  · have hc : a.child? c.name = some old := Reply.gave.inj h
    rw [Aggregation.attach_attach hc (hnames c.name old hc)]
    exact ⟨rfl, rfl⟩

theorem attachment_restores_salesByMonth :
    let a := Aggregation.salesByMonth "sales"
    let sum := (NewAggregation.onField .sum "aggs" "price").aggregation
    let max := (NewAggregation.onField .max "aggs" "price").aggregation
    Reachable (.node (.aggregation a)) ∧
      (a.detach "aggs").reply = .gave (some sum) ∧
      ((a.detach "aggs").state.attach sum).state = a ∧
      (a.attach max).reply = .gave (some sum) ∧
      ((a.attach max).state.attach sum).state = a ∧
      ((a.detach "aggs").state.attach max).reply = .gave none ∧
      (((a.detach "aggs").state.attach max).state.detach "aggs").state =
        (a.detach "aggs").state := by
  intro a sum max
  have ha : Reachable (.node (.aggregation a)) := Aggregation.reachable_salesByMonth "sales"
  have hb : Reachable (.node (.aggregation (a.detach "aggs").state)) :=
    .aggregationCall (.detach "aggs") ha fun n hn => absurd hn id
  obtain ⟨hdetach, -, hreplace, -⟩ := attachment_restores ha
  obtain ⟨-, hattach, -⟩ := attachment_restores hb
  exact ⟨ha, rfl, (hdetach "aggs" sum rfl).2, rfl, (hreplace max sum rfl).2, rfl,
    (hattach max rfl).2⟩

end SearchBody
