/-
  Search bodies — the order of a walk.

  A walk of a tree comes to each of its nodes once, in depth-first order: a node before all
  that is in it, the options of a node before its children, options and children in ascending
  order of their keys, lists in order.  Queries and aggregations leave an event, scripts none.

  * `Turn`: a step into a tree, to an option or to a child; the turns to a node are its place,
    and `Tree.Occurs` says which nodes a tree has at which places.
  * `Turn.Before`, `Visit.Before`: the order of places, a place before those behind it.
  * `Tree.visits`: the nodes of a tree with their places, one after the other.
  * `log_serialize_one`: the log of a tree from the logs of its parts.
  * `log_serialize`, `pairwise_visits`, `mem_visits_iff`: the log is read off the visits, the
    visits ascend, and there is one for each place.
  * `log_is_preorder`: all of this, for each way to serialize.
-/
import Mathlib.Data.List.Basic
import SearchBody.Config
import SearchBody.Proofs.Tree

set_option autoImplicit false

namespace SearchBody

/-! ## Places in a tree -/

/-- A step into a tree: to the value of an option or an item of a list there, or to a named
    aggregation. -/
inductive Turn where
  | option (s : Step)
  | child (name : String)

/-- A way into a tree. -/
abbrev Place := List Turn

/-- The tree has the node `n` at a place: the tree itself, a node among the options, behind
    lists and maps, or a named aggregation, and so on from there. -/
inductive Tree.Occurs : Tree → Place → Node → Prop
  | self {n} : Occurs (.node n) [] n
  | option {t p m q n} : (OptionValue.map t.body).Holds p (.node m) → Occurs (.node m) q n →
      Occurs t (p.map .option ++ q) n
  | child {t name c p n} : t.named.get? name = some c → Occurs (.node (.aggregation c)) p n →
      Occurs t (.child name :: p) n

/-- The first of two steps from the same option value: keys and items ascend. -/
inductive Step.Before : Step → Step → Prop
  | key {a b} : a < b → Before (.key a) (.key b)
  | item {i j} : i < j → Before (.item i) (.item j)

/-- The first of two steps from the same tree: options come before children. -/
inductive Turn.Before : Turn → Turn → Prop
  | options {s s'} : s.Before s' → Before (.option s) (.option s')
  | optionChild {s name} : Before (.option s) (.child name)
  | children {a b} : a < b → Before (.child a) (.child b)

theorem Turn.Before.irrefl (t : Turn) : ¬ t.Before t := by
  rintro (h | _ | h)
  · rcases h with h | h
    · exact String.lt_irrefl _ h
    · exact Nat.lt_irrefl _ h
  · exact String.lt_irrefl _ h

/-! ## Visits -/

/-- A node and its place. -/
structure Visit where
  place : Place
  node : Node

namespace Visit

/-- The first of two visits: a place comes before the places behind it, and of two ways that
    part the one with the first turn. -/
def Before (v w : Visit) : Prop := List.Lex Turn.Before v.place w.place

/-- The same nodes, seen from one turn further off. -/
def behind (t : Turn) (vs : List Visit) : List Visit := vs.map fun v => ⟨t :: v.place, v.node⟩

end Visit

mutual

/-- The nodes of a node, itself first. -/
def Node.visits : Node → List Visit
  | .query ⟨wireType, field, body⟩ =>
    ⟨[], .query ⟨wireType, field, body⟩⟩ :: OptionValue.entryVisits body
  | .aggregation a => a.visits
  | .script ⟨body⟩ => ⟨[], .script ⟨body⟩⟩ :: OptionValue.entryVisits body

/-- The nodes of an aggregation: itself, those of the options, those of the children. -/
def Aggregation.visits : Aggregation → List Visit
  | ⟨name, wireType, body, metadata, children⟩ =>
    ⟨[], .aggregation ⟨name, wireType, body, metadata, children⟩⟩ ::
      (OptionValue.entryVisits body ++ Aggregation.childVisits children)

/-- The nodes of an option value. -/
def OptionValue.visits : OptionValue → List Visit
  | .scalar _ => []
  | .node n => n.visits
  | .list items => OptionValue.itemVisits 0 items
  | .map entries => OptionValue.entryVisits entries

/-- The nodes of the items of a list, counted from `i`. -/
def OptionValue.itemVisits (i : Nat) : List OptionValue → List Visit
  | [] => []
  | v :: vs => Visit.behind (.option (.item i)) v.visits ++ OptionValue.itemVisits (i + 1) vs

/-- The nodes of options, key by key. -/
def OptionValue.entryVisits : {lo : Option String} → KeyMap OptionValue lo → List Visit
  | _, .nil => []
  | _, .cons key v _ rest =>
    Visit.behind (.option (.key key)) v.visits ++ OptionValue.entryVisits rest

/-- The nodes of named aggregations, name by name. -/
def Aggregation.childVisits : {lo : Option String} → KeyMap Aggregation lo → List Visit
  | _, .nil => []
  | _, .cons name a _ rest => Visit.behind (.child name) a.visits ++ Aggregation.childVisits rest

end

/-- The nodes in a tree, without the tree itself. -/
def Tree.partVisits (t : Tree) : List Visit :=
  OptionValue.entryVisits t.body ++ Aggregation.childVisits t.named

/-- The nodes of a tree: a node is one of its own. -/
def Tree.visits : Tree → List Visit
  | node n => n.visits
  | request r => (request r).partVisits

theorem Node.visits_eq (n : Node) : n.visits = ⟨[], n⟩ :: (Tree.node n).partVisits := by
  match n with
  | .query ⟨_, _, body⟩ | .script ⟨body⟩ =>
    simp [visits, Tree.partVisits, Tree.body, Tree.named, KeyMap.empty, Aggregation.childVisits]
  | .aggregation ⟨_, _, _, _, _⟩ => rfl

theorem OptionValue.itemVisits_eq (i : Nat) (vs : List OptionValue) :
    itemVisits i vs =
      (vs.zipIdx i).flatMap fun e => Visit.behind (.option (.item e.2)) e.1.visits := by
  induction vs generalizing i with
  | nil => rfl
  | cons v vs ih => rw [itemVisits, List.zipIdx_cons, List.flatMap_cons, ih]

theorem OptionValue.entryVisits_eq {lo : Option String} (m : KeyMap OptionValue lo) :
    entryVisits m = m.toList.flatMap fun e => Visit.behind (.option (.key e.1)) e.2.visits := by
  induction m with
  | nil => rfl
  | cons key v _ rest ih => rw [entryVisits, KeyMap.toList, List.flatMap_cons, ih]

theorem Aggregation.childVisits_eq {lo : Option String} (m : KeyMap Aggregation lo) :
    childVisits m = m.toList.flatMap fun e => Visit.behind (.child e.1) e.2.visits := by
  induction m with
  | nil => rfl
  | cons name a _ rest ih => rw [childVisits, KeyMap.toList, List.flatMap_cons, ih]

/-! ## Visits behind a turn -/

namespace Visit

theorem mem_behind {t : Turn} {vs : List Visit} {p : Place} {n : Node} :
    ⟨p, n⟩ ∈ behind t vs ↔ ∃ q, ⟨q, n⟩ ∈ vs ∧ p = t :: q := by
  rw [behind, List.mem_map]
  constructor
  · rintro ⟨⟨q, m⟩, hv, e⟩
    cases e
    exact ⟨q, hv, rfl⟩
  · rintro ⟨q, hv, rfl⟩
    exact ⟨_, hv, rfl⟩

theorem pairwise_behind {t : Turn} {vs : List Visit} (h : vs.Pairwise Before) :
    (behind t vs).Pairwise Before := by
  rw [behind, List.pairwise_map]
  exact h.imp List.Lex.cons

theorem before_of_turn {t u : Turn} (h : t.Before u) {vs ws : List Visit} :
    ∀ v ∈ behind t vs, ∀ w ∈ behind u ws, v.Before w := by
  rintro ⟨p, m⟩ hv ⟨q, n⟩ hw
  obtain ⟨p, -, rfl⟩ := mem_behind.1 hv
  obtain ⟨q, -, rfl⟩ := mem_behind.1 hw
  exact List.Lex.rel h

/-- Parts behind ascending turns, each with ascending visits. -/
theorem pairwise_parts {α : Type} {l : List α} {turn : α → Turn} {visits : α → List Visit}
    (hl : l.Pairwise fun a b => (turn a).Before (turn b))
    (hv : ∀ a ∈ l, (visits a).Pairwise Before) :
    (l.flatMap fun a => behind (turn a) (visits a)).Pairwise Before := by
  rw [List.pairwise_flatMap]
  exact ⟨fun a ha => pairwise_behind (hv a ha), hl.imp fun h => before_of_turn h⟩

end Visit

/-! ## The parts of a visit -/

theorem OptionValue.mem_entryVisits {m : Body} {p : Place} {n : Node} :
    ⟨p, n⟩ ∈ entryVisits m ↔ ∃ key v q, m.get? key = some v ∧ ⟨q, n⟩ ∈ v.visits ∧
      p = .option (.key key) :: q := by
  rw [entryVisits_eq, List.mem_flatMap]
  simp only [Prod.exists, KeyMap.mem_toList_iff, Visit.mem_behind, exists_and_left]

theorem OptionValue.mem_itemVisits {vs : List OptionValue} {p : Place} {n : Node} :
    ⟨p, n⟩ ∈ itemVisits 0 vs ↔ ∃ i v q, vs[i]? = some v ∧ ⟨q, n⟩ ∈ v.visits ∧
      p = .option (.item i) :: q := by
  rw [itemVisits_eq, List.mem_flatMap]
  simp only [Prod.exists, List.mem_zipIdx_iff_getElem?, Visit.mem_behind, exists_and_left]
  exact exists_comm

theorem Aggregation.mem_childVisits {m : Aggregations} {p : Place} {n : Node} :
    ⟨p, n⟩ ∈ childVisits m ↔ ∃ name c q, m.get? name = some c ∧ ⟨q, n⟩ ∈ c.visits ∧
      p = .child name :: q := by
  rw [childVisits_eq, List.mem_flatMap]
  simp only [Prod.exists, KeyMap.mem_toList_iff, Visit.mem_behind, exists_and_left]

/-! ## Visits ascend -/

theorem KeyMap.pairwise_toList {α : Type} {lo : Option String} (m : KeyMap α lo) :
    m.toList.Pairwise fun a b => a.1 < b.1 :=
  List.pairwise_map.1 m.pairwise_keys

theorem OptionValue.pairwise_entryVisits {m : Body}
    (h : ∀ key v, m.get? key = some v → v.visits.Pairwise Visit.Before) :
    (entryVisits m).Pairwise Visit.Before := by
  rw [entryVisits_eq]
  exact Visit.pairwise_parts (m.pairwise_toList.imp fun hlt => .options (.key hlt))
    fun e he => h e.1 e.2 (KeyMap.mem_toList_iff.1 he)

theorem OptionValue.pairwise_itemVisits {vs : List OptionValue}
    (h : ∀ v ∈ vs, v.visits.Pairwise Visit.Before) :
    (itemVisits 0 vs).Pairwise Visit.Before := by
  have hidx : vs.zipIdx.Pairwise fun a b => a.2 < b.2 := by
    rw [← List.pairwise_map (f := Prod.snd), List.zipIdx_map_snd]
    exact List.pairwise_lt_range'
  rw [itemVisits_eq]
  exact Visit.pairwise_parts (hidx.imp fun hlt => .options (.item hlt))
    fun e he => h e.1 (List.fst_mem_of_mem_zipIdx he)

theorem Tree.pairwise_partVisits {t : Tree}
    (hb : (OptionValue.map t.body).visits.Pairwise Visit.Before)
    (hc : ∀ name c, t.named.get? name = some c → c.visits.Pairwise Visit.Before) :
    t.partVisits.Pairwise Visit.Before := by
  have hchildren : (Aggregation.childVisits t.named).Pairwise Visit.Before := by
    rw [Aggregation.childVisits_eq]
    exact Visit.pairwise_parts (t.named.pairwise_toList.imp fun hlt => .children hlt)
      fun e he => hc e.1 e.2 (KeyMap.mem_toList_iff.1 he)
  refine List.pairwise_append.2 ⟨hb, hchildren, ?_⟩
  rintro ⟨p, m⟩ hv ⟨q, n⟩ hw
  obtain ⟨key, v, p, -, -, rfl⟩ := OptionValue.mem_entryVisits.1 hv
  obtain ⟨name, c, q, -, -, rfl⟩ := Aggregation.mem_childVisits.1 hw
  exact List.Lex.rel .optionChild

/-- A node comes before all that is in it. -/
theorem Node.pairwise_visits_of_parts {n : Node}
    (h : (Tree.node n).partVisits.Pairwise Visit.Before) : n.visits.Pairwise Visit.Before := by
  rw [n.visits_eq]
  refine List.pairwise_cons.2 ⟨?_, h⟩
  rintro ⟨p, m⟩ hv
  rcases List.mem_append.1 hv with hv | hv
  · obtain ⟨key, v, q, -, -, rfl⟩ := OptionValue.mem_entryVisits.1 hv
    exact List.Lex.nil
  · obtain ⟨name, c, q, -, -, rfl⟩ := Aggregation.mem_childVisits.1 hv
    exact List.Lex.nil

theorem hereditary_pairwise_visits :
    Hereditary (fun n => n.visits.Pairwise Visit.Before)
      (fun v => v.visits.Pairwise Visit.Before) where
  query _ h := Node.pairwise_visits_of_parts (Tree.pairwise_partVisits h nofun)
  aggregation _ h hc := Node.pairwise_visits_of_parts (Tree.pairwise_partVisits h hc)
  script _ h := Node.pairwise_visits_of_parts (Tree.pairwise_partVisits h nofun)
  scalar _ := List.Pairwise.nil
  node _ h := h
  list _ h := OptionValue.pairwise_itemVisits h
  map _ h := OptionValue.pairwise_entryVisits h

/-- **The visits of a tree ascend**, so no place is visited twice. -/
theorem Tree.pairwise_visits (t : Tree) : t.visits.Pairwise Visit.Before := by
  match t with
  | node n => exact hereditary_pairwise_visits.node_all n
  | request r =>
    exact pairwise_partVisits (hereditary_pairwise_visits.value_all (.map r.body)) fun _ c _ =>
      hereditary_pairwise_visits.node_all (.aggregation c)

/-! ## Each place is visited -/

/-- An option value has the node `n` at a place. -/
def OptionValue.Occurs (v : OptionValue) (p : Place) (n : Node) : Prop :=
  ∃ q m r, v.Holds q (.node m) ∧ (Tree.node m).Occurs r n ∧ p = q.map .option ++ r

namespace OptionValue

variable {p : Place} {n : Node}

theorem not_occurs_scalar (v : Json) : ¬ (scalar v).Occurs p n := by
  rintro ⟨q, m, r, h, -⟩
  cases h

theorem occurs_node {m : Node} : (node m).Occurs p n ↔ (Tree.node m).Occurs p n := by
  constructor
  · rintro ⟨q, m', r, h, hr, rfl⟩
    cases h
    exact hr
  · intro h
    exact ⟨[], m, p, .self, h, rfl⟩

theorem occurs_list {vs : List OptionValue} : (list vs).Occurs p n ↔
    ∃ i v r, vs[i]? = some v ∧ v.Occurs r n ∧ p = .option (.item i) :: r := by
  constructor
  · rintro ⟨q, m, r, h, hr, rfl⟩
    cases h with
    | item hi h => exact ⟨_, _, _, hi, ⟨_, m, r, h, hr, rfl⟩, rfl⟩
  · rintro ⟨i, v, _, hi, ⟨q, m, r, h, hr, rfl⟩, rfl⟩
    exact ⟨.item i :: q, m, r, .item hi h, hr, rfl⟩

theorem occurs_map {b : Body} : (map b).Occurs p n ↔
    ∃ key v r, b.get? key = some v ∧ v.Occurs r n ∧ p = .option (.key key) :: r := by
  constructor
  · rintro ⟨q, m, r, h, hr, rfl⟩
    cases h with
    | entry he h => exact ⟨_, _, _, he, ⟨_, m, r, h, hr, rfl⟩, rfl⟩
  · rintro ⟨key, v, _, he, ⟨q, m, r, h, hr, rfl⟩, rfl⟩
    exact ⟨.key key :: q, m, r, .entry he h, hr, rfl⟩

end OptionValue

/-- What is in a tree is the tree itself, in its options, or in its children. -/
theorem Tree.occurs_iff {t : Tree} {p : Place} {n : Node} : t.Occurs p n ↔
    (t = .node n ∧ p = []) ∨ (OptionValue.map t.body).Occurs p n ∨
      ∃ name c r, t.named.get? name = some c ∧ (Tree.node (.aggregation c)).Occurs r n ∧
        p = .child name :: r := by
  constructor
  · intro h
    cases h with
    | self => exact Or.inl ⟨rfl, rfl⟩
    | option h hr => exact Or.inr (Or.inl ⟨_, _, _, h, hr, rfl⟩)
    | child hc hr => exact Or.inr (Or.inr ⟨_, _, _, hc, hr, rfl⟩)
  · rintro (⟨rfl, rfl⟩ | ⟨q, m, r, h, hr, rfl⟩ | ⟨name, c, r, hc, hr, rfl⟩)
    · exact .self
    · exact .option h hr
    · exact .child hc hr

/-- Where the visits of each part are what is in it, so are those behind the turns to the parts. -/
theorem exists_part_congr {ι α : Type} {part : ι → α → Prop} {visited occurs : α → Place → Prop}
    {turn : ι → Turn} {p : Place} (h : ∀ i a, part i a → ∀ q, visited a q ↔ occurs a q) :
    (∃ i a q, part i a ∧ visited a q ∧ p = turn i :: q) ↔
      ∃ i a q, part i a ∧ occurs a q ∧ p = turn i :: q := by
  refine exists_congr fun i => exists_congr fun a => exists_congr fun q =>
    and_congr_right fun hp => ?_
  rw [h i a hp q]

/-- The nodes in the parts of a tree, where they are those of each part. -/
theorem Tree.mem_partVisits_iff {t : Tree} {p : Place} {n : Node}
    (hb : ∀ p n, ⟨p, n⟩ ∈ (OptionValue.map t.body).visits ↔ (OptionValue.map t.body).Occurs p n)
    (hc : ∀ name c, t.named.get? name = some c → ∀ p n,
      ⟨p, n⟩ ∈ c.visits ↔ (node (.aggregation c)).Occurs p n) :
    ⟨p, n⟩ ∈ t.partVisits ↔ (OptionValue.map t.body).Occurs p n ∨
      ∃ name c r, t.named.get? name = some c ∧ (node (.aggregation c)).Occurs r n ∧
        p = .child name :: r := by
  rw [partVisits, List.mem_append, Aggregation.mem_childVisits]
  exact or_congr (hb p n) (exists_part_congr fun name c h q => hc name c h q n)

theorem Node.mem_visits_of_parts {n : Node}
    (hb : ∀ p m, ⟨p, m⟩ ∈ (OptionValue.map (Tree.node n).body).visits ↔
      (OptionValue.map (Tree.node n).body).Occurs p m)
    (hc : ∀ name c, (Tree.node n).named.get? name = some c → ∀ p m,
      ⟨p, m⟩ ∈ c.visits ↔ (Tree.node (.aggregation c)).Occurs p m) (p : Place) (m : Node) :
    ⟨p, m⟩ ∈ n.visits ↔ (Tree.node n).Occurs p m := by
  rw [n.visits_eq, List.mem_cons, Tree.mem_partVisits_iff hb hc, Tree.occurs_iff (t := .node n)]
  refine or_congr ?_ Iff.rfl
  simp only [Visit.mk.injEq, Tree.node.injEq, eq_comm (a := m)]
  exact and_comm

theorem hereditary_mem_visits :
    Hereditary (fun n => ∀ p m, ⟨p, m⟩ ∈ n.visits ↔ (Tree.node n).Occurs p m)
      (fun v => ∀ p n, ⟨p, n⟩ ∈ v.visits ↔ v.Occurs p n) where
  query _ h := Node.mem_visits_of_parts h nofun
  aggregation _ h hc := Node.mem_visits_of_parts h hc
  script _ h := Node.mem_visits_of_parts h nofun
  scalar v p n := by
    simp only [OptionValue.visits, List.not_mem_nil, OptionValue.not_occurs_scalar]
  node m h p n := by
    rw [OptionValue.occurs_node]
    exact h p n
  list vs h p n := by
    rw [OptionValue.occurs_list, OptionValue.visits, OptionValue.mem_itemVisits]
    exact exists_part_congr fun i v hi q => h v (List.mem_of_getElem? hi) q n
  map b h p n := by
    rw [OptionValue.occurs_map, OptionValue.visits, OptionValue.mem_entryVisits]
    exact exists_part_congr fun key v he q => h key v he q n

/-- **The visits of a tree are its nodes**, at all their places. -/
theorem Tree.mem_visits_iff (t : Tree) (p : Place) (n : Node) :
    ⟨p, n⟩ ∈ t.visits ↔ t.Occurs p n := by
  match t with
  | node m => exact hereditary_mem_visits.node_all m p n
  | request r =>
    have hparts := mem_partVisits_iff (t := .request r) (p := p) (n := n)
      (hereditary_mem_visits.value_all (.map r.body))
      fun _ c _ => hereditary_mem_visits.node_all (.aggregation c)
    rw [visits, hparts, Tree.occurs_iff (t := .request r)]
    simp only [reduceCtorEq, false_and, false_or]

/-! ## The log -/

/-- The event that a tree leaves when a walk comes to it. -/
def Tree.event? : Tree → Option Event
  | node (.query q) => some (.serializingQuery q.wireType)
  | node (.aggregation a) => some (.serializingAggregation a.wireType a.name)
  | node (.script _) | request _ => none

/-- The event of a visit. -/
def Visit.event? (v : Visit) : Option Event := (Tree.node v.node).event?

/-- Walk a tree, by its kind. -/
def Tree.serialize (k : SectionKey) : Tree → Logged Json
  | node n => n.serialize k
  | request r => r.serialize k

instance : Serializable Tree := ⟨Tree.serialize⟩

section
variable (k : SectionKey)

theorem OptionValue.log_serializeList (vs : List OptionValue) :
    (serializeList k vs).log = vs.flatMap fun v => (v.serialize k).log := by
  induction vs with
  | nil => rfl
  | cons v vs ih => simp [serializeList, ih]

theorem OptionValue.log_serializeEntries {lo : Option String} (m : KeyMap OptionValue lo) :
    (serializeEntries k m).log = m.toList.flatMap fun e => (e.2.serialize k).log := by
  induction m with
  | nil => rfl
  | cons key v h rest ih => simp [serializeEntries, KeyMap.toList, ih]

theorem Aggregation.log_serializeEntries {lo : Option String} (m : KeyMap Aggregation lo) :
    (serializeEntries k m).log = m.toList.flatMap fun e => (e.2.serialize k).log := by
  induction m with
  | nil => rfl
  | cons name a h rest ih => simp [serializeEntries, KeyMap.toList, ih]

/-- **The log of a tree is its own event, the logs of its options, and those of its children.** -/
theorem Tree.log_serialize_one (t : Tree) :
    (t.serialize k).log = t.event?.toList ++
      (t.body.toList.flatMap fun e => (e.2.serialize k).log) ++
        t.named.toList.flatMap fun e => (e.2.serialize k).log := by
  match t with
  | node (.query ⟨wireType, field, b⟩) =>
    show ((Query.mk wireType field b).serialize k).log = _
    simp [Query.serialize, OptionValue.log_serializeEntries, event?, body, named, KeyMap.empty,
      KeyMap.toList]
  | node (.aggregation ⟨name, wireType, b, metadata, children⟩) =>
    show ((Aggregation.mk name wireType b metadata children).serialize k).log = _
    simp [Aggregation.serialize, OptionValue.log_serializeEntries,
      Aggregation.log_serializeEntries, event?, body, named]
  | node (.script ⟨b⟩) =>
    show ((Script.mk b).serialize k).log = _
    simp [Script.serialize, OptionValue.log_serializeEntries, event?, body, named, KeyMap.empty,
      KeyMap.toList]
  | request r =>
    show (r.serialize k).log = _
    simp [SearchRequest.serialize, OptionValue.log_serializeEntries,
      Aggregation.log_serializeEntries, event?, body, named]

theorem OptionValue.log_serialize_list (vs : List OptionValue) :
    ((list vs).serialize k).log = vs.flatMap fun v => (v.serialize k).log := by
  simp [OptionValue.serialize, log_serializeList]

theorem OptionValue.log_serialize_map (m : Body) :
    ((map m).serialize k).log = m.toList.flatMap fun e => (e.2.serialize k).log := by
  simp [OptionValue.serialize, log_serializeEntries]

/-- The events of parts behind turns are the logs of the parts. -/
theorem Visit.filterMap_parts {α : Type} {l : List α} {turn : α → Turn} {visits : α → List Visit}
    {log : α → List Event} (h : ∀ a ∈ l, log a = (visits a).filterMap event?) :
    (l.flatMap fun a => behind (turn a) (visits a)).filterMap event? = l.flatMap log := by
  rw [List.filterMap_flatMap]
  refine List.flatMap_congr fun a ha => ?_
  rw [h a ha, behind, List.filterMap_map]
  rfl

theorem Tree.filterMap_partVisits {t : Tree}
    (hb : ((OptionValue.map t.body).serialize k).log =
      (OptionValue.map t.body).visits.filterMap Visit.event?)
    (hc : ∀ name c, t.named.get? name = some c →
      (c.serialize k).log = c.visits.filterMap Visit.event?) :
    t.partVisits.filterMap Visit.event? =
      (t.body.toList.flatMap fun e => (e.2.serialize k).log) ++
        t.named.toList.flatMap fun e => (e.2.serialize k).log := by
  have hchildren : (Aggregation.childVisits t.named).filterMap Visit.event? =
      t.named.toList.flatMap fun e => (e.2.serialize k).log := by
    rw [Aggregation.childVisits_eq]
    exact Visit.filterMap_parts fun e he => hc e.1 e.2 (KeyMap.mem_toList_iff.1 he)
  rw [partVisits, List.filterMap_append, hchildren, ← OptionValue.log_serialize_map, hb]
  rfl

theorem Node.log_serialize_of_parts {n : Node}
    (hb : ((OptionValue.map (Tree.node n).body).serialize k).log =
      (OptionValue.map (Tree.node n).body).visits.filterMap Visit.event?)
    (hc : ∀ name c, (Tree.node n).named.get? name = some c →
      (c.serialize k).log = c.visits.filterMap Visit.event?) :
    (n.serialize k).log = n.visits.filterMap Visit.event? := by
  have hone : (n.serialize k).log = _ := (Tree.node n).log_serialize_one k
  rw [hone, n.visits_eq, List.append_assoc, ← Tree.filterMap_partVisits k hb hc,
    List.filterMap_cons, Visit.event?]
  cases (Tree.node n).event? <;> rfl

theorem hereditary_log_serialize :
    Hereditary (fun n => (n.serialize k).log = n.visits.filterMap Visit.event?)
      (fun v => (v.serialize k).log = v.visits.filterMap Visit.event?) where
  query _ h := Node.log_serialize_of_parts k h nofun
  aggregation _ h hc := Node.log_serialize_of_parts k h hc
  script _ h := Node.log_serialize_of_parts k h nofun
  scalar _ := rfl
  node _ h := h
  list vs h := by
    have hfst : vs.zipIdx.map Prod.fst = vs := List.zipIdx_map_fst 0 vs
    have hitems : (OptionValue.itemVisits 0 vs).filterMap Visit.event? =
        vs.zipIdx.flatMap fun e => (e.1.serialize k).log := by
      rw [OptionValue.itemVisits_eq]
      exact Visit.filterMap_parts fun e he => h e.1 (List.fst_mem_of_mem_zipIdx he)
    rw [OptionValue.log_serialize_list, OptionValue.visits, hitems]
    conv_lhs => rw [← hfst, List.flatMap_map]
  map m h := by
    rw [OptionValue.log_serialize_map, OptionValue.visits, OptionValue.entryVisits_eq]
    exact (Visit.filterMap_parts fun e he => h e.1 e.2 (KeyMap.mem_toList_iff.1 he)).symm

/-- **The log of a tree is that of its visits.** -/
theorem Tree.log_serialize (t : Tree) :
    (t.serialize k).log = t.visits.filterMap Visit.event? := by
  have h := hereditary_log_serialize k
  match t with
  | node n => exact h.node_all n
  | request r =>
    have hparts := filterMap_partVisits (t := .request r) k (h.value_all (.map r.body))
      fun _ c _ => h.node_all (.aggregation c)
    rw [visits, hparts, log_serialize_one]
    rfl

end

/-! ## Serializing as a whole -/

theorem Config.log_render {α : Type} [Serializable α] (c : Config) (x : α) :
    (c.render x).log = (Serializable.serialize c.sectionKey x).log := by
  simp [Config.render]

theorem Tree.nodup_places (t : Tree) : (t.visits.map Visit.place).Nodup := by
  rw [List.Nodup, List.pairwise_map]
  refine t.pairwise_visits.imp fun {v w} hvw e => ?_
  rw [Visit.Before, e] at hvw
  exact List.lex_irrefl Turn.Before.irrefl _ hvw

theorem Event.line_serializingQuery (wireType : String) :
    (Event.serializingQuery wireType).line = "TRACE Serializing " ++ wireType ++ " query" := by
  have split : "TRACE Serializing " = "TRACE" ++ " " ++ "Serializing " := by decide
  show "TRACE" ++ " " ++ ("Serializing " ++ wireType ++ " query") = _
  simp only [split, String.append_assoc]

theorem Event.line_serializingAggregation (wireType name : String) :
    (Event.serializingAggregation wireType name).line =
      "TRACE Serializing " ++ wireType ++ " aggregation '" ++ name ++ "'" := by
  have split : "TRACE Serializing " = "TRACE" ++ " " ++ "Serializing " := by decide
  show "TRACE" ++ " " ++ ("Serializing " ++ wireType ++ " aggregation '" ++ name ++ "'") = _
  simp only [split, String.append_assoc]

/-- **The log of a walk is the tree in depth-first order**, whatever the settings, and whether
    it is rendered or only turned into a document.  It has the line of the tree itself, if that
    is a query or an aggregation, then the logs of its options and then those of its children,
    keys and names ascending; a list has the logs of its items in order, a map those of its
    entries, and a JSON value none.  So it has one line for each query and each aggregation at
    any place of the tree, in ascending order of the places, and no other line. -/
theorem log_is_preorder (t : Tree) (c : Config) :
    let log (t : Tree) := (t.serialize c.sectionKey).log
    let optionLog (v : OptionValue) := (v.serialize c.sectionKey).log
    (c.render t).log = log t ∧
    (log t = t.event?.toList ++ (t.body.toList.flatMap fun e => optionLog e.2) ++
      t.named.toList.flatMap fun e => log (.node (.aggregation e.2))) ∧
    (∀ v, optionLog (.scalar v) = []) ∧
    (∀ n, optionLog (.node n) = log (.node n)) ∧
    (∀ vs, optionLog (.list vs) = vs.flatMap optionLog) ∧
    (∀ m, optionLog (.map m) = m.toList.flatMap fun e => optionLog e.2) ∧
    (∀ m : Body, m.keys.Pairwise (· < ·)) ∧ (∀ m : Aggregations, m.keys.Pairwise (· < ·)) ∧
    log t = t.visits.filterMap Visit.event? ∧
    t.visits.Pairwise Visit.Before ∧
    (t.visits.map Visit.place).Nodup ∧
    (∀ p n, ⟨p, n⟩ ∈ t.visits ↔ t.Occurs p n) ∧
    (∀ wireType, (Event.serializingQuery wireType).line =
      "TRACE Serializing " ++ wireType ++ " query") ∧
    (∀ wireType name, (Event.serializingAggregation wireType name).line =
      "TRACE Serializing " ++ wireType ++ " aggregation '" ++ name ++ "'") ∧
    (∀ n : Node, c.render n = c.render (Tree.node n)) ∧
    (∀ q : Query, c.render q = c.render (Tree.node (.query q))) ∧
    (∀ a : Aggregation, c.render a = c.render (Tree.node (.aggregation a))) ∧
    (∀ s : Script, c.render s = c.render (Tree.node (.script s))) ∧
    ∀ r : SearchRequest, c.render r = c.render (Tree.request r) := by
  intro log optionLog
  refine ⟨c.log_render t, t.log_serialize_one c.sectionKey, fun _ => rfl, fun _ => rfl,
    OptionValue.log_serialize_list c.sectionKey, OptionValue.log_serialize_map c.sectionKey,
    fun m => m.pairwise_keys, fun m => m.pairwise_keys, t.log_serialize c.sectionKey,
    t.pairwise_visits, t.nodup_places, t.mem_visits_iff, Event.line_serializingQuery,
    Event.line_serializingAggregation, fun _ => rfl, fun _ => rfl, fun _ => rfl, fun _ => rfl,
    fun _ => rfl⟩

end SearchBody
