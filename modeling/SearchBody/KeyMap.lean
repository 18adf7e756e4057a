/-
  Search bodies — maps from names to values, in ascending order of the names.

  Every object of a document, every body of options and every family of named
  sub-aggregations is a finite map from strings, listed by code point.  The order
  is part of the type: a map is a chain of entries in which each key lies above
  the one before it, so there is one chain for each map.

  * `KeyMap α lo` is a map whose keys all lie above the bound `lo`; the bound
    `none` admits every key, and `KeyMap α none` is the type of all maps.
  * `get?`, `insert`, `erase`, `map`, `toList`, `ofList` are the usual operations.
  * `ext_get?`: maps with the same look-ups are equal; `get?_insert`, `get?_erase`
    and `get?_map` say what each operation does to a look-up.
  * `insert_insert`, `insert_erase`, `erase_insert`, `insert_comm` and their companions: writes
    to one key undo each other, writes to different keys change places.
  * `pairwise_keys`: the keys of the list of entries ascend.
-/

set_option autoImplicit false

namespace SearchBody

/-- The key `k` lies above the bound `lo`. -/
def Above : Option String → String → Prop
  | none, _ => True
  | some b, k => b < k

instance (lo : Option String) (k : String) : Decidable (Above lo k) :=
  match lo with
  | none => isTrue trivial
  | some b => inferInstanceAs (Decidable (b < k))

theorem Above.of_lt {b k : String} (h : b < k) : Above (some b) k := h

theorem Above.lt {b k : String} (h : Above (some b) k) : b < k := h

theorem Above.trans {lo : Option String} {k k' : String} (h : Above lo k) (h' : k < k') :
    Above lo k' := by
  cases lo with
  | none => trivial
  | some b => exact String.lt_trans h.lt h'

/-- A finite map whose keys ascend and lie above `lo`. -/
inductive KeyMap (α : Type) : Option String → Type where
  | nil {lo : Option String} : KeyMap α lo
  | cons {lo : Option String} (key : String) (value : α) (above : Above lo key)
      (rest : KeyMap α (some key)) : KeyMap α lo

namespace KeyMap

variable {α β γ : Type} {lo : Option String}

/-! ## Operations -/

/-- The map without entries. -/
def empty : KeyMap α none := .nil

instance : Inhabited (KeyMap α none) := ⟨empty⟩

/-- The entries, in ascending order of their keys. -/
def toList : {lo : Option String} → KeyMap α lo → List (String × α)
  | _, .nil => []
  | _, .cons k v _ rest => (k, v) :: rest.toList

/-- The keys, ascending. -/
def keys (m : KeyMap α lo) : List String := m.toList.map Prod.fst

/-- The number of entries. -/
def size (m : KeyMap α lo) : Nat := m.toList.length

/-- Whether there are no entries. -/
def isEmpty : {lo : Option String} → KeyMap α lo → Bool
  | _, .nil => true
  | _, .cons .. => false

/-- The value under `k`, if there is one. -/
def get? (k : String) : {lo : Option String} → KeyMap α lo → Option α
  | _, .nil => none
  | _, .cons k' v _ rest => if k = k' then some v else rest.get? k

/-- Whether `k` is a key. -/
def contains (m : KeyMap α lo) (k : String) : Bool := (m.get? k).isSome

/-- The map with `v` under `k`, where `k` keeps to the map's bound. -/
def insertAbove (k : String) (v : α) :
    {lo : Option String} → KeyMap α lo → Above lo k → KeyMap α lo
  | _, .nil, h => .cons k v h .nil
  | _, .cons k' v' h' rest, h =>
    if below : k < k' then .cons k v h (.cons k' v' (.of_lt below) rest)
    else if beyond : k' < k then .cons k' v' h' (rest.insertAbove k v (.of_lt beyond))
    else .cons k' v h' rest

/-- The map with `v` under `k`; a value already there is replaced. -/
def insert (m : KeyMap α none) (k : String) (v : α) : KeyMap α none :=
  m.insertAbove k v trivial

/-- The map of a single entry. -/
def single (k : String) (v : α) : KeyMap α none := .cons k v trivial .nil

/-- The same entries under a lower bound. -/
def lower {k : String} (h : Above lo k) : KeyMap α (some k) → KeyMap α lo
  | .nil => .nil
  | .cons k' v h' rest => .cons k' v (Above.trans h h') rest

/-- The map without the key `k`. -/
def erase (k : String) : {lo : Option String} → KeyMap α lo → KeyMap α lo
  | _, .nil => .nil
  | _, .cons k' v h rest => if k = k' then rest.lower h else .cons k' v h (rest.erase k)

/-- The map with `f` applied to every value. -/
def map (f : α → β) : {lo : Option String} → KeyMap α lo → KeyMap β lo
  | _, .nil => .nil
  | _, .cons k v h rest => .cons k (f v) h (rest.map f)

/-- The map of a list of entries, a later entry winning over an earlier one of the same key. -/
def ofList (entries : List (String × α)) : KeyMap α none :=
  entries.foldl (fun m e => m.insert e.1 e.2) empty

/-! ## Look-ups -/

@[simp] theorem get?_nil (k : String) : (nil : KeyMap α lo).get? k = none := rfl

theorem get?_cons (k k' : String) (v : α) (h : Above lo k') (rest : KeyMap α (some k')) :
    (cons k' v h rest).get? k = if k = k' then some v else rest.get? k := rfl

/-- A key that is found lies above the bound. -/
theorem above_of_get?_eq_some {m : KeyMap α lo} {k : String} {v : α} (hm : m.get? k = some v) :
    Above lo k := by
  induction m with
  | nil => cases hm
  | cons k' v' h rest ih =>
    rw [get?_cons] at hm
    split at hm
    · next e => exact e ▸ h
    · exact h.trans (ih hm).lt

theorem get?_eq_none_of_not_above {m : KeyMap α lo} {k : String} (h : ¬ Above lo k) :
    m.get? k = none := by
  cases hm : m.get? k with
  | none => rfl
  | some v => exact absurd (above_of_get?_eq_some hm) h

theorem get?_rest_self {k : String} (rest : KeyMap α (some k)) : rest.get? k = none :=
  get?_eq_none_of_not_above fun h => String.lt_irrefl k h.lt

theorem eq_of_not_lt {a b : String} (h : ¬ a < b) (h' : ¬ b < a) : a = b :=
  String.le_antisymm (String.not_lt.1 h') (String.not_lt.1 h)

theorem get?_insertAbove (k k' : String) (v : α) (m : KeyMap α lo) (h : Above lo k') :
    (m.insertAbove k' v h).get? k = if k = k' then some v else m.get? k := by
  induction m with
  | nil => rfl
  | cons key w above rest ih =>
    rw [insertAbove]
    split
    · rfl
    · next below =>
      split
      · next beyond =>
        rw [get?_cons, get?_cons, ih]
        by_cases e : k = key
        · have : k ≠ k' := fun e' => String.lt_irrefl k (by rwa [← e, ← e'] at beyond)
          simp [e, e ▸ this]
        · simp [e]
      · next beyond =>
        have e : k' = key := eq_of_not_lt below beyond
        subst e
        rw [get?_cons, get?_cons]
        split <;> rfl

@[simp] theorem get?_insert (m : KeyMap α none) (k k' : String) (v : α) :
    (m.insert k' v).get? k = if k = k' then some v else m.get? k :=
  get?_insertAbove k k' v m trivial

theorem get?_lower (k k' : String) (h : Above lo k') (m : KeyMap α (some k')) :
    (m.lower h).get? k = m.get? k := by
  cases m <;> rfl

@[simp] theorem get?_erase (m : KeyMap α lo) (k k' : String) :
    (m.erase k').get? k = if k = k' then none else m.get? k := by
  induction m with
  | nil => simp [erase]
  | cons key w above rest ih =>
    rw [erase]
    split
    · next e =>
      subst e
      rw [get?_lower, get?_cons]
      by_cases e' : k = k'
      · subst e'
        simp [get?_rest_self]
      · simp [e']
    · next ne =>
      rw [get?_cons, get?_cons, ih]
      by_cases e : k = key
      · have : k ≠ k' := fun e' => ne (e' ▸ e)
        simp [e, e ▸ this]
      · simp [e]

@[simp] theorem get?_map (f : α → β) (m : KeyMap α lo) (k : String) :
    (m.map f).get? k = (m.get? k).map f := by
  induction m with
  | nil => rfl
  | cons key w above rest ih =>
    rw [map, get?_cons, get?_cons, ih]
    split <;> rfl

@[simp] theorem get?_empty (k : String) : (empty : KeyMap α none).get? k = none := rfl

@[simp] theorem get?_single (k k' : String) (v : α) :
    (single k' v).get? k = if k = k' then some v else none := rfl

/-- Maps with the same look-ups are equal. -/
@[ext] theorem ext_get? {m n : KeyMap α lo} (h : ∀ k, m.get? k = n.get? k) : m = n := by
  induction m with
  | nil =>
    cases n with
    | nil => rfl
    | cons k v _ rest => simpa [get?_cons] using h k
  | cons k v above rest ih =>
    cases n with
    | nil => simpa [get?_cons] using h k
    | cons k' v' above' rest' =>
      have e : k = k' := by
        have hk := h k
        have hk' := h k'
        rw [get?_cons, get?_cons] at hk hk'
        by_cases e : k = k'
        · exact e
        · rw [if_pos rfl, if_neg e] at hk
          rw [if_pos rfl, if_neg (Ne.symm e)] at hk'
          have below : k < k' := (above_of_get?_eq_some hk').lt
          exact absurd below (String.lt_asymm (above_of_get?_eq_some hk.symm).lt)
      subst e
      have hv : v = v' := by simpa [get?_cons] using h k
      subst hv
      have hr : rest = rest' := ih fun j => by
        by_cases e : j = k
        · subst e
          rw [get?_rest_self, get?_rest_self]
        · simpa [get?_cons, e] using h j
      rw [hr]

theorem map_insert (f : α → β) (m : KeyMap α none) (k : String) (v : α) :
    (m.insert k v).map f = (m.map f).insert k (f v) := by
  refine ext_get? fun j => ?_
  rw [get?_map, get?_insert, get?_insert, get?_map]
  split <;> rfl

theorem isEmpty_iff {m : KeyMap α none} : m.isEmpty = true ↔ m = empty := by
  cases m <;> simp [isEmpty, empty]

theorem isEmpty_iff_get? {m : KeyMap α none} : m.isEmpty = true ↔ ∀ k, m.get? k = none := by
  rw [isEmpty_iff]
  constructor
  · rintro rfl k
    rfl
  · intro h
    exact ext_get? h

/-! ## Writes in a row -/

theorem insert_of_get? {m : KeyMap α none} {k : String} {v : α} (h : m.get? k = some v) :
    m.insert k v = m := by
  ext j
  by_cases e : j = k <;> simp [e, h]

theorem insert_insert (m : KeyMap α none) (k : String) (v w : α) :
    (m.insert k v).insert k w = m.insert k w := by
  ext j
  by_cases e : j = k <;> simp [e]

theorem insert_erase (m : KeyMap α none) (k : String) (v : α) :
    (m.erase k).insert k v = m.insert k v := by
  ext j
  by_cases e : j = k <;> simp [e]

theorem erase_insert {m : KeyMap α none} {k : String} (h : m.get? k = none) (v : α) :
    (m.insert k v).erase k = m := by
  ext j
  by_cases e : j = k <;> simp [e, h]

theorem insert_comm {k k' : String} (h : k ≠ k') (m : KeyMap α none) (v v' : α) :
    (m.insert k v).insert k' v' = (m.insert k' v').insert k v := by
  ext j
  by_cases e : j = k <;> by_cases e' : j = k' <;> simp_all

theorem erase_comm (m : KeyMap α none) (k k' : String) :
    (m.erase k).erase k' = (m.erase k').erase k := by
  ext j
  by_cases e : j = k <;> by_cases e' : j = k' <;> simp [e, e']

theorem erase_insert_comm {k k' : String} (h : k ≠ k') (m : KeyMap α none) (v : α) :
    (m.insert k v).erase k' = (m.erase k').insert k v := by
  ext j
  by_cases e : j = k <;> by_cases e' : j = k' <;> simp_all

/-! ## Entries -/

theorem mem_toList_iff {m : KeyMap α lo} {k : String} {v : α} :
    (k, v) ∈ m.toList ↔ m.get? k = some v := by
  induction m with
  | nil => simp [toList]
  | cons k' w above rest ih =>
    rw [toList, List.mem_cons, ih, get?_cons]
    by_cases e : k = k'
    · subst e
      simp [get?_rest_self, eq_comm]
    · simp [e]

theorem above_of_mem_keys {m : KeyMap α lo} {k : String} (h : k ∈ m.keys) : Above lo k := by
  obtain ⟨⟨k, v⟩, he, rfl⟩ := List.mem_map.1 h
  exact above_of_get?_eq_some (mem_toList_iff.1 he)

/-- The keys ascend. -/
theorem pairwise_keys (m : KeyMap α lo) : m.keys.Pairwise (· < ·) := by
  induction m with
  | nil => exact List.Pairwise.nil
  | cons k v _ rest ih => exact List.Pairwise.cons (fun k' hk' => (above_of_mem_keys hk').lt) ih

end KeyMap

end SearchBody
