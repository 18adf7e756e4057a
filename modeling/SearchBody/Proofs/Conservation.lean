/-
  Search bodies — no sub-aggregation is lost.

  An aggregation owns its children.  One that is attached stays until another of its name
  gives it way or until it is detached, and then the call hands it back.  So whatever the calls,
  what was there and what came is what is left and what was handed back.

  * `KeyMap.values`: the values of a map, each as often as it occurs.
  * `ChildCall`: an attachment or a detachment, with the name that it addresses.
  * `conserves_run`: the balance of one call; `conserves_ofCalls`: of a list of calls.
  * `no_child_lost`: the balance, and what each call of the list hands back.
-/
import Mathlib.Algebra.Order.Group.Multiset
import SearchBody.Proofs.Call

set_option autoImplicit false

namespace SearchBody

/-! ## The values of a map -/

namespace KeyMap

variable {α : Type} {lo : Option String}

/-- The values of a map, without their keys. -/
def values (m : KeyMap α lo) : Multiset α := m.toList.map Prod.snd

@[simp] theorem values_nil : (nil : KeyMap α lo).values = 0 := rfl

@[simp] theorem values_cons (k : String) (v : α) (h : Above lo k) (rest : KeyMap α (some k)) :
    (cons k v h rest).values = v ::ₘ rest.values := rfl

theorem values_lower {k : String} (h : Above lo k) (m : KeyMap α (some k)) :
    (m.lower h).values = m.values := by
  cases m <;> rfl

/-- What an insertion puts in, it puts in place of what was under the key. -/
theorem values_insertAbove (k : String) (v : α) (m : KeyMap α lo) (h : Above lo k) :
    (m.insertAbove k v h).values + (m.get? k).toList = m.values + {v} := by
  induction m with
  | nil => rfl
  | cons k' w above rest ih =>
    rw [insertAbove, get?_cons]
    split
    · next below =>
      -- the key is new and comes first
      have hk : k ≠ k' := fun e => String.lt_irrefl k (e ▸ below)
      have hnone : rest.get? k = none :=
        get?_eq_none_of_not_above fun above => String.lt_asymm below above.lt
      simp [hk, hnone, add_comm, Multiset.cons_swap v]
    · next below =>
      split
      · next beyond =>
        have hk : k ≠ k' := fun e => String.lt_irrefl k' (e ▸ beyond)
        rw [if_neg hk, values_cons, values_cons, Multiset.cons_add, Multiset.cons_add, ih]
      · next beyond =>
        have hk : k = k' := eq_of_not_lt below beyond
        subst hk
        simp [add_comm, Multiset.cons_swap v]

theorem values_insert (m : KeyMap α none) (k : String) (v : α) :
    (m.insert k v).values + (m.get? k).toList = m.values + {v} :=
  values_insertAbove k v m trivial

/-- What an erasure takes out is what was under the key. -/
theorem values_erase (k : String) (m : KeyMap α lo) :
    (m.erase k).values + (m.get? k).toList = m.values := by
  induction m with
  | nil => rfl
  | cons k' w above rest ih =>
    rw [erase, get?_cons]
    split
    · simp [values_lower, add_comm]
    · rw [values_cons, values_cons, Multiset.cons_add, ih]

theorem card_values (m : KeyMap α lo) : m.values.card = m.size := by
  simp [values, size]

/-- An insertion makes a map larger by one, unless the key was there. -/
theorem size_insert (m : KeyMap α none) (k : String) (v : α) :
    (m.insert k v).size + (m.get? k).toList.length = m.size + 1 := by
  have h := congrArg Multiset.card (values_insert m k v)
  simpa [card_values] using h

end KeyMap

/-! ## Calls on the children -/

/-- A call that puts a child under its name, or takes one out. -/
inductive ChildCall where
  | attach (child : Aggregation)
  | detach (name : String)

namespace ChildCall

/-- It is one of the calls on an aggregation. -/
def call : ChildCall → AggregationCall
  | attach child => .attach child
  | detach name => .detach name

/-- What a call makes of an aggregation. -/
def run (c : ChildCall) : Aggregation → Outcome Aggregation := c.call.run

/-- The name of the child that a call is about. -/
def name : ChildCall → String
  | attach child => child.name
  | detach name => name

/-- The child that a call brings along. -/
def brought? : ChildCall → Option Aggregation
  | attach child => some child
  | detach _ => none

end ChildCall

/-- The aggregation that an answer hands back. -/
def Reply.given? : Reply → Option Aggregation
  | .gave a => a
  | _ => none

/-! ## The balance -/

theorem coe_filterMap_cons {α β : Type} (f : α → Option β) (x : α) (xs : List α) :
    ((x :: xs).filterMap f : Multiset β) = (f x).toList + xs.filterMap f := by
  rw [List.filterMap_cons]
  cases f x <;> rfl

namespace ChildCall

/-- A call answers with the child that stood under its name. -/
theorem reply_run (c : ChildCall) (a : Aggregation) :
    (c.run a).reply = .gave (a.child? c.name) := by
  cases c <;> rfl

/-- **One call keeps the balance** of what comes in and what goes out. -/
theorem conserves_run (c : ChildCall) (a : Aggregation) :
    (c.run a).state.children.values + ((c.run a).reply.given?.toList : Multiset Aggregation) =
      a.children.values + c.brought?.toList := by
  cases c with
  | attach child => exact KeyMap.values_insert a.children child.name child
  | detach name =>
    have h := KeyMap.values_erase name a.children
    exact h.trans (Multiset.add_zero _).symm

/-- **A list of calls keeps it as well.** -/
theorem conserves_ofCalls (calls : List ChildCall) (a : Aggregation) :
    (Run.ofCalls run calls a).state.children.values +
        ((Run.ofCalls run calls a).replies.filterMap Reply.given? : Multiset Aggregation) =
      a.children.values + calls.filterMap brought? := by
  induction calls generalizing a with
  | nil => rfl
  | cons c calls ih =>
    set first := c.run a
    set rest := Run.ofCalls run calls first.state
    calc rest.state.children.values +
          ((first.reply :: rest.replies).filterMap Reply.given? : Multiset Aggregation)
        = rest.state.children.values + rest.replies.filterMap Reply.given? +
            first.reply.given?.toList := by
          rw [coe_filterMap_cons, add_comm (first.reply.given?.toList : Multiset Aggregation),
            add_assoc]
      _ = first.state.children.values + calls.filterMap brought? +
            first.reply.given?.toList := by rw [ih]
      _ = first.state.children.values + first.reply.given?.toList +
            calls.filterMap brought? := add_right_comm _ _ _
      _ = a.children.values + c.brought?.toList + calls.filterMap brought? := by
          rw [c.conserves_run]
      _ = a.children.values + (c :: calls).filterMap brought? := by
          rw [coe_filterMap_cons, add_assoc]

end ChildCall

/-- **No child is lost and none is doubled.**  For any attachments and detachments, the children
    that an aggregation had and those that came are, each as often, those that it has in the end
    and those that the calls handed back; and each call hands back the child that stood under
    its name just before, if there was one. -/
theorem no_child_lost (a : Aggregation) (calls : List ChildCall) :
    let r := Run.ofCalls ChildCall.run calls a
    a.children.values + (calls.filterMap ChildCall.brought? : Multiset Aggregation) =
        r.state.children.values + r.replies.filterMap Reply.given? ∧
      ∀ i : Nat, r.replies[i]? = calls[i]?.map fun c =>
        Reply.gave ((Run.ofCalls ChildCall.run (calls.take i) a).state.child? c.name) := by
  intro r
  refine ⟨(ChildCall.conserves_ofCalls calls a).symm, fun i => ?_⟩
  show (Run.ofCalls ChildCall.run calls a).replies[i]? = _
  simp only [Run.getElem?_replies_ofCalls, ChildCall.reply_run]

/-- Of two children of one name, the second makes the first go. -/
example : (Run.ofCalls ChildCall.run
    [.attach (.ofType "top" "max"), .attach (.ofType "top" "min"), .detach "top"]
    (.ofType "years" "terms")).replies =
      [.gave none, .gave (some (.ofType "top" "max")), .gave (some (.ofType "top" "min"))] := rfl

end SearchBody
