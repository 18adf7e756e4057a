/-
  Search bodies — options as slots.

  Writes to a body come in any order, through calls of any sort.  What a slot ends up with
  follows from what it held at first and from the writes to it: a slot goes its own way, by a
  rule that knows nothing of the other slots.

  * `SlotWrite.Fills`: the rule of a slot, by the sort of the write and by what it finds there;
    `SlotRun`: several writes to one slot.
  * `fills_iff`, `slotRun_iff`: what writes leave in a slot is what the rule says, which leaves
    them no choice.
  * `SlotWrite.applyAll`: several writes to a body; `get?_applyAll`: a slot after them has been
    through the writes to it.
  * `Run.ofCalls_writes`: plain writes as calls; `Run.get?_ofCalls_about`: calls of any sort, of
    which only those about an option bear on its slot.
  * `slots_are_independent`: all of this for bodies, queries and aggregations.
-/
import SearchBody.Proofs.LastWrite

set_option autoImplicit false

namespace SearchBody

/-! ## The rule of a slot -/

/-- The value that a write leaves in a slot, by what the slot held. -/
inductive SlotWrite.Fills : SlotWrite → Option OptionValue → OptionValue → Prop
  /-- A value that is set takes the place of whatever was there. -/
  | set {key v slot} : Fills (.set key v) slot v
  /-- The first value that is pushed makes a list. -/
  | first {key v} : Fills (.push key v) none (.list [v])
  /-- A list grows at its end. -/
  | append {key v items} : Fills (.push key v) (some (.list items)) (.list (items ++ [v]))
  /-- Anything but a list becomes the first item of one, an array that is a scalar as well. -/
  | wrap {key v u} : (∀ items, u ≠ .list items) → Fills (.push key v) (some u) (.list [u, v])
  /-- An entry joins a map and leaves its other entries alone. -/
  | entry {key e v entries entries'} :
      (∀ e', entries'.get? e' = if e' = e then some v else entries.get? e') →
      Fills (.setEntry key e v) (some (.map entries)) (.map entries')
  /-- Anything but a map gives way to a map of the one entry. -/
  | alone {key e v slot entries} : (∀ m, slot ≠ some (.map m)) →
      (∀ e', entries.get? e' = if e' = e then some v else none) →
      Fills (.setEntry key e v) slot (.map entries)

/-- Writes take a slot from one state to another. -/
inductive SlotRun : List SlotWrite → Option OptionValue → Option OptionValue → Prop
  | done {slot} : SlotRun [] slot slot
  | step {w ws slot v last} : w.Fills slot v → SlotRun ws (some v) last →
      SlotRun (w :: ws) slot last

namespace OptionValue

theorem pushed_of_not_list {u : OptionValue} (h : ∀ items, u ≠ .list items) (v : OptionValue) :
    pushed (some u) v = .list [u, v] := by
  cases u with
  | list items => exact absurd rfl (h items)
  | scalar | node | map => rfl

theorem withEntry_of_not_map {slot : Option OptionValue} (h : ∀ m, slot ≠ some (.map m))
    (e : String) (v : OptionValue) : withEntry slot e v = .map (.single e v) := by
  cases slot with
  | none => rfl
  | some u =>
    cases u with
    | map m => exact absurd rfl (h m)
    | scalar | node | list => rfl

end OptionValue

namespace SlotWrite

theorem fills_filled (w : SlotWrite) (slot : Option OptionValue) : w.Fills slot (w.filled slot) := by
  cases w with
  | set key v => exact .set
  | push key v =>
    cases slot with
    | none => exact .first
    | some u =>
      cases u with
      | list items => exact .append
      | scalar | node | map => exact .wrap nofun
  | setEntry key e v =>
    have hsingle : ∀ e', (KeyMap.single e v).get? e' = if e' = e then some v else none :=
      fun e' => KeyMap.get?_single e' e v
    cases slot with
    | none => exact .alone nofun hsingle
    | some u =>
      cases u with
      | map entries => exact .entry fun e' => KeyMap.get?_insert entries e' e v
      | scalar | node | list => exact .alone nofun hsingle

/-- **A write leaves in its slot what the rule says**, and nothing else. -/
theorem fills_iff {w : SlotWrite} {slot : Option OptionValue} {v : OptionValue} :
    w.Fills slot v ↔ w.filled slot = v := by
  constructor
  · intro h
    cases h with
    | set | first | append => rfl
    | wrap hu => exact OptionValue.pushed_of_not_list hu _
    | entry hget =>
      refine congrArg OptionValue.map (KeyMap.ext_get? fun e' => ?_)
      rw [hget, KeyMap.get?_insert]
    | alone hslot hget =>
      rw [filled, OptionValue.withEntry_of_not_map hslot]
      refine congrArg OptionValue.map (KeyMap.ext_get? fun e' => ?_)
      rw [hget, KeyMap.get?_single]
  · rintro rfl
    exact fills_filled w slot

/-- What writes leave in a slot, one after the other. -/
def slotAfter (ws : List SlotWrite) (slot : Option OptionValue) : Option OptionValue :=
  ws.foldl (fun slot w => some (w.filled slot)) slot

theorem slotRun_iff {ws : List SlotWrite} {slot last : Option OptionValue} :
    SlotRun ws slot last ↔ slotAfter ws slot = last := by
  constructor
  · intro h
    induction h with
    | done => rfl
    | step hw _ ih =>
      rw [slotAfter, List.foldl_cons, fills_iff.1 hw]
      exact ih
  · intro h
    induction ws generalizing slot with
    | nil => exact h ▸ .done
    | cons w ws ih => exact .step (fills_filled w slot) (ih h)

/-- Writes leave something in a slot, and none of them empties it. -/
theorem isSome_slotAfter {ws : List SlotWrite} {slot : Option OptionValue} :
    (slotAfter ws slot).isSome = true ↔ slot.isSome = true ∨ ws ≠ [] := by
  induction ws generalizing slot with
  | nil => simp [slotAfter]
  | cons w ws ih =>
    have hfilled : (slotAfter (w :: ws) slot).isSome = true :=
      ih.2 (Or.inl (Option.isSome_some))
    exact iff_of_true hfilled (Or.inr (List.cons_ne_nil w ws))

/-! ## Writes to a body -/

/-- Carry out writes, one after the other. -/
def applyAll (ws : List SlotWrite) (b : Body) : Body := ws.foldl (fun b w => w.apply b) b

/-- **A slot after writes to a body has been through the writes to it.** -/
theorem get?_applyAll (ws : List SlotWrite) (b : Body) (k : String) :
    (applyAll ws b).get? k = slotAfter (ws.filter fun w => w.key = k) (b.get? k) := by
  induction ws generalizing b with
  | nil => rfl
  | cons w ws ih =>
    have hrest : (applyAll (w :: ws) b).get? k =
        slotAfter (ws.filter fun w => w.key = k) ((w.apply b).get? k) := ih (w.apply b)
    rw [hrest, get?_apply]
    by_cases e : k = w.key
    · rw [if_pos e, List.filter_cons, if_pos (decide_eq_true e.symm)]
      rfl
    · rw [if_neg e, List.filter_cons, if_neg (by simpa using Ne.symm e)]

theorem get?_applyAll_of_forall_ne {ws : List SlotWrite} {k : String}
    (h : ∀ w ∈ ws, w.key ≠ k) (b : Body) : (applyAll ws b).get? k = b.get? k := by
  have hnone : (ws.filter fun w => w.key = k) = [] := by simpa using h
  rw [get?_applyAll, hnone]
  rfl

/-- The keys after writes are those from before and those that were written to. -/
theorem contains_applyAll {ws : List SlotWrite} {b : Body} {k : String} :
    (applyAll ws b).contains k = true ↔ b.contains k = true ∨ ∃ w ∈ ws, w.key = k := by
  rw [KeyMap.contains, get?_applyAll, isSome_slotAfter]
  simp [KeyMap.contains]

/-- Writes to different slots can come in any order. -/
theorem applyAll_congr {ws ws' : List SlotWrite}
    (h : ∀ k, (ws.filter fun w => w.key = k) = ws'.filter fun w => w.key = k) (b : Body) :
    applyAll ws b = applyAll ws' b := by
  refine KeyMap.ext_get? fun k => ?_
  rw [get?_applyAll, get?_applyAll, h]

end SlotWrite

/-! ## Calls -/

/-- Calls that make plain writes are all accepted, and leave no lines. -/
theorem Run.ofCalls_writes {σ γ : Type} (write : σ → SlotWrite → σ) {call : γ → σ → Outcome σ}
    {plain : SlotWrite → γ} (h : ∀ w s, call (plain w) s = .done (write s w))
    (ws : List SlotWrite) (s : σ) :
    Run.ofCalls call (ws.map plain) s = ⟨ws.foldl write s, ws.map fun _ => .done, []⟩ := by
  induction ws generalizing s with
  | nil => rfl
  | cons w ws ih =>
    rw [List.map_cons, Run.ofCalls, h, Outcome.done, ih]
    rfl

theorem Query.foldl_write (ws : List SlotWrite) (q : Query) :
    ws.foldl Query.write q = { q with body := SlotWrite.applyAll ws q.body } := by
  induction ws generalizing q with
  | nil => cases q; rfl
  | cons w ws ih => exact ih (q.write w)

theorem Aggregation.foldl_write (ws : List SlotWrite) (a : Aggregation) :
    ws.foldl Aggregation.write a = { a with body := SlotWrite.applyAll ws a.body } := by
  induction ws generalizing a with
  | nil => cases a; rfl
  | cons w ws ih => exact ih (a.write w)

section
variable {σ γ : Type} {write : σ → SlotWrite → σ} {call : γ → σ → Outcome σ} (body : σ → Body)
  (hbody : ∀ s w, body (write s w) = w.apply (body s))
include hbody

/-- What a call leaves in a slot depends on what the slot held, and on nothing else. -/
theorem WritesTo.get?_congr {c : γ} {key : String} (h : WritesTo write call c key) {s t : σ}
    {k : String} (hk : (body s).get? k = (body t).get? k) :
    (body (call c s).state).get? k = (body (call c t).state).get? k := by
  obtain ⟨w, reply, log, -, hcall⟩ := h
  rw [hcall, hcall]
  cases w with
  | none => exact hk
  | some w => simp only [Option.map_some, Option.getD_some, hbody, SlotWrite.get?_apply, hk]

/-- **Of calls of any sort only those about an option bear on its slot.** -/
theorem Run.get?_ofCalls_about (about : γ → Option String)
    (hwrites : ∀ c key, about c = some key → WritesTo write call c key)
    (hnone : ∀ c s, about c = none → body (call c s).state = body s) (k : String)
    (calls : List γ) {s t : σ} (hk : (body s).get? k = (body t).get? k) :
    (body (Run.ofCalls call calls s).state).get? k =
      (body (Run.ofCalls call (calls.filter fun c => about c = some k) t).state).get? k := by
  -- the two runs part ways in all other slots, so the states are alike in this one only
  induction calls generalizing s t with
  | nil => exact hk
  | cons c calls ih =>
    by_cases e : about c = some k
    · rw [List.filter_cons, if_pos (decide_eq_true e)]
      exact ih ((hwrites c k e).get?_congr body hbody hk)
    · rw [List.filter_cons, if_neg (by simpa using e)]
      have hkept : (body (call c s).state).get? k = (body s).get? k := by
        cases ha : about c with
        | none => rw [hnone c s ha]
        | some key =>
          have hne : k ≠ key := fun h => e (h ▸ ha)
          exact (hwrites c key ha).get?_state body hbody s hne
      exact ih (hkept.trans hk)

end

/-- **The slots of a body are independent.**  After any writes to a body, a slot holds what the
    rule makes of what it held before, by the writes to it in their order, and nothing else.  The
    keys are those from before and those that were written to, and a slot that was not written to
    is as it was; so writes to different slots can come in any order.  Queries and aggregations
    accept every write and change in nothing but their bodies, and of calls of any sort on them
    only those about an option bear on its slot. -/
theorem slots_are_independent :
    (∀ (ws : List SlotWrite) (b : Body) (k : String),
      (∀ slot, SlotRun (ws.filter fun w => w.key = k) (b.get? k) slot ↔
        (SlotWrite.applyAll ws b).get? k = slot) ∧
      ((SlotWrite.applyAll ws b).contains k = true ↔
        b.contains k = true ∨ ∃ w ∈ ws, w.key = k) ∧
      ((∀ w ∈ ws, w.key ≠ k) → (SlotWrite.applyAll ws b).get? k = b.get? k)) ∧
    (∀ ws ws' : List SlotWrite,
      (∀ k, (ws.filter fun w => w.key = k) = ws'.filter fun w => w.key = k) →
      ∀ b, SlotWrite.applyAll ws b = SlotWrite.applyAll ws' b) ∧
    (∀ (ws : List SlotWrite) (q : Query), Run.ofCalls QueryCall.run (ws.map .write) q =
      ⟨{ q with body := SlotWrite.applyAll ws q.body }, ws.map fun _ => .done, []⟩) ∧
    (∀ (ws : List SlotWrite) (a : Aggregation), Run.ofCalls AggregationCall.run (ws.map .write) a =
      ⟨{ a with body := SlotWrite.applyAll ws a.body }, ws.map fun _ => .done, []⟩) ∧
    (∀ (calls : List QueryCall) (q : Query) (k : String),
      (Run.ofCalls QueryCall.run calls q).state.body.get? k =
        (Run.ofCalls QueryCall.run (calls.filter fun c => c.option = k) q).state.body.get? k) ∧
    ∀ (calls : List AggregationCall) (a : Aggregation) (k : String),
      (Run.ofCalls AggregationCall.run calls a).state.body.get? k =
        (Run.ofCalls AggregationCall.run
          (calls.filter fun c => c.option? = some k) a).state.body.get? k := by
  refine ⟨fun ws b k => ⟨fun slot => ?_, SlotWrite.contains_applyAll, fun h => ?_⟩,
    fun ws ws' h b => SlotWrite.applyAll_congr h b, fun ws q => ?_, fun ws a => ?_,
    fun calls q k => ?_, fun calls a k => ?_⟩
  · rw [SlotWrite.slotRun_iff, SlotWrite.get?_applyAll]
  · exact SlotWrite.get?_applyAll_of_forall_ne h b
  · rw [Run.ofCalls_writes Query.write (fun _ _ => rfl), Query.foldl_write]
  · rw [Run.ofCalls_writes Aggregation.write (fun _ _ => rfl), Aggregation.foldl_write]
  · have hall := Run.get?_ofCalls_about Query.body (fun _ _ => rfl)
      (fun c : QueryCall => some c.option)
      (fun c key hc => Option.some.inj hc ▸ c.writesTo) nofun k calls (s := q) rfl
    simpa only [Option.some.injEq] using hall
  · exact Run.get?_ofCalls_about Aggregation.body (fun _ _ => rfl)
      AggregationCall.option? (fun c key hc => AggregationCall.writesTo hc)
      (fun c a hc => AggregationCall.body_run_of_no_option hc a) k calls rfl

/-- A boost, and a flag where filters are put. -/
def Body.flagged : Body := Body.set (Body.set .empty "boost" (.count 2)) "filters" (.flag true)

/-- An array of tags as one value, tags and clauses that are pushed, and two filters. -/
def SlotWrite.tags : List SlotWrite :=
  [.set "tags" (.scalar (.array [.string "new"])), .setEntry "filters" "errors" (.query .matchAll),
    .push "tags" (.text "hat"), .push "must" (.query .matchAll),
    .setEntry "filters" "all" (.query .matchAll), .push "tags" (.text "red")]

/-- The same writes, one slot after the other. -/
def SlotWrite.tagsInTurn : List SlotWrite :=
  [.push "must" (.query .matchAll), .setEntry "filters" "errors" (.query .matchAll),
    .setEntry "filters" "all" (.query .matchAll), .set "tags" (.scalar (.array [.string "new"])),
    .push "tags" (.text "hat"), .push "tags" (.text "red")]

theorem slots_are_independent_tags :
    (∀ w ∈ SlotWrite.tags, w.key ≠ "boost") ∧
    (∀ k, (SlotWrite.tags.filter fun w => w.key = k) =
      SlotWrite.tagsInTurn.filter fun w => w.key = k) ∧
    (let b := SlotWrite.applyAll SlotWrite.tags .flagged
    b.get? "boost" = some (.count 2) ∧
    b.get? "tags" =
      some (.list [.scalar (.array [.string "new"]), .text "hat", .text "red"]) ∧
    b.get? "filters" =
      some (.map ((KeyMap.single "errors" (.query .matchAll)).insert "all" (.query .matchAll))) ∧
    b.get? "must" = some (.list [.query .matchAll]) ∧
    b = SlotWrite.applyAll SlotWrite.tagsInTurn .flagged) := by
  have hboost : ∀ w ∈ SlotWrite.tags, w.key ≠ "boost" := by decide
  have hturn : ∀ k, (SlotWrite.tags.filter fun w => w.key = k) =
      SlotWrite.tagsInTurn.filter fun w => w.key = k := by
    intro k
    by_cases ht : "tags" = k
    · subst ht
      rfl
    by_cases hf : "filters" = k
    · subst hf
      rfl
    simp [SlotWrite.tags, SlotWrite.tagsInTurn, SlotWrite.key, List.filter_cons, ht, hf]
  obtain ⟨hslots, horder, -⟩ := slots_are_independent
  have hslot := fun k slot => (hslots SlotWrite.tags .flagged k).1 slot
  refine ⟨hboost, hturn, (hslots SlotWrite.tags .flagged "boost").2.2 hboost, ?_, ?_, ?_,
    horder _ _ hturn .flagged⟩
  · have harray : ∀ items, OptionValue.scalar (.array [.string "new"]) ≠ .list items := by simp
    exact (hslot "tags" _).1 (.step .set (.step (.wrap harray) (.step .append .done)))
  · have hflag : ∀ m, some (OptionValue.flag true) ≠ some (.map m) := by simp [OptionValue.flag]
    exact (hslot "filters" _).1
      (.step (.alone hflag fun e => KeyMap.get?_single e "errors" _)
        (.step (.entry fun e => KeyMap.get?_insert _ e "all" _) .done))
  · exact (hslot "must" _).1 (.step .first .done)

end SearchBody
