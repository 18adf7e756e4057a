/-
  Search bodies — the parameters of a script.

  Parameters that are given all at once are kept as one JSON value, parameters that are set
  one by one as a map of options.  The document does not tell the two apart: whatever the calls,
  it has the parameters that the calls make of a JSON value.

  * `ScriptCall.parameters`: what a call makes of the parameters, as one JSON value.
  * `Represents`: a slot holds a JSON value, as it stands or entry by entry.
  * `represents_run`: a call on a slot is the call on the value; `represents_ofCalls`: so is a
    list of calls.
  * `document_eq_iff`: scripts of one start have one document if the last language and the
    parameters are the same.
  * `script_of_calls`: the document of a script, entry by entry.
-/
import SearchBody.Config
import SearchBody.Proofs.LastWrite

set_option autoImplicit false

namespace SearchBody

/-! ## What a call does -/

/-- The option that a script starts with. -/
def NewScript.key : NewScript → String
  | .inline _ => "source"
  | .stored _ => "id"

/-- What that option holds. -/
def NewScript.text : NewScript → String
  | .inline source => source
  | .stored id => id

/-- The language that a call sets. -/
def ScriptCall.lang? : ScriptCall → Option String
  | .lang name => some name
  | _ => none

/-- The parameters after a call: a parameter joins an object of parameters, and takes the place
    of anything else. -/
def ScriptCall.parameters : Option Json → ScriptCall → Option Json
  | j, .lang _ => j
  | _, .params v => some v
  | some (.object entries), .param key v => some (.object (entries.insert key v))
  | _, .param key v => some (.object (.single key v))

/-! ## Slots for parameters -/

/-- A slot holds a JSON value: as it stands, or an object entry by entry. -/
inductive Represents : Option OptionValue → Option Json → Prop
  | absent : Represents none none
  | whole (v : Json) : Represents (some (.scalar v)) (some v)
  | entries (m : KeyMap Json none) :
      Represents (some (.map (m.map .scalar))) (some (.object m))

theorem Represents.document {slot : Option OptionValue} {j : Option Json} (h : Represents slot j)
    (k : SectionKey) : slot.map (OptionValue.document k) = j := by
  cases h with
  | absent => rfl
  | whole v => rfl
  | entries m =>
    have hm : OptionValue.documents k (m.map .scalar) = m := by
      refine KeyMap.ext_get? fun key => ?_
      rw [OptionValue.documents_eq, KeyMap.get?_map, KeyMap.get?_map, Option.map_map]
      exact congrFun Option.map_id (m.get? key)
    rw [Option.map_some, OptionValue.document, hm]

theorem Script.document_eq (k : SectionKey) (s : Script) :
    s.document k = .object (OptionValue.documents k s.body) := by
  cases s
  rfl

namespace ScriptCall

/-- **A call on a slot is the call on the value that the slot holds.** -/
theorem represents_run (c : ScriptCall) (s : Script) (j : Option Json)
    (h : Represents (s.body.get? "params") j) :
    Represents ((c.run s).state.body.get? "params") (parameters j c) := by
  cases c with
  | lang name =>
    show Represents ((Body.set s.body "lang" _).get? "params") j
    rw [Body.get?_set, if_neg (by decide)]
    exact h
  | params v =>
    show Represents ((Body.set s.body "params" _).get? "params") (parameters j (.params v))
    rw [Body.get?_set, if_pos rfl]
    cases j <;> exact .whole v
  | param key v =>
    show Represents ((Body.set s.body "params" _).get? "params") (parameters j (.param key v))
    rw [Body.get?_set, if_pos rfl, Script.openParams]
    have hsingle : Represents (some (.map (.single key (.scalar v))))
        (some (.object (.single key v))) := .entries (.single key v)
    have hinsert : ∀ m : KeyMap Json none,
        Represents (some (.map ((m.map .scalar).insert key (.scalar v))))
          (some (.object (m.insert key v))) := by
      intro m
      rw [← KeyMap.map_insert]
      exact .entries _
    generalize s.body.get? "params" = slot at h
    cases h with
    | absent => exact hsingle
    | entries m => exact hinsert m
    | whole w =>
      -- an object is opened into its entries, any other value gives way
      cases w with
      | object m => exact hinsert m
      | _ => exact hsingle

/-- The slot of the language holds what the last call for it stored. -/
theorem get?_lang_run (c : ScriptCall) (s : Script) :
    (c.run s).state.body.get? "lang" = (c.lang?.map .text).or (s.body.get? "lang") := by
  cases c with
  | lang name => exact Body.get?_set_or s.body "lang" "lang" (.text name)
  | params v => exact Body.get?_set_or s.body "params" "lang" (.scalar v)
  | param key v =>
    exact Body.get?_set_or s.body "params" "lang" (.withEntry s.openParams key (.scalar v))

/-- No other slot is touched. -/
theorem get?_run {key : String} (hl : key ≠ "lang") (hp : key ≠ "params") (c : ScriptCall)
    (s : Script) : (c.run s).state.body.get? key = s.body.get? key := by
  cases c with
  | lang name =>
    show (Body.set s.body "lang" _).get? key = _
    rw [Body.get?_set, if_neg hl]
  | params v =>
    show (Body.set s.body "params" _).get? key = _
    rw [Body.get?_set, if_neg hp]
  | param key' v =>
    show (Body.set s.body "params" _).get? key = _
    rw [Body.get?_set, if_neg hp]

end ScriptCall

/-! ## Runs -/

namespace NewScript

/-- The script after calls on a new one. -/
def after (start : NewScript) (calls : List ScriptCall) : Script :=
  (Run.ofCalls ScriptCall.run calls start.script).state

variable (start : NewScript) (calls : List ScriptCall)

theorem get?_start (key : String) :
    start.script.body.get? key = if key = start.key then some (.text start.text) else none := by
  cases start <;> rfl

theorem key_ne_lang : start.key ≠ "lang" := by
  cases start <;> simp [key]

theorem key_ne_params : start.key ≠ "params" := by
  cases start <;> simp [key]

/-- **The parameters of a script are those that the calls make of a JSON value.** -/
theorem represents_ofCalls :
    Represents ((start.after calls).body.get? "params")
      (calls.foldl ScriptCall.parameters none) := by
  refine Run.ofCalls_simulates ScriptCall.run
    (R := fun s j => Represents (s.body.get? "params") j) ScriptCall.represents_run ?_
  rw [get?_start, if_neg start.key_ne_params.symm]
  exact .absent

theorem get?_lang_ofCalls :
    (start.after calls).body.get? "lang" =
      (calls.filterMap ScriptCall.lang?).getLast?.map .text := by
  have hlast := Run.last_of_calls (fun s : Script => s.body.get? "lang")
    (fun c (_ : c ∈ calls) s => c.get?_lang_run s) start.script
  rw [get?_start, if_neg start.key_ne_lang.symm, Option.or_none, ← List.map_filterMap,
    List.getLast?_map] at hlast
  exact hlast

theorem get?_ofCalls {key : String} (hl : key ≠ "lang") (hp : key ≠ "params") :
    (start.after calls).body.get? key = start.script.body.get? key :=
  Run.ofCalls_induction ScriptCall.run
    (I := fun s => s.body.get? key = start.script.body.get? key)
    (fun c _ s h => (c.get?_run hl hp s).trans h) rfl

/-- **The document of a script has its source or id, its language and its parameters**, and
    nothing else. -/
theorem get?_document (k : SectionKey) (key : String) :
    (OptionValue.documents k (start.after calls).body).get? key =
      if key = start.key then some (.string start.text)
      else if key = "lang" then (calls.filterMap ScriptCall.lang?).getLast?.map .string
      else if key = "params" then calls.foldl ScriptCall.parameters none
      else none := by
  rw [get?_optionDocuments]
  by_cases hl : key = "lang"
  · subst hl
    rw [if_neg start.key_ne_lang.symm, if_pos rfl, get?_lang_ofCalls, Option.map_map]
    rfl
  by_cases hp : key = "params"
  · subst hp
    rw [if_neg start.key_ne_params.symm, if_neg hl, if_pos rfl]
    exact (start.represents_ofCalls calls).document k
  rw [if_neg hl, if_neg hp, get?_ofCalls start calls hl hp, get?_start]
  split <;> rfl

variable {start calls}

/-- Scripts of one start have one document exactly if they have one language and the same
    parameters. -/
theorem document_eq_iff {k : SectionKey} {calls' : List ScriptCall} :
    (start.after calls).document k = (start.after calls').document k ↔
      (calls.filterMap ScriptCall.lang?).getLast? = (calls'.filterMap ScriptCall.lang?).getLast? ∧
      calls.foldl ScriptCall.parameters none = calls'.foldl ScriptCall.parameters none := by
  rw [Script.document_eq, Script.document_eq, Json.object.injEq]
  constructor
  · intro h
    have hget : ∀ key, _ = _ := fun key => congrArg (KeyMap.get? key) h
    have hlang := hget "lang"
    have hparams := hget "params"
    simp only [get?_document, if_neg start.key_ne_lang.symm, if_true] at hlang
    simp only [get?_document, if_neg start.key_ne_params.symm,
      if_neg (show "params" ≠ "lang" by decide), if_true] at hparams
    exact ⟨Option.map_injective (fun _ _ => Json.string.inj) hlang, hparams⟩
  · rintro ⟨hlang, hparams⟩
    refine KeyMap.ext_get? fun key => ?_
    rw [get?_document, get?_document, hlang, hparams]

end NewScript

namespace ScriptCall

theorem parameters_eq_none (j : Option Json) (c : ScriptCall) :
    parameters j c = none ↔ j = none ∧ ∃ name, c = .lang name := by
  cases c with
  | lang name => simp [parameters]
  | params v => cases j <;> simp [parameters]
  | param key v =>
    cases j with
    | none => simp [parameters]
    | some w => cases w <;> simp [parameters]

/-- There are parameters as soon as a call has set one. -/
theorem foldl_parameters_eq_none (calls : List ScriptCall) (j : Option Json) :
    calls.foldl parameters j = none ↔ j = none ∧ ∀ c ∈ calls, ∃ name, c = .lang name := by
  induction calls generalizing j with
  | nil => simp
  | cons c calls ih =>
    rw [List.foldl_cons, ih, parameters_eq_none, List.forall_mem_cons, and_assoc]

/-- Parameters that are set one by one join an object of parameters. -/
theorem foldl_parameters_object (ps : List (String × Json)) (m : KeyMap Json none) :
    (ps.map fun p => param p.1 p.2).foldl parameters (some (.object m)) =
      some (.object (ps.foldl (fun m p => m.insert p.1 p.2) m)) := by
  induction ps generalizing m with
  | nil => rfl
  | cons p ps ih => exact ih (m.insert p.1 p.2)

theorem filterMap_lang_param (ps : List (String × Json)) :
    (ps.map fun p => param p.1 p.2).filterMap lang? = [] := by
  induction ps with
  | nil => rfl
  | cons p ps ih => exact ih

end ScriptCall

/-- **The document of a script is that of its calls.**  It is an object of the source or the id,
    the language that was set last, if one was, and the parameters, if any were set: all at once
    or one by one, a parameter joining an object of parameters and taking the place of anything
    else.  Scripts that have one document keep having one after the same calls, however they
    hold the parameters; so it is the same to add parameters one by one to an object of
    parameters and to give the whole object at once. -/
theorem script_of_calls (start : NewScript) :
    (∀ calls k, ∃ entries, (start.after calls).document k = .object entries ∧
      ∀ key, entries.get? key =
        if key = start.key then some (.string start.text)
        else if key = "lang" then (calls.filterMap ScriptCall.lang?).getLast?.map .string
        else if key = "params" then calls.foldl ScriptCall.parameters none
        else none) ∧
    (∀ calls : List ScriptCall, calls.foldl ScriptCall.parameters none = none ↔
      ∀ c ∈ calls, ∃ name, c = .lang name) ∧
    (∀ before before' k, (start.after before).document k = (start.after before').document k →
      ∀ calls k', (start.after (before ++ calls)).document k' =
        (start.after (before' ++ calls)).document k') ∧
    ∀ (before : List ScriptCall) (m : KeyMap Json none) (ps : List (String × Json))
      (calls : List ScriptCall),
      let oneByOne := before ++ .params (.object m) :: (ps.map fun p => .param p.1 p.2) ++ calls
      let atOnce :=
        before ++ .params (.object (ps.foldl (fun m p => m.insert p.1 p.2) m)) :: calls
      (∀ k, (start.after oneByOne).document k = (start.after atOnce).document k) ∧
      ∀ c : Config, (c.render (start.after oneByOne)).value =
        (c.render (start.after atOnce)).value := by
  refine ⟨fun calls k => ⟨_, Script.document_eq k _, start.get?_document calls k⟩,
    fun calls => ?_, ?_, ?_⟩
  · rw [ScriptCall.foldl_parameters_eq_none]
    exact and_iff_right rfl
  · intro before before' k h calls k'
    obtain ⟨hlang, hparams⟩ := NewScript.document_eq_iff.1 h
    refine NewScript.document_eq_iff.2 ⟨?_, ?_⟩
    · rw [List.filterMap_append, List.filterMap_append, List.getLast?_append,
        List.getLast?_append, hlang]
    · rw [List.foldl_append, List.foldl_append, hparams]
  · intro before m ps calls oneByOne atOnce
    have hdoc : ∀ k, (start.after oneByOne).document k = (start.after atOnce).document k := by
      intro k
      refine NewScript.document_eq_iff.2 ⟨?_, ?_⟩
      · simp only [oneByOne, atOnce, List.filterMap_append, List.filterMap_cons,
          ScriptCall.filterMap_lang_param, ScriptCall.lang?, List.append_nil]
      · simp [oneByOne, atOnce, ScriptCall.foldl_parameters_object, ScriptCall.parameters]
    refine ⟨hdoc, fun c => ?_⟩
    have htext : ∀ s : Script,
        (c.render s).value = (s.document c.sectionKey).render c.layout := fun s =>
      congrArg (Json.render c.layout) (s.value_serialize c.sectionKey)
    rw [htext, htext, hdoc]

/-- A factor that is given in an object, or by itself: the script holds it in two ways, and has
    one document before and after an offset is added. -/
theorem script_of_calls_factor :
    let start := NewScript.inline "_value * params.factor + params.offset"
    let given := [ScriptCall.params (.object (.single "factor" (.ofUInt64 2)))]
    let set := [ScriptCall.param "factor" (.ofUInt64 2)]
    let offset := [ScriptCall.param "offset" (.ofUInt64 1)]
    (start.after given).body.get? "params" =
        some (.scalar (.object (.single "factor" (.ofUInt64 2)))) ∧
      (start.after set).body.get? "params" =
        some (.map (.single "factor" (.scalar (.ofUInt64 2)))) ∧
      (start.after given).document .aggs = (start.after set).document .aggs ∧
      (start.after (given ++ offset)).document .aggs =
        (start.after (set ++ offset)).document .aggs := by
  intro start given set offset
  have h : (start.after given).document .aggs = (start.after set).document .aggs := rfl
  exact ⟨rfl, rfl, h, (script_of_calls start).2.2.1 given set .aggs h offset .aggs⟩

end SearchBody
