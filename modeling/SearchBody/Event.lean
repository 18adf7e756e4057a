/-
  Search bodies — what a call leaves behind.

  Calls on a builder change its state, may answer something, and leave lines in a log.

  * `Event` is a log line by its cause, `Event.line` its level and text.
  * `Logged` is a value together with the events on the way to it.
  * `Element.expect` takes a node of a family out of an element: it checks the family, then
    the node, and records each refusal.
  * `Outcome` is what one call makes of a state: the state after it, its `Reply` and its
    events.  `Outcome.guarded` runs a call on a checked argument; a refused argument
    leaves the state alone and is the only event.
  * `Run` collects the outcomes of a list of calls.
-/
import SearchBody.Element

set_option autoImplicit false

namespace SearchBody

/-! ## Events -/

/-- How detailed a log has to be to show an event. -/
inductive Level where
  | trace
  | debug
  | info
deriving DecidableEq

/-- The name of a level. -/
def Level.word : Level → String
  | .trace => "TRACE"
  | .debug => "DEBUG"
  | .info => "INFO"

/-- What a log line tells of. -/
inductive Event where
  /-- an aggregation gave way to another of the same name -/
  | replaced (name owner : String)
  /-- an argument of the wrong kind was refused -/
  | rejected (mismatch : TypeMismatch)
  | serializingQuery (wireType : String)
  | serializingAggregation (wireType name : String)
  /-- settings were read from a file, whose path is given in quotes -/
  | loadedConfig (path : String)
deriving DecidableEq

namespace Event

/-- The level of an event. -/
def level : Event → Level
  | .replaced .. | .rejected _ => .debug
  | .serializingQuery _ | .serializingAggregation .. => .trace
  | .loadedConfig _ => .info

/-- The text of an event. -/
def message : Event → String
  | .replaced name owner => "Sub-aggregation '" ++ name ++ "' replaced under '" ++ owner ++ "'"
  | .rejected m =>
    "Rejected " ++ m.actual.words ++ " where a " ++ m.expected.word ++ " node is required"
  | .serializingQuery wireType => "Serializing " ++ wireType ++ " query"
  | .serializingAggregation wireType name =>
    "Serializing " ++ wireType ++ " aggregation '" ++ name ++ "'"
  | .loadedConfig path => "Loaded DSL config from " ++ path

/-- The line of an event in a log. -/
def line (e : Event) : String := e.level.word ++ " " ++ e.message

end Event

/-- A value and the events on the way to it. -/
structure Logged (α : Type) where
  value : α
  log : List Event

namespace Logged

instance : Monad Logged where
  pure v := ⟨v, []⟩
  bind x f := ⟨(f x.value).value, x.log ++ (f x.value).log⟩

/-- Record one event. -/
def record (e : Event) : Logged Unit := ⟨(), [e]⟩

variable {α β : Type}

@[simp] theorem value_pure (v : α) : (pure v : Logged α).value = v := rfl
@[simp] theorem log_pure (v : α) : (pure v : Logged α).log = [] := rfl
@[simp] theorem value_bind (x : Logged α) (f : α → Logged β) :
    (x >>= f).value = (f x.value).value := rfl
@[simp] theorem log_bind (x : Logged α) (f : α → Logged β) :
    (x >>= f).log = x.log ++ (f x.value).log := rfl
@[simp] theorem log_record (e : Event) : (record e).log = [e] := rfl

end Logged

/-! ## Recorded checks -/

/-- Record the refusal if a check ends in one. -/
def Logged.reported {α : Type} : Except TypeMismatch α → Logged (Except TypeMismatch α)
  | .ok v => return .ok v
  | .error m => do
    Logged.record (.rejected m)
    return .error m

/-- The member of a family that an element is.  The family is checked before the node is taken
    out, and the taking out is a check of its own. -/
def Element.expect (family : Family) (e : Element) :
    Logged (Except TypeMismatch family.Member) := do
  match ← Logged.reported (e.check family) with
  | .error m => return .error m
  | .ok () => Logged.reported (e.member? family)

/-! ## Outcomes -/

/-- What a call answers. -/
inductive Reply where
  | done
  /-- the aggregation that gave way or was taken out, if there was one -/
  | gave (a : Option Aggregation)
  | refused (mismatch : TypeMismatch)

/-- What a call leaves behind. -/
structure Outcome (σ : Type) where
  state : σ
  reply : Reply
  log : List Event

namespace Outcome

variable {σ τ α γ : Type}

/-- A call that only changes the state. -/
def done (state : σ) : Outcome σ := ⟨state, .done, []⟩

/-- The same outcome, seen as one of a state around it. -/
def map (f : σ → τ) (o : Outcome σ) : Outcome τ := ⟨f o.state, o.reply, o.log⟩

/-- The same outcome without its answer. -/
def silent (o : Outcome σ) : Outcome σ := { o with reply := .done }

/-- Run a call on an argument that has been checked. -/
def guarded (state : σ) (arg : Except TypeMismatch α) (call : α → Outcome σ) : Outcome σ :=
  match arg with
  | .ok v => call v
  | .error m => ⟨state, .refused m, [.rejected m]⟩

end Outcome

/-- What a list of calls leaves behind: the last state, all replies and all events. -/
structure Run (σ : Type) where
  state : σ
  replies : List Reply
  log : List Event

/-- Make calls one after the other. -/
def Run.ofCalls {σ γ : Type} (call : γ → σ → Outcome σ) : List γ → σ → Run σ
  | [], s => ⟨s, [], []⟩
  | c :: cs, s =>
    let first := call c s
    let rest := Run.ofCalls call cs first.state
    ⟨rest.state, first.reply :: rest.replies, first.log ++ rest.log⟩

end SearchBody
