/-
  Search bodies — whole requests.

  A request has options of its own and named aggregations.

  * `RequestSetting` is an option with its value; `sort` is the one option that grows, each
    call adding a clause.
  * `RequestCall` is a call as data, `RequestCall.run` its outcome.
-/
import SearchBody.Aggregation
import SearchBody.Node.Equality

set_option autoImplicit false

namespace SearchBody

/-- The body of a search: options and named aggregations. -/
structure SearchRequest where
  body : Body
  aggregations : Aggregations

/-- A request that asks for nothing. -/
def SearchRequest.empty : SearchRequest := ⟨.empty, .empty⟩

instance : Inhabited SearchRequest := ⟨.empty⟩

/-- Requests are equal when their options and their aggregations are. -/
def SearchRequest.beq (r t : SearchRequest) : Bool :=
  OptionValue.beqEntries r.body t.body && Aggregation.beqEntries r.aggregations t.aggregations

instance : BEq SearchRequest := ⟨SearchRequest.beq⟩

/-- An option of a request and the value to store. -/
inductive RequestSetting where
  | query (q : Query)
  | postFilter (q : Query)
  | size (n : UInt64)
  | start (n : UInt64)
  /-- which parts of the source to return -/
  | source (v : Json)
  | trackTotalHits (v : Json)
  | minScore (x : Measure)
  | timeout (time : String)

namespace RequestSetting

/-- The slot of the option. -/
def key : RequestSetting → String
  | .query _ => "query"
  | .postFilter _ => "post_filter"
  | .size _ => "size"
  | .start _ => "from"
  | .source _ => "_source"
  | .trackTotalHits _ => "track_total_hits"
  | .minScore _ => "min_score"
  | .timeout _ => "timeout"

/-- What the option stores. -/
def stored : RequestSetting → OptionValue
  | .query q | .postFilter q => .query q
  | .size n | .start n => .count n
  | .source v | .trackTotalHits v => .scalar v
  | .minScore x => .measure x
  | .timeout s => .text s

end RequestSetting

namespace SearchRequest

/-- The owner that log lines give for the aggregations of a request. -/
def owner : String := "request"

/-- Carry out a write to one option. -/
def write (r : SearchRequest) (w : SlotWrite) : SearchRequest :=
  { r with body := w.apply r.body }

/-- Set an option. -/
def set (r : SearchRequest) (s : RequestSetting) : SearchRequest := r.write (.set s.key s.stored)

/-- A clause of the order of hits. -/
def sortClause (field : String) (order : SortOrder) : Json :=
  .object (.single field (order.under "order"))

/-- Add a clause to the order of hits. -/
def sort (r : SearchRequest) (field : String) (order : SortOrder) : SearchRequest :=
  r.write (.push "sort" (.scalar (sortClause field order)))

/-- Attach an aggregation under its own name; the reply is the one it replaces. -/
def attach (r : SearchRequest) (a : Aggregation) : Outcome SearchRequest :=
  (Aggregations.attach owner a r.aggregations).map fun m => { r with aggregations := m }

/-- Attach aggregations one after the other, each under its own name. -/
def attachAll (r : SearchRequest) (as : List Aggregation) : Outcome SearchRequest :=
  (Aggregations.attachAll owner as r.aggregations).map fun m => { r with aggregations := m }

/-- Detach the aggregation of a name; the reply is what was there. -/
def detach (r : SearchRequest) (name : String) : Outcome SearchRequest :=
  (Aggregations.detach name r.aggregations).map fun m => { r with aggregations := m }

end SearchRequest

/-- A call on a request. -/
inductive RequestCall where
  | set (s : RequestSetting)
  | tryQuery (e : Element)
  | sort (field : String) (order : SortOrder)
  | agg (a : Aggregation)
  | aggs (as : List Aggregation)
  | tryAgg (e : Element)
  | removeAgg (name : String)

/-- What a call makes of a request. -/
def RequestCall.run : RequestCall → SearchRequest → Outcome SearchRequest
  | .set s, r => .done (r.set s)
  | .tryQuery e, r => .guarded r e.query? fun q => .done (r.set (.query q))
  | .sort field order, r => .done (r.sort field order)
  | .agg a, r => (r.attach a).silent
  | .aggs as, r => r.attachAll as
  | .tryAgg e, r => .guarded r e.aggregation? fun a => (r.attach a).silent
  | .removeAgg name, r => r.detach name

end SearchBody
