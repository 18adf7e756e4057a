/-
  Search bodies — queries.

  * `QueryKind` lists the known queries, with their wire types and options.
  * `Query.ofType` and `Query.onField` start a query of any wire type; `matchAll`, `term`,
    `matching`, `range`, `hasField`, `bool` and `constantScore` start the known ones.
    `NewQuery` is a start as data.
  * `QuerySetting` is an option with its value: `key` is the slot that it goes to and
    `stored` what is put there.
  * `QueryCall` is a call on a query, `QueryCall.run` its outcome.
  * `QueryCall.isOffered`: the calls that a query of a known kind takes.
-/
import SearchBody.Body
import SearchBody.Event

set_option autoImplicit false

namespace SearchBody

/-! ## Known queries -/

/-- The queries that are known by kind. -/
inductive QueryKind where
  | matchAll
  | term
  | matching
  | range
  | hasField
  | bool
  | constantScore
deriving DecidableEq

namespace QueryKind

/-- The wire type of a kind. -/
def wireType : QueryKind → String
  | .matchAll => "match_all"
  | .term => "term"
  | .matching => "match"
  | .range => "range"
  | .hasField => "exists"
  | .bool => "bool"
  | .constantScore => "constant_score"

/-- The options of a kind, apart from those that every query has. -/
def options : QueryKind → List String
  | .matchAll => []
  | .term => ["value", "case_insensitive"]
  | .matching => ["operator", "fuzziness", "analyzer", "minimum_should_match"]
  | .range => ["gte", "gt", "lte", "lt", "format", "time_zone", "relation"]
  | .hasField => ["field"]
  | .bool => ["minimum_should_match"]
  | .constantScore => ["filter"]

end QueryKind

/-! ## Starting and writing -/

namespace Query

/-- A query without options. -/
def ofType (wireType : String) : Query := ⟨wireType, none, .empty⟩

/-- A query whose options stand under a field. -/
def onField (wireType field : String) : Query := ⟨wireType, some field, .empty⟩

/-- Carry out a write to one option. -/
def write (q : Query) (w : SlotWrite) : Query := { q with body := w.apply q.body }

/-- Store an option. -/
def set (q : Query) (key : String) (v : OptionValue) : Query := q.write (.set key v)

/-- Append to an option. -/
def push (q : Query) (key : String) (v : OptionValue) : Query := q.write (.push key v)

/-- Every document. -/
def matchAll : Query := ofType QueryKind.matchAll.wireType

/-- Documents with an exact value in a field. -/
def term (field : String) (value : Json) : Query :=
  (onField QueryKind.term.wireType field).set "value" (.scalar value)

/-- Documents whose field matches a text. -/
def matching (field text : String) : Query :=
  (onField QueryKind.matching.wireType field).set "query" (.text text)

/-- Documents whose field lies between bounds. -/
def range (field : String) : Query := onField QueryKind.range.wireType field

/-- Documents that have a field. -/
def hasField (field : String) : Query :=
  (ofType QueryKind.hasField.wireType).set "field" (.text field)

/-- A combination of other queries. -/
def bool : Query := ofType QueryKind.bool.wireType

/-- A filter that gives every match one score. -/
def constantScore (filter : Query) : Query :=
  (ofType QueryKind.constantScore.wireType).set "filter" (.query filter)

end Query

/-! ## Options -/

/-- How a clause of a combination bears on a match. -/
inductive Occur where
  | must
  | filter
  | should
  | mustNot
deriving DecidableEq

/-- The option that clauses of this occurrence are listed under. -/
def Occur.key : Occur → String
  | .must => "must"
  | .filter => "filter"
  | .should => "should"
  | .mustNot => "must_not"

/-- An option of a query and the value to store. -/
inductive QuerySetting where
  | boost (factor : Measure)
  | queryName (name : String)
  | value (v : Json)
  | caseInsensitive (b : Bool)
  | operator (name : String)
  | fuzziness (v : Json)
  | analyzer (name : String)
  | minimumShouldMatch (v : Json)
  | gte (v : Json)
  | gt (v : Json)
  | lte (v : Json)
  | lt (v : Json)
  | format (name : String)
  | timeZone (name : String)
  | relation (name : String)
  | field (name : String)
  | filter (q : Query)

namespace QuerySetting

/-- The slot of the option. -/
def key : QuerySetting → String
  | .boost _ => "boost"
  | .queryName _ => "_name"
  | .value _ => "value"
  | .caseInsensitive _ => "case_insensitive"
  | .operator _ => "operator"
  | .fuzziness _ => "fuzziness"
  | .analyzer _ => "analyzer"
  | .minimumShouldMatch _ => "minimum_should_match"
  | .gte _ => "gte"
  | .gt _ => "gt"
  | .lte _ => "lte"
  | .lt _ => "lt"
  | .format _ => "format"
  | .timeZone _ => "time_zone"
  | .relation _ => "relation"
  | .field _ => "field"
  | .filter _ => "filter"

/-- What the option stores. -/
def stored : QuerySetting → OptionValue
  | .boost x => .measure x
  | .queryName s | .operator s | .analyzer s | .format s | .timeZone s | .relation s
  | .field s => .text s
  | .value v | .fuzziness v | .minimumShouldMatch v | .gte v | .gt v | .lte v
  | .lt v => .scalar v
  | .caseInsensitive b => .flag b
  | .filter q => .query q

end QuerySetting

/-! ## Calls -/

/-- A call on a query. -/
inductive QueryCall where
  | set (s : QuerySetting)
  /-- a clause of a combination -/
  | clause (occur : Occur) (q : Query)
  | tryClause (occur : Occur) (e : Element)
  /-- the filter of a constant score -/
  | tryFilter (e : Element)
  /-- a write to any option -/
  | write (w : SlotWrite)

namespace QueryCall

/-- What a call makes of a query. -/
def run : QueryCall → Query → Outcome Query
  | .set s, q => .done (q.set s.key s.stored)
  | .clause occur c, q => .done (q.push occur.key (.query c))
  | .tryClause occur e, q => .guarded q e.query? fun c => .done (q.push occur.key (.query c))
  | .tryFilter e, q => .guarded q e.query? fun c => .done (q.set "filter" (.query c))
  | .write w, q => .done (q.write w)

end QueryCall

/-! ## The calls that a query takes -/

/-- The options that every query has. -/
def Query.commonOptions : List String := ["boost", "_name"]

/-- Whether a query takes a call: a query of a known kind has the options of that kind, any
    query the common options, and all of them plain writes and pushes. -/
def QueryCall.isOffered (kind : Option QueryKind) : QueryCall → Bool
  | .set s => s.key ∈ Query.commonOptions ++ (kind.map QueryKind.options).getD []
  | .clause .. | .tryClause .. => kind = some .bool
  | .tryFilter _ => kind = some .constantScore
  | .write (.setEntry ..) => false
  | .write _ => true

/-- How a query starts. -/
inductive NewQuery where
  | ofType (wireType : String)
  | onField (wireType field : String)
  | matchAll
  | term (field : String) (value : Json)
  | matching (field text : String)
  | range (field : String)
  | hasField (field : String)
  | bool
  | constantScore (filter : Query)

namespace NewQuery

/-- The query that is started. -/
def query : NewQuery → Query
  | .ofType wireType => .ofType wireType
  | .onField wireType field => .onField wireType field
  | .matchAll => .matchAll
  | .term field value => .term field value
  | .matching field text => .matching field text
  | .range field => .range field
  | .hasField field => .hasField field
  | .bool => .bool
  | .constantScore filter => .constantScore filter

/-- The known kind that is started. -/
def kind : NewQuery → Option QueryKind
  | .ofType _ | .onField .. => none
  | .matchAll => some .matchAll
  | .term .. => some .term
  | .matching .. => some .matching
  | .range _ => some .range
  | .hasField _ => some .hasField
  | .bool => some .bool
  | .constantScore _ => some .constantScore

end NewQuery

end SearchBody
