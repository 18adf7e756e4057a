/-
  Search bodies — aggregations.

  An aggregation computes a value, or parts documents into buckets; other aggregations can
  be attached below it, each under its own name.

  * `Aggregations.attach` and `attachAll` file aggregations under their names, recording an
    event for each one that gives way; `Aggregation.attach`, `detach` and `child?` work on
    the children of an aggregation.
  * `AggregationSetting` is an option with its value, `AggregationCall` a call as data and
    `AggregationCall.run` its outcome.
  * `AggregationKind` lists the known aggregations; `AggregationCall.isOffered` says which
    calls each takes, and `NewAggregation` is a start as data.
-/
import SearchBody.Body
import SearchBody.Event

set_option autoImplicit false

namespace SearchBody

/-! ## Named aggregations -/

/-- The event of an aggregation that gives way, if there is one. -/
def Event.replacement (owner : String) : Option Aggregation → List Event
  | none => []
  | some old => [.replaced old.name owner]

namespace Aggregations

/-- File an aggregation under its name; the reply is the one it replaces. -/
def attach (owner : String) (a : Aggregation) (m : Aggregations) : Outcome Aggregations :=
  ⟨m.insert a.name a, .gave (m.get? a.name), Event.replacement owner (m.get? a.name)⟩

/-- File aggregations one after the other. -/
def attachAll (owner : String) : List Aggregation → Aggregations → Outcome Aggregations
  | [], m => .done m
  | a :: as, m =>
    let first := attach owner a m
    let rest := attachAll owner as first.state
    ⟨rest.state, .done, first.log ++ rest.log⟩

/-- Take out the aggregation of a name; the reply is what was there. -/
def detach (name : String) (m : Aggregations) : Outcome Aggregations :=
  ⟨m.erase name, .gave (m.get? name), []⟩

end Aggregations

namespace Aggregation

/-- An aggregation without options. -/
def ofType (name wireType : String) : Aggregation := ⟨name, wireType, .empty, none, .empty⟩

/-- Carry out a write to one option. -/
def write (a : Aggregation) (w : SlotWrite) : Aggregation := { a with body := w.apply a.body }

/-- Store an option. -/
def set (a : Aggregation) (key : String) (v : OptionValue) : Aggregation :=
  a.write (.set key v)

/-- Set one entry of an option. -/
def setEntry (a : Aggregation) (key entry : String) (v : OptionValue) : Aggregation :=
  a.write (.setEntry key entry v)

/-- Replace the metadata. -/
def setMetadata (a : Aggregation) (v : Json) : Aggregation := { a with metadata := some v }

/-- The child of a name. -/
def child? (a : Aggregation) (name : String) : Option Aggregation := a.children.get? name

/-- Attach a child under its own name; the reply is the one it replaces. -/
def attach (a child : Aggregation) : Outcome Aggregation :=
  (Aggregations.attach a.name child a.children).map fun m => { a with children := m }

/-- Attach children one after the other, each under its own name. -/
def attachAll (a : Aggregation) (children : List Aggregation) : Outcome Aggregation :=
  (Aggregations.attachAll a.name children a.children).map fun m => { a with children := m }

/-- Detach the child of a name; the reply is what was there. -/
def detach (a : Aggregation) (name : String) : Outcome Aggregation :=
  (Aggregations.detach name a.children).map fun m => { a with children := m }

end Aggregation

/-! ## Options -/

/-- An option of an aggregation and the value to store. -/
inductive AggregationSetting where
  | field (name : String)
  | script (s : Script)
  | missing (v : Json)
  | format (name : String)
  | timeZone (name : String)
  /-- buckets in the order of a key -/
  | order (key : String) (direction : SortOrder)
  | minDocCount (n : UInt64)
  | interval (v : Json)
  | offset (v : Json)
  | extendedBounds (min max : Json)
  | hardBounds (min max : Json)
  | keyed (b : Bool)
  | buckets (n : UInt64)
  | minimumInterval (name : String)
  | precisionThreshold (n : UInt64)
  | size (n : UInt64)
  | shardSize (n : UInt64)
  | including (v : Json)
  | excluding (v : Json)
  | showTermDocCountError (b : Bool)
  | calendarInterval (name : String)
  | fixedInterval (name : String)
  | otherBucket (b : Bool)
  | otherBucketKey (key : String)

/-- Two bounds as one value. -/
def Json.bounds (min max : Json) : Json := .ofEntries [("min", min), ("max", max)]

namespace AggregationSetting

/-- The slot of the option. -/
def key : AggregationSetting → String
  | .field _ => "field"
  | .script _ => "script"
  | .missing _ => "missing"
  | .format _ => "format"
  | .timeZone _ => "time_zone"
  | .order .. => "order"
  | .minDocCount _ => "min_doc_count"
  | .interval _ => "interval"
  | .offset _ => "offset"
  | .extendedBounds .. => "extended_bounds"
  | .hardBounds .. => "hard_bounds"
  | .keyed _ => "keyed"
  | .buckets _ => "buckets"
  | .minimumInterval _ => "minimum_interval"
  | .precisionThreshold _ => "precision_threshold"
  | .size _ => "size"
  | .shardSize _ => "shard_size"
  | .including _ => "include"
  | .excluding _ => "exclude"
  | .showTermDocCountError _ => "show_term_doc_count_error"
  | .calendarInterval _ => "calendar_interval"
  | .fixedInterval _ => "fixed_interval"
  | .otherBucket _ => "other_bucket"
  | .otherBucketKey _ => "other_bucket_key"

/-- What the option stores. -/
def stored : AggregationSetting → OptionValue
  | .field s | .format s | .timeZone s | .minimumInterval s | .calendarInterval s
  | .fixedInterval s | .otherBucketKey s => .text s
  | .script s => .script s
  | .missing v | .interval v | .offset v | .including v | .excluding v => .scalar v
  | .order k direction => .scalar (direction.under k)
  | .minDocCount n | .buckets n | .precisionThreshold n | .size n | .shardSize n => .count n
  | .extendedBounds min max | .hardBounds min max => .scalar (.bounds min max)
  | .keyed b | .showTermDocCountError b | .otherBucket b => .flag b

end AggregationSetting

/-! ## Calls -/

/-- A call on an aggregation. -/
inductive AggregationCall where
  | set (s : AggregationSetting)
  | tryScript (e : Element)
  /-- a bucket of named filters -/
  | filter (bucket : String) (q : Query)
  | tryFilter (bucket : String) (e : Element)
  | metadata (v : Json)
  | agg (child : Aggregation)
  | aggs (children : List Aggregation)
  | tryAgg (e : Element)
  /-- attach a child and answer the one it replaces -/
  | attach (child : Aggregation)
  | detach (name : String)
  /-- a write to any option -/
  | write (w : SlotWrite)

namespace AggregationCall

/-- What a call makes of an aggregation. -/
def run : AggregationCall → Aggregation → Outcome Aggregation
  | .set s, a => .done (a.set s.key s.stored)
  | .tryScript e, a => .guarded a e.script? fun s => .done (a.set "script" (.script s))
  | .filter bucket q, a => .done (a.setEntry "filters" bucket (.query q))
  | .tryFilter bucket e, a =>
    .guarded a e.query? fun q => .done (a.setEntry "filters" bucket (.query q))
  | .metadata v, a => .done (a.setMetadata v)
  | .agg child, a => (a.attach child).silent
  | .aggs children, a => a.attachAll children
  | .tryAgg e, a => .guarded a e.aggregation? fun child => (a.attach child).silent
  | .attach child, a => a.attach child
  | .detach name, a => a.detach name
  | .write w, a => .done (a.write w)

end AggregationCall

/-! ## Known aggregations -/

/-- The aggregations that are known by kind. -/
inductive AggregationKind where
  | sum
  | avg
  | min
  | max
  | stats
  | valueCount
  | cardinality
  | terms
  | histogram
  | dateHistogram
  | autoDateHistogram
  | filters
deriving DecidableEq

namespace AggregationKind

/-- The wire type of a kind. -/
def wireType : AggregationKind → String
  | .sum => "sum"
  | .avg => "avg"
  | .min => "min"
  | .max => "max"
  | .stats => "stats"
  | .valueCount => "value_count"
  | .cardinality => "cardinality"
  | .terms => "terms"
  | .histogram => "histogram"
  | .dateHistogram => "date_histogram"
  | .autoDateHistogram => "auto_date_histogram"
  | .filters => "filters"

/-- Options of aggregations over the values of a field or a script. -/
def sourceOptions : List String := ["field", "script", "missing"]

/-- Options on the order of buckets and on sparse ones. -/
def orderOptions : List String := ["order", "min_doc_count"]

/-- Options on how the buckets of a histogram lie. -/
def layoutOptions : List String := ["offset", "extended_bounds", "hard_bounds", "keyed"]

/-- The options of a kind that hold one value each. -/
def options : AggregationKind → List String
  | .sum | .avg | .min | .max | .stats => sourceOptions ++ ["format"]
  | .valueCount => sourceOptions
  | .cardinality => sourceOptions ++ ["format", "precision_threshold"]
  | .terms =>
    sourceOptions ++ orderOptions
      ++ ["size", "shard_size", "include", "exclude", "show_term_doc_count_error"]
  | .histogram => sourceOptions ++ ["format"] ++ orderOptions ++ ["interval"] ++ layoutOptions
  | .dateHistogram =>
    sourceOptions ++ ["format"] ++ orderOptions ++ layoutOptions
      ++ ["time_zone", "calendar_interval", "fixed_interval"]
  | .autoDateHistogram =>
    sourceOptions ++ ["format", "buckets", "minimum_interval", "time_zone"]
  | .filters => ["other_bucket", "other_bucket_key"]

end AggregationKind

/-- Whether an aggregation takes a call: options go by kind, and every aggregation takes
    metadata, children and plain writes. -/
def AggregationCall.isOffered (kind : Option AggregationKind) : AggregationCall → Bool
  | .set s => s.key ∈ (kind.map AggregationKind.options).getD []
  | .tryScript _ => "script" ∈ (kind.map AggregationKind.options).getD []
  | .filter .. | .tryFilter .. => kind = some .filters
  | .write (.push ..) => false
  | _ => true

/-- How an aggregation starts. -/
inductive NewAggregation where
  | ofType (name wireType : String)
  /-- without options -/
  | named (kind : AggregationKind) (name : String)
  /-- on a field -/
  | onField (kind : AggregationKind) (name field : String)
  | histogram (name field : String) (interval : Json)
  | dateHistogram (name field calendarInterval : String)
  | autoDateHistogram (name field : String) (buckets : UInt64)

namespace NewAggregation

/-- The known kind that is started. -/
def kind : NewAggregation → Option AggregationKind
  | .ofType .. => none
  | .named kind _ | .onField kind .. => some kind
  | .histogram .. => some .histogram
  | .dateHistogram .. => some .dateHistogram
  | .autoDateHistogram .. => some .autoDateHistogram

/-- The settings that the start brings along. -/
def settings : NewAggregation → List AggregationSetting
  | .ofType .. | .named .. => []
  | .onField _ _ field => [.field field]
  | .histogram _ field interval => [.field field, .interval interval]
  | .dateHistogram _ field interval => [.field field, .calendarInterval interval]
  | .autoDateHistogram _ field buckets => [.field field, .buckets buckets]

/-- The aggregation before the settings. -/
def bare : NewAggregation → Aggregation
  | .ofType name wireType => .ofType name wireType
  | .named kind name | .onField kind name _ => .ofType name kind.wireType
  | .histogram name .. => .ofType name AggregationKind.histogram.wireType
  | .dateHistogram name .. => .ofType name AggregationKind.dateHistogram.wireType
  | .autoDateHistogram name .. => .ofType name AggregationKind.autoDateHistogram.wireType

/-- The aggregation that is started. -/
def aggregation (n : NewAggregation) : Aggregation :=
  n.settings.foldl (fun a s => a.set s.key s.stored) n.bare

end NewAggregation

end SearchBody
