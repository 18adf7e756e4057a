/-
  Search bodies — what the setters write.

  Each setter writes one option.  The tables here give the key and the value of every one, from
  the argument of the setter alone, and share nothing with the setters but the arguments.

  * `Written` is a key with a value; `Written.last?`: the value that was written last under a key.
  * `SortOrder.spelling`, `SectionKey.spelling`, `Occur.spelling`, `Json.unsigned` and
    `Measure.written`: words and numbers as they are written.
  * `AggregationSetting.written`, `QuerySetting.written` and `RequestSetting.written`: the tables
    of the options, `NewAggregation.written` and `NewQuery.written` those of the starts.
  * `written_eq` and `written_settings`: the setters write what the tables say.
  * `AggregationSetting.ctorIdx_eq_of_key`, `QuerySetting.ctorIdx_eq_of_key`: options that share a
    key are the same.
-/
import SearchBody.Document
import SearchBody.Query

set_option autoImplicit false

namespace SearchBody

/-- A value as it is written, and the key that it is written under. -/
structure Written (α : Type) where
  key : String
  value : α

namespace Written

variable {α : Type}

/-- The value, if it is written under this key. -/
def at? (key : String) (w : Written α) : Option α := if key = w.key then some w.value else none

/-- The value that was written last under a key, if one was. -/
def last? (key : String) (ws : List (Written α)) : Option α := (ws.filterMap (at? key)).getLast?

end Written

/-- Things that have different keys in one list of keys are told apart by their keys. -/
theorem index_eq_of_key {σ : Type} {keys : List String} (hn : keys.Nodup) {index : σ → Nat}
    {key : σ → String} (h : ∀ s, keys[index s]? = some (key s)) {s t : σ} (e : key s = key t) :
    index s = index t := by
  have hlt : index s < keys.length := (List.getElem?_eq_some_iff.1 (h s)).1
  refine (List.getElem?_inj hlt hn).1 ?_
  rw [h, h, e]

/-! ## Words and numbers -/

/-- The word for a direction. -/
def SortOrder.spelling : SortOrder → String
  | .ascending => "asc"
  | .descending => "desc"

/-- The key of a section. -/
def SectionKey.spelling : SectionKey → String
  | .aggs => "aggs"
  | .aggregations => "aggregations"

/-- The key of the clauses of an occurrence. -/
def Occur.spelling : Occur → String
  | .must => "must"
  | .filter => "filter"
  | .should => "should"
  | .mustNot => "must_not"

/-- An unsigned word is the integer of its value. -/
def Json.unsigned (n : UInt64) : Json := .number (.integer n.toNat (fitsInteger_toNat n))

/-- A finite measure is a number, any other is null. -/
def Measure.written : Measure → Json
  | .finite x => .number (.real x)
  | .infinity _ => .null
  | .undefined => .null

theorem SortOrder.spelling_eq (order : SortOrder) : order.spelling = order.word := by
  cases order <;> rfl

theorem SectionKey.spelling_eq (k : SectionKey) : k.spelling = k.word := by
  cases k <;> rfl

theorem Occur.spelling_eq (occur : Occur) : occur.spelling = occur.key := by
  cases occur <;> rfl

theorem Occur.spelling_injective {a b : Occur} (h : a.spelling = b.spelling) : a = b := by
  cases a <;> cases b <;> first | rfl | exact absurd h (by decide)

theorem Measure.written_eq (x : Measure) : x.written = .ofMeasure x := by
  cases x <;> rfl

theorem Json.bounds_eq (min max : Json) :
    Json.bounds min max = .object ((KeyMap.single "min" min).insert "max" max) := by
  refine congrArg Json.object (KeyMap.ext_get? fun k => ?_)
  simp [KeyMap.ofList]

/-! ## Options of aggregations -/

namespace AggregationSetting

/-- The option that a setter writes. -/
def written : AggregationSetting → Written OptionValue
  | .field name => ⟨"field", .scalar (.string name)⟩
  | .script s => ⟨"script", .node (.script s)⟩
  | .missing v => ⟨"missing", .scalar v⟩
  | .format name => ⟨"format", .scalar (.string name)⟩
  | .timeZone name => ⟨"time_zone", .scalar (.string name)⟩
  | .order key direction => ⟨"order", .scalar (.object (.single key (.string direction.spelling)))⟩
  | .minDocCount n => ⟨"min_doc_count", .scalar (.unsigned n)⟩
  | .interval v => ⟨"interval", .scalar v⟩
  | .offset v => ⟨"offset", .scalar v⟩
  | .extendedBounds min max =>
    ⟨"extended_bounds", .scalar (.object ((KeyMap.single "min" min).insert "max" max))⟩
  | .hardBounds min max =>
    ⟨"hard_bounds", .scalar (.object ((KeyMap.single "min" min).insert "max" max))⟩
  | .keyed b => ⟨"keyed", .scalar (.bool b)⟩
  | .buckets n => ⟨"buckets", .scalar (.unsigned n)⟩
  | .minimumInterval name => ⟨"minimum_interval", .scalar (.string name)⟩
  | .precisionThreshold n => ⟨"precision_threshold", .scalar (.unsigned n)⟩
  | .size n => ⟨"size", .scalar (.unsigned n)⟩
  | .shardSize n => ⟨"shard_size", .scalar (.unsigned n)⟩
  | .including v => ⟨"include", .scalar v⟩
  | .excluding v => ⟨"exclude", .scalar v⟩
  | .showTermDocCountError b => ⟨"show_term_doc_count_error", .scalar (.bool b)⟩
  | .calendarInterval name => ⟨"calendar_interval", .scalar (.string name)⟩
  | .fixedInterval name => ⟨"fixed_interval", .scalar (.string name)⟩
  | .otherBucket b => ⟨"other_bucket", .scalar (.bool b)⟩
  | .otherBucketKey key => ⟨"other_bucket_key", .scalar (.string key)⟩

theorem written_eq (s : AggregationSetting) : s.written = ⟨s.key, s.stored⟩ := by
  cases s with
  | order key direction => rw [written, direction.spelling_eq]; rfl
  | extendedBounds min max | hardBounds min max => rw [written, ← Json.bounds_eq]; rfl
  | _ => rfl

/-- The keys of the options, in the order of the options. -/
def keys : List String :=
  ["field", "script", "missing", "format", "time_zone", "order", "min_doc_count", "interval",
    "offset", "extended_bounds", "hard_bounds", "keyed", "buckets", "minimum_interval",
    "precision_threshold", "size", "shard_size", "include", "exclude",
    "show_term_doc_count_error", "calendar_interval", "fixed_interval", "other_bucket",
    "other_bucket_key"]

theorem keys_nodup : keys.Nodup := by decide

theorem getElem?_keys (s : AggregationSetting) : keys[s.ctorIdx]? = some s.written.key := by
  cases s <;> rfl

/-- No two options of aggregations have one key. -/
theorem ctorIdx_eq_of_key {s t : AggregationSetting} (h : s.written.key = t.written.key) :
    s.ctorIdx = t.ctorIdx :=
  index_eq_of_key keys_nodup getElem?_keys h

theorem key_ne_filters (s : AggregationSetting) : s.written.key ≠ "filters" := by
  cases s <;> simp [written]

end AggregationSetting

/-- The options that a start writes. -/
def NewAggregation.written : NewAggregation → List (Written OptionValue)
  | .ofType .. | .named .. => []
  | .onField _ _ field => [⟨"field", .scalar (.string field)⟩]
  | .histogram _ field interval =>
    [⟨"field", .scalar (.string field)⟩, ⟨"interval", .scalar interval⟩]
  | .dateHistogram _ field interval =>
    [⟨"field", .scalar (.string field)⟩, ⟨"calendar_interval", .scalar (.string interval)⟩]
  | .autoDateHistogram _ field buckets =>
    [⟨"field", .scalar (.string field)⟩, ⟨"buckets", .scalar (.unsigned buckets)⟩]

theorem NewAggregation.written_settings (n : NewAggregation) :
    n.settings.map AggregationSetting.written = n.written := by
  cases n <;> rfl

/-! ## Options of queries -/

namespace QuerySetting

/-- The option that a setter writes. -/
def written : QuerySetting → Written OptionValue
  | .boost factor => ⟨"boost", .scalar factor.written⟩
  | .queryName name => ⟨"_name", .scalar (.string name)⟩
  | .value v => ⟨"value", .scalar v⟩
  | .caseInsensitive b => ⟨"case_insensitive", .scalar (.bool b)⟩
  | .operator name => ⟨"operator", .scalar (.string name)⟩
  | .fuzziness v => ⟨"fuzziness", .scalar v⟩
  | .analyzer name => ⟨"analyzer", .scalar (.string name)⟩
  | .minimumShouldMatch v => ⟨"minimum_should_match", .scalar v⟩
  | .gte v => ⟨"gte", .scalar v⟩
  | .gt v => ⟨"gt", .scalar v⟩
  | .lte v => ⟨"lte", .scalar v⟩
  | .lt v => ⟨"lt", .scalar v⟩
  | .format name => ⟨"format", .scalar (.string name)⟩
  | .timeZone name => ⟨"time_zone", .scalar (.string name)⟩
  | .relation name => ⟨"relation", .scalar (.string name)⟩
  | .field name => ⟨"field", .scalar (.string name)⟩
  | .filter q => ⟨"filter", .node (.query q)⟩

theorem written_eq (s : QuerySetting) : s.written = ⟨s.key, s.stored⟩ := by
  cases s with
  | boost factor => rw [written, factor.written_eq]; rfl
  | _ => rfl

/-- The keys of the options, in the order of the options. -/
def keys : List String :=
  ["boost", "_name", "value", "case_insensitive", "operator", "fuzziness", "analyzer",
    "minimum_should_match", "gte", "gt", "lte", "lt", "format", "time_zone", "relation", "field",
    "filter"]

theorem keys_nodup : keys.Nodup := by decide

theorem getElem?_keys (s : QuerySetting) : keys[s.ctorIdx]? = some s.written.key := by
  cases s <;> rfl

/-- No two options of queries have one key. -/
theorem ctorIdx_eq_of_key {s t : QuerySetting} (h : s.written.key = t.written.key) :
    s.ctorIdx = t.ctorIdx :=
  index_eq_of_key keys_nodup getElem?_keys h

end QuerySetting

/-- The options that a start writes. -/
def NewQuery.written : NewQuery → List (Written OptionValue)
  | .ofType _ | .onField .. | .matchAll | .range _ | .bool => []
  | .term _ value => [⟨"value", .scalar value⟩]
  | .matching _ text => [⟨"query", .scalar (.string text)⟩]
  | .hasField field => [⟨"field", .scalar (.string field)⟩]
  | .constantScore filter => [⟨"filter", .node (.query filter)⟩]

/-! ## Options of requests -/

namespace RequestSetting

/-- The entry that a setter writes in the document. -/
def written (k : SectionKey) : RequestSetting → Written Json
  | .query q => ⟨"query", q.document k⟩
  | .postFilter q => ⟨"post_filter", q.document k⟩
  | .size n => ⟨"size", .unsigned n⟩
  | .start n => ⟨"from", .unsigned n⟩
  | .source v => ⟨"_source", v⟩
  | .trackTotalHits v => ⟨"track_total_hits", v⟩
  | .minScore x => ⟨"min_score", x.written⟩
  | .timeout time => ⟨"timeout", .string time⟩

theorem written_eq (k : SectionKey) (s : RequestSetting) :
    s.written k = ⟨s.key, s.stored.document k⟩ := by
  cases s with
  | minScore x => rw [written, x.written_eq]; rfl
  | _ => rfl

end RequestSetting

end SearchBody
