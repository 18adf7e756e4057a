/-
  Search bodies — which settings a text says.

  Settings are read from the table `serialize` of a text.  Two of its keys matter, each by itself;
  what else the text holds, and how the values are written, does not.

  * `Toml.content` is a value without the way in which it is written.
  * `Toml.Encodes`: the values that stand for a section key; `Config.decodeKey?_eq_some_iff` and
    `Config.decodeLayout?_eq_some_iff`: what is decoded as what.
  * `Config.decodeKey?_content` and `Config.decodeLayout?_content`: only the content is decoded.
  * `Config.SettingsOf` is the table of settings in the table of a text.
  * `Config.parse_by_settings`: which texts are refused, what the others say, and that texts with
    the same two settings come to the same, whatever reader the tables come from.
-/
import SearchBody.Config.File
import SearchBody.Proofs.Written

set_option autoImplicit false

namespace SearchBody

/-! ## Values -/

namespace Toml

mutual

/-- A value, however it is written: tables are tables with and without a header, and tables under
    one repeated header are an array. -/
def content : Toml → Toml
  | .array items => .array (contentItems items)
  | .table _ entries => .table .inline (contentEntries entries)
  | .tables earlier last =>
    .array (contentTables earlier ++ [.table .inline (contentEntries last)])
  | v => v

/-- The contents of the items of an array. -/
def contentItems : List Toml → List Toml
  | [] => []
  | v :: vs => v.content :: contentItems vs

/-- The contents of the entries of a table. -/
def contentEntries : {lo : Option String} → KeyMap Toml lo → KeyMap Toml lo
  | _, .nil => .nil
  | _, .cons k v h rest => .cons k v.content h (contentEntries rest)

/-- The contents of tables under one header. -/
def contentTables : List (KeyMap Toml none) → List Toml
  | [] => []
  | t :: ts => .table .inline (contentEntries t) :: contentTables ts

end

/-- The values that stand for a section key: its word, or a table with nothing under that word and
    no other key. -/
inductive Encodes (k : SectionKey) : Toml → Prop where
  | word : Encodes k (.string k.spelling)
  | emptyTable (outer inner : Origin) :
      Encodes k (.table outer (.single k.spelling (.table inner .empty)))
  | emptyArray (outer : Origin) : Encodes k (.table outer (.single k.spelling (.array [])))

theorem isVoid_iff {v : Toml} :
    v.isVoid = true ↔ (∃ origin, v = .table origin .empty) ∨ v = .array [] := by
  cases v with
  | table origin entries => simp [isVoid, KeyMap.isEmpty_iff]
  | array items => simp [isVoid]
  | _ => simp [isVoid]

theorem isVoid_content (v : Toml) : v.content.isVoid = v.isVoid := by
  cases v with
  | table origin entries => cases entries <;> rfl
  | array items => cases items <;> rfl
  | tables earlier last => cases earlier <;> rfl
  | _ => rfl

end Toml

theorem SectionKey.ofWord?_eq_some_iff {word : String} {k : SectionKey} :
    SectionKey.ofWord? word = some k ↔ word = k.spelling := by
  rw [k.spelling_eq]
  constructor
  · intro h
    rw [ofWord?] at h
    split at h
    · next e => cases h; exact e
    · split at h
      · next e => cases h; exact e
      · cases h
  · rintro rfl
    cases k <;> decide

namespace Config

/-! ## One setting -/

theorem decodeKey?_eq_some_iff {v : Toml} {k : SectionKey} :
    decodeKey? v = some k ↔ v.Encodes k := by
  constructor
  · intro h
    unfold decodeKey? at h
    split at h
    · rw [SectionKey.ofWord?_eq_some_iff] at h
      exact h ▸ .word
    · next origin word v _ =>
      split at h
      · next hv =>
        obtain rfl := SectionKey.ofWord?_eq_some_iff.1 h
        rcases Toml.isVoid_iff.1 hv with ⟨inner, rfl⟩ | rfl
        · exact .emptyTable origin inner
        · exact .emptyArray origin
      · cases h
    · cases h
  · intro h
    cases h <;> exact SectionKey.ofWord?_eq_some_iff.2 rfl

theorem decodeLayout?_eq_some_iff {v : Toml} {l : Layout} :
    decodeLayout? v = some l ↔ v = .boolean (l = .indented) := by
  cases v with
  | boolean b => cases b <;> cases l <;> simp [decodeLayout?]
  | _ => simp [decodeLayout?]

theorem decodeLayout?_eq_none_iff {v : Toml} :
    decodeLayout? v = none ↔ ∀ b, v ≠ .boolean b := by
  cases v with
  | boolean b => cases b <;> simp [decodeLayout?]
  | _ => simp [decodeLayout?]

theorem decodeKey?_eq_none_iff {v : Toml} : decodeKey? v = none ↔ ∀ k, ¬ v.Encodes k := by
  simp only [Option.eq_none_iff_forall_ne_some, ne_eq, decodeKey?_eq_some_iff]

theorem decodeKey?_content (v : Toml) : decodeKey? v.content = decodeKey? v := by
  cases v with
  | table origin entries =>
    cases entries with
    | nil => rfl
    | cons k v h rest =>
      cases rest with
      | nil => simp only [Toml.content, Toml.contentEntries, decodeKey?, Toml.isVoid_content]
      | cons => rfl
  | _ => rfl

theorem decodeLayout?_content (v : Toml) : decodeLayout? v.content = decodeLayout? v := by
  cases v <;> rfl

/-! ## Settings -/

section
variable {α : Type} {decode? : Toml → Option α} {default : α}

theorem decodeOr_eq_none_iff {v : Option Toml} :
    decodeOr decode? default v = none ↔ ∃ w, v = some w ∧ decode? w = none := by
  cases v with
  | none => simp [decodeOr]
  | some v => simp [decodeOr]

theorem decodeOr_eq_some_iff {v : Option Toml} {x : α} :
    decodeOr decode? default v = some x ↔
      (v = none → x = default) ∧ ∀ w, v = some w → decode? w = some x := by
  cases v with
  | none => simp [decodeOr, eq_comm]
  | some v => simp [decodeOr]

theorem decodeOr_content (h : ∀ v, decode? v.content = decode? v) (v : Option Toml) :
    decodeOr decode? default (v.map Toml.content) = decodeOr decode? default v := by
  cases v with
  | none => rfl
  | some v => exact h v

end

theorem ofValues?_eq_bind (key pretty : Option Toml) :
    ofValues? key pretty = (decodeOr decodeKey? .aggs key).bind fun k =>
      (decodeOr decodeLayout? .compact pretty).bind fun l => some ⟨k, l⟩ := rfl

/-- Each setting is taken over or has its default. -/
theorem ofValues?_eq_some_iff {key pretty : Option Toml} {c : Config} :
    ofValues? key pretty = some c ↔
      ((key = none → c.sectionKey = .aggs) ∧ ∀ v, key = some v → v.Encodes c.sectionKey) ∧
      (pretty = none → c.layout = .compact) ∧
        ∀ v, pretty = some v → v = .boolean (c.layout = .indented) := by
  simp only [← decodeKey?_eq_some_iff, ← decodeLayout?_eq_some_iff, ← decodeOr_eq_some_iff]
  rw [ofValues?_eq_bind]
  simp only [Option.bind_eq_some_iff, Option.some.injEq]
  constructor
  · rintro ⟨k, hk, l, hl, rfl⟩
    exact ⟨hk, hl⟩
  · rintro ⟨hk, hl⟩
    exact ⟨_, hk, _, hl, rfl⟩

/-- One setting that cannot be decoded is enough. -/
theorem ofValues?_eq_none_iff {key pretty : Option Toml} :
    ofValues? key pretty = none ↔
      (∃ v, key = some v ∧ ∀ k, ¬ v.Encodes k) ∨ ∃ v, pretty = some v ∧ ∀ b, v ≠ .boolean b := by
  simp only [← decodeKey?_eq_none_iff, ← decodeLayout?_eq_none_iff]
  rw [← decodeOr_eq_none_iff, ← decodeOr_eq_none_iff, ofValues?_eq_bind]
  cases decodeOr decodeKey? .aggs key with
  | none => exact iff_of_true rfl (.inl rfl)
  | some k => cases decodeOr decodeLayout? .compact pretty <;> simp

theorem ofValues?_content (key pretty : Option Toml) :
    ofValues? (key.map Toml.content) (pretty.map Toml.content) = ofValues? key pretty := by
  rw [ofValues?, decodeOr_content decodeKey?_content, decodeOr_content decodeLayout?_content]
  rfl

/-! ## Texts -/

/-- The settings in the table of a text are the table under `serialize`, or none at all. -/
def SettingsOf (t s : Toml.Table) : Prop :=
  (t.get? "serialize" = none ∧ s = .empty) ∨ ∃ origin, t.get? "serialize" = some (.table origin s)

theorem parse_of_settingsOf {read : Toml.TableReader} {text : String} {t s : Toml.Table}
    (ht : read text = some t) (hs : SettingsOf t s) :
    parseWith read text = match ofValues? (s.get? "aggs_key") (s.get? "pretty") with
      | some c => .ok c
      | none => .error .malformed := by
  have hof : ofText? read text = ofValues? (s.get? "aggs_key") (s.get? "pretty") := by
    rw [ofText?, ht, Option.bind_some, ofTable?]
    rcases hs with ⟨hnone, rfl⟩ | ⟨origin, hsome⟩
    · rw [hnone]
      rfl
    · rw [hsome]
      rfl
  cases hc : ofValues? (s.get? "aggs_key") (s.get? "pretty") <;> simp only [parseWith, hof, hc]

/-- **Only the two settings of a text matter**, to every reader of TOML.  A text with a table
    `serialize`, or with nothing of that name, is refused just if it has a section key that is none
    or a layout that is not a boolean.  Otherwise each of the two settings is taken over where it
    is there and has its default where it is not, whatever the other one is.  Texts in which the
    two settings are missing alike or have the same content come to the same. -/
theorem parse_by_settings (read : Toml.TableReader) (text : String) (t s : Toml.Table)
    (ht : read text = some t) (hs : SettingsOf t s) :
    (parseWith read text = .error .malformed ↔
      (∃ v, s.get? "aggs_key" = some v ∧ ∀ k, ¬ v.Encodes k) ∨
      ∃ v, s.get? "pretty" = some v ∧ ∀ b, v ≠ .boolean b) ∧
    (parseWith read text ≠ .error .malformed → ∃ c, parseWith read text = .ok c ∧
      (s.get? "aggs_key" = none → c.sectionKey = .aggs) ∧
      (∀ v, s.get? "aggs_key" = some v → v.Encodes c.sectionKey) ∧
      (s.get? "pretty" = none → c.layout = .compact) ∧
      ∀ v, s.get? "pretty" = some v → v = .boolean (c.layout = .indented)) ∧
    ∀ text' t' s', read text' = some t' → SettingsOf t' s' →
      (s'.get? "aggs_key").map Toml.content = (s.get? "aggs_key").map Toml.content →
      (s'.get? "pretty").map Toml.content = (s.get? "pretty").map Toml.content →
      parseWith read text' = parseWith read text := by
  rw [parse_of_settingsOf ht hs, ← ofValues?_eq_none_iff]
  refine ⟨?_, ?_, fun text' t' s' ht' hs' hk hp => ?_⟩
  · cases ofValues? (s.get? "aggs_key") (s.get? "pretty") <;> simp
  · cases hc : ofValues? (s.get? "aggs_key") (s.get? "pretty") with
    | none => exact fun h => absurd rfl h
    | some c =>
      obtain ⟨⟨hk, hk'⟩, hl, hl'⟩ := ofValues?_eq_some_iff.1 hc
      exact fun _ => ⟨c, rfl, hk, hk', hl, hl'⟩
  · rw [parse_of_settingsOf ht' hs', ← ofValues?_content, hk, hp, ofValues?_content]

/-- The long key as a table. -/
def longKey (origin : Toml.Origin) : Toml :=
  .table origin (.single "aggregations" (.table .inline .empty))

/-- Settings with the long key under a header, next to a table that does not matter. -/
def longKeyHeaded : Toml.Table :=
  .ofList [("aggs_key", longKey .header), ("names", .table .header .empty)]

/-- Settings with the long key after a dot, next to numbers that do not matter. -/
def longKeyDotted : Toml.Table :=
  .ofList [("aggs_key", longKey .dotted), ("size", .array [.integer 1])]

theorem parse_by_settings_longKey :
    (∃ t, Toml.read? "[serialize.aggs_key]\naggregations = \x7b\x7d\n[serialize.names]\n"
        = some t ∧ SettingsOf t longKeyHeaded) ∧
    (∃ t, Toml.read? "pretty = 7\n[serialize]\nsize = [1]\naggs_key.aggregations = \x7b\x7d\n"
        = some t ∧ SettingsOf t longKeyDotted) ∧
    parse "[serialize.aggs_key]\naggregations = \x7b\x7d\n[serialize.names]\n"
      = .ok ⟨.aggregations, .compact⟩ ∧
    parse "pretty = 7\n[serialize]\nsize = [1]\naggs_key.aggregations = \x7b\x7d\n"
      = .ok ⟨.aggregations, .compact⟩ := by
  have hheaded : ∃ t,
      Toml.read? "[serialize.aggs_key]\naggregations = \x7b\x7d\n[serialize.names]\n"
        = some t ∧ SettingsOf t longKeyHeaded := ⟨_, rfl, .inr ⟨.implied, rfl⟩⟩
  have hdotted : ∃ t,
      Toml.read? "pretty = 7\n[serialize]\nsize = [1]\naggs_key.aggregations = \x7b\x7d\n"
        = some t ∧ SettingsOf t longKeyDotted := ⟨_, rfl, .inr ⟨.header, rfl⟩⟩
  refine ⟨hheaded, hdotted, ?_⟩
  obtain ⟨t, ht, hs⟩ := hheaded
  obtain ⟨t', ht', hs'⟩ := hdotted
  obtain ⟨hrefused, hok, hsame⟩ := parse_by_settings Toml.read? _ t longKeyHeaded ht hs
  have hkey : longKeyHeaded.get? "aggs_key" = some (longKey .header) := rfl
  have hlong : (longKey .header).Encodes .aggregations := .emptyTable .header .inline
  have hread : parse _ ≠ .error .malformed := fun h => by
    rcases hrefused.1 h with ⟨v, hv, hnot⟩ | ⟨v, hv, -⟩
    · cases hkey.symm.trans hv
      exact hnot .aggregations hlong
    · cases hv
  obtain ⟨c, hc, -, hk, hl, -⟩ := hok hread
  have hc' : c = ⟨.aggregations, .compact⟩ := by
    cases c with
    | mk k l =>
      cases hl rfl
      cases (decodeKey?_eq_some_iff.2 hlong).symm.trans (decodeKey?_eq_some_iff.2 (hk _ hkey))
      rfl
  subst hc'
  exact ⟨hc, (hsame _ t' longKeyDotted ht' hs' rfl rfl).trans hc⟩

end Config

end SearchBody
