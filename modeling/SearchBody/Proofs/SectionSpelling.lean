/-
  Search bodies — the two spellings of the section key.

  Spelling the section key in full renames the sections of a document and nothing else.

  * `Json.renameAt` renames a key of the objects of a document at given places.
  * `Tree.SectionAt`: the places of the sections of a tree.
  * `spellOut_document`: the document under the long key is the document under the short one,
    renamed at the sections.
  * `object_of_at_named`: what is renamed is in an object without the new key;
    `not_sectionAt_of_covers`: no name or value that the tree was given is a section.
  * `document_aggregations` puts these together.
-/
import SearchBody.Proofs.Reachable

set_option autoImplicit false

namespace SearchBody

/-! ## Renaming a key at places -/

namespace KeyMap

variable {α : Type}

/-- The map with the value under `old` under `new` instead. -/
def rename (old new : String) (m : KeyMap α none) : KeyMap α none :=
  match m.get? old with
  | none => m
  | some v => (m.erase old).insert new v

theorem get?_rename {old new : String} {m : KeyMap α none} (h : m.get? new = none)
    (key : String) :
    (m.rename old new).get? key =
      if key = new then m.get? old else if key = old then none else m.get? key := by
  unfold rename
  cases hv : m.get? old with
  | none =>
    show m.get? key = _
    by_cases hn : key = new
    · rw [if_pos hn, hn, h]
    · by_cases ho : key = old
      · rw [if_neg hn, if_pos ho, ho, hv]
      · rw [if_neg hn, if_neg ho]
  | some v =>
    show ((m.erase old).insert new v).get? key = _
    rw [get?_insert, get?_erase]

end KeyMap

namespace Json

section
variable (old new : String)

open Classical in
mutual

/-- The document with the key `old` renamed to `new` where it stands at one of the places
    `here`. -/
noncomputable def renameAt (here : Path → Prop) : Json → Json
  | .array items => .array (renameItems here 0 items)
  | .object entries =>
    .object (if here [.key old] then (renameEntries here entries).rename old new
      else renameEntries here entries)
  | j => j

/-- The items of a list, from the index `i` on, renamed within. -/
noncomputable def renameItems (here : Path → Prop) (i : Nat) : List Json → List Json
  | [] => []
  | v :: vs => renameAt (fun p => here (.item i :: p)) v :: renameItems here (i + 1) vs

/-- The entries of an object, renamed within. -/
noncomputable def renameEntries (here : Path → Prop) :
    {lo : Option String} → KeyMap Json lo → KeyMap Json lo
  | _, .nil => .nil
  | _, .cons key v h rest =>
    .cons key (renameAt (fun p => here (.key key :: p)) v) h (renameEntries here rest)

end

variable {old new}

theorem getElem?_renameItems (here : Path → Prop) (vs : List Json) (i j : Nat) :
    (renameItems old new here i vs)[j]? =
      vs[j]?.map (renameAt old new fun p => here (.item (i + j) :: p)) := by
  induction vs generalizing i j with
  | nil => simp [renameItems]
  | cons v vs ih =>
    cases j with
    | zero => simp [renameItems]
    | succ j =>
      rw [renameItems, List.getElem?_cons_succ, List.getElem?_cons_succ, ih,
        show i + 1 + j = i + (j + 1) by omega]

@[simp] theorem get?_renameEntries (here : Path → Prop) {lo : Option String} (m : KeyMap Json lo)
    (key : String) :
    (renameEntries old new here m).get? key =
      (m.get? key).map (renameAt old new fun p => here (.key key :: p)) := by
  induction m with
  | nil => rfl
  | cons k v h rest ih =>
    rw [renameEntries, KeyMap.get?_cons, KeyMap.get?_cons, ih]
    split
    · next e => rw [e]; rfl
    · rfl

theorem renameAt_object {here : Path → Prop} (h : ¬ here [.key old]) (m : KeyMap Json none) :
    renameAt old new here (.object m) = .object (renameEntries old new here m) := by
  rw [renameAt, if_neg h]

/-- Where the key is renamed if it is there, and the new key is not. -/
theorem renameAt_object_eq {here : Path → Prop} {m n : KeyMap Json none}
    (hn : m.get? new = none) (ho : ¬ here [.key old] → m.get? old = none)
    (h : ∀ key, n.get? key = if key = new then
        (m.get? old).map (renameAt old new fun p => here (.key old :: p))
      else if key = old then none
      else (m.get? key).map (renameAt old new fun p => here (.key key :: p))) :
    renameAt old new here (.object m) = .object n := by
  have hn' : (renameEntries old new here m).get? new = none := by simp [hn]
  rw [renameAt]
  congr 1
  refine KeyMap.ext_get? fun key => ?_
  rw [h]
  split
  · rw [KeyMap.get?_rename hn']
    simp only [get?_renameEntries]
  · next hh =>
    rw [get?_renameEntries]
    by_cases hk : key = new
    · rw [if_pos hk, hk, hn, ho hh]
      rfl
    · by_cases hk' : key = old
      · rw [if_neg hk, if_pos hk', hk', ho hh]
        rfl
      · rw [if_neg hk, if_neg hk']

mutual

theorem renameAt_nowhere : (j : Json) → renameAt old new (fun _ => False) j = j
  | .null | .bool _ | .number _ | .string _ => by simp [renameAt]
  | .array vs => by simp [renameAt, renameItems_nowhere vs]
  | .object m => by simp [renameAt, renameEntries_nowhere m]

theorem renameItems_nowhere : (vs : List Json) → {i : Nat} →
    renameItems old new (fun _ => False) i vs = vs
  | [], _ => rfl
  | v :: vs, _ => by simp [renameItems, renameAt_nowhere v, renameItems_nowhere vs]

theorem renameEntries_nowhere : {lo : Option String} → (m : KeyMap Json lo) →
    renameEntries old new (fun _ => False) m = m
  | _, .nil => rfl
  | _, .cons _ v _ rest => by
    simp [renameEntries, renameAt_nowhere v, renameEntries_nowhere rest]

end

end

end Json

/-! ## The places of sections -/

/-- A section stands at a place of the document, under the short key: the children of an
    aggregation with at least one, or the aggregations of a request with at least one. -/
def Tree.SectionAt (t : Tree) (p : Path) : Prop := ∃ m, t.At .aggs p (.named m)

/-- The section of a node that an option value holds stands at a place of its document. -/
def OptionValue.SectionAt (v : OptionValue) (p : Path) : Prop :=
  ∃ q n r, v.Holds q (.node n) ∧ (Tree.node n).SectionAt r ∧ p = q ++ r

theorem Tree.sectionAt_iff {t : Tree} {p : Path} :
    t.SectionAt p ↔ (t.named.isEmpty = false ∧ p = [.key SectionKey.aggs.word]) ∨
      (∃ q, (OptionValue.map t.body).SectionAt q ∧ p = t.optionsPath ++ q) ∨
      ∃ name c q, t.named.get? name = some c ∧ (node (.aggregation c)).SectionAt q ∧
        p = .key SectionKey.aggs.word :: .key name :: q := by
  constructor
  · rintro ⟨m, h⟩
    cases h with
    | named h => exact Or.inl ⟨h, rfl⟩
    | inner hp h => exact Or.inr (Or.inl ⟨_, ⟨_, _, _, hp, ⟨m, h⟩, rfl⟩, rfl⟩)
    | child hc h => exact Or.inr (Or.inr ⟨_, _, _, hc, ⟨m, h⟩, rfl⟩)
  · rintro (⟨h, rfl⟩ | ⟨_, ⟨q, n, r, hp, ⟨m, h⟩, rfl⟩, rfl⟩ | ⟨name, c, q, hc, ⟨m, h⟩, rfl⟩)
    · exact ⟨_, .named h⟩
    · exact ⟨m, .inner hp h⟩
    · exact ⟨m, .child hc h⟩

namespace OptionValue

theorem not_sectionAt_scalar (v : Json) (p : Path) : ¬ (scalar v).SectionAt p := by
  rintro ⟨q, n, r, h, -⟩
  cases h

theorem sectionAt_node {n : Node} {p : Path} :
    (node n).SectionAt p ↔ (Tree.node n).SectionAt p := by
  constructor
  · rintro ⟨q, m, r, hq, h, rfl⟩
    obtain ⟨rfl, e⟩ := holds_node.1 hq
    cases e
    exact h
  · exact fun h => ⟨[], n, p, .self, h, rfl⟩

theorem sectionAt_list {vs : List OptionValue} {p : Path} :
    (list vs).SectionAt p ↔
      ∃ i v q, vs[i]? = some v ∧ v.SectionAt q ∧ p = .item i :: q := by
  constructor
  · rintro ⟨q, n, r, hq, h, rfl⟩
    cases hq with
    | item hi hv => exact ⟨_, _, _, hi, ⟨_, _, _, hv, h, rfl⟩, rfl⟩
  · rintro ⟨i, v, _, hi, ⟨q, n, r, hv, h, rfl⟩, rfl⟩
    exact ⟨_, n, r, .item hi hv, h, rfl⟩

theorem sectionAt_map {m : Body} {p : Path} :
    (map m).SectionAt p ↔
      ∃ key v q, m.get? key = some v ∧ v.SectionAt q ∧ p = .key key :: q := by
  constructor
  · rintro ⟨q, n, r, hq, h, rfl⟩
    cases hq with
    | entry he hv => exact ⟨_, _, _, he, ⟨_, _, _, hv, h, rfl⟩, rfl⟩
  · rintro ⟨key, v, _, he, ⟨q, n, r, hv, h, rfl⟩, rfl⟩
    exact ⟨_, n, r, .entry he hv, h, rfl⟩

/-- The sections below a value that is held are those of the value. -/
theorem sectionAt_of_holds {v w : OptionValue} {p : Path} (h : v.Holds p w) (q : Path) :
    v.SectionAt (p ++ q) ↔ w.SectionAt q := by
  induction h with
  | self => rfl
  | @item vs i v p w hi _ ih =>
    rw [sectionAt_list, ← ih]
    constructor
    · rintro ⟨j, v', r, hj, hr, e⟩
      simp only [List.cons_append, List.cons.injEq, Step.item.injEq] at e
      obtain ⟨rfl, rfl⟩ := e
      cases hi.symm.trans hj
      exact hr
    · exact fun h => ⟨i, v, _, hi, h, rfl⟩
  | @entry m key v p w he _ ih =>
    rw [sectionAt_map, ← ih]
    constructor
    · rintro ⟨key', v', r, he', hr, e⟩
      simp only [List.cons_append, List.cons.injEq, Step.key.injEq] at e
      obtain ⟨rfl, rfl⟩ := e
      cases he.symm.trans he'
      exact hr
    · exact fun h => ⟨key, v, _, he, h, rfl⟩

end OptionValue

namespace Tree

theorem not_sectionAt_nil (t : Tree) : ¬ t.SectionAt [] := by
  rw [sectionAt_iff]
  rintro (⟨-, e⟩ | ⟨q, hq, e⟩ | ⟨name, c, q, -, -, e⟩)
  · cases e
  · obtain ⟨-, rfl⟩ := List.append_eq_nil_iff.1 e.symm
    obtain ⟨key, v, q, -, -, e⟩ := OptionValue.sectionAt_map.1 hq
    cases e
  · cases e

end Tree

namespace OptionValue

theorem not_sectionAt_nil (v : OptionValue) : ¬ v.SectionAt [] := by
  rintro ⟨q, n, r, -, h, e⟩
  obtain ⟨-, rfl⟩ := List.append_eq_nil_iff.1 e.symm
  exact (Tree.node n).not_sectionAt_nil h

theorem not_sectionAt_entry (m : Body) (s : Step) : ¬ (map m).SectionAt [s] := by
  rw [sectionAt_map]
  rintro ⟨key, v, q, -, hq, e⟩
  exact v.not_sectionAt_nil ((List.cons.inj e).2 ▸ hq)

end OptionValue

/-! ## The long spelling -/

/-- The document with the short section key spelled in full at the places `here`. -/
noncomputable def Json.spellOut (here : Path → Prop) (j : Json) : Json :=
  j.renameAt SectionKey.aggs.word SectionKey.aggregations.word here

theorem Json.spellOut_congr {here there : Path → Prop} (h : ∀ p, here p ↔ there p) (j : Json) :
    j.spellOut here = j.spellOut there := by
  rw [show here = there from funext fun p => propext (h p)]

theorem Json.spellOut_nowhere {here : Path → Prop} (h : ∀ p, ¬ here p) (j : Json) :
    j.spellOut here = j := by
  have hf : here = fun _ => False := funext fun p => propext (iff_of_false (h p) id)
  rw [hf, spellOut, renameAt_nowhere]

theorem Json.spellOut_object {here : Path → Prop} (h : ¬ here [.key SectionKey.aggs.word])
    {m n : KeyMap Json none}
    (hn : ∀ key, n.get? key = (m.get? key).map (spellOut fun p => here (.key key :: p))) :
    (Json.object m).spellOut here = .object n := by
  rw [spellOut, renameAt_object h]
  congr 1
  refine KeyMap.ext_get? fun key => ?_
  rw [get?_renameEntries, hn]
  rfl

namespace Tree

variable {t : Tree}

/-- Within the section of a regular tree, the sections of a named aggregation. -/
theorem sectionAt_named (h : t.Regular) {name : String} {c : Aggregation}
    (hc : t.named.get? name = some c) (p : Path) :
    t.SectionAt (.key SectionKey.aggs.word :: .key name :: p) ↔
      (node (.aggregation c)).SectionAt p := by
  rw [sectionAt_iff]
  constructor
  · rintro (⟨-, e⟩ | ⟨_, ⟨q, n, r, hq, -, rfl⟩, e⟩ | ⟨name', c', q, hc', h', e⟩)
    · cases e
    -- what the options hold does not stand under a section key
    · exact absurd e.symm
        (optionsPath_ne_word h (nests_of_get? hc) hq (hq.ne_nil nofun) .aggs r _)
    · simp only [List.cons.injEq, Step.key.injEq, true_and] at e
      obtain ⟨rfl, rfl⟩ := e
      cases hc.symm.trans hc'
      exact h'
  · exact fun h' => Or.inr (Or.inr ⟨name, c, p, hc, h', rfl⟩)

/-- No name in the section of a regular tree is a section. -/
theorem not_sectionAt_word (h : t.Regular) (hn : t.Nests) (s : Step) :
    ¬ t.SectionAt [.key SectionKey.aggs.word, s] := by
  rw [sectionAt_iff]
  rintro (⟨-, e⟩ | ⟨_, ⟨q, n, r, hq, -, rfl⟩, e⟩ | ⟨name, c, q, -, hc, e⟩)
  · cases e
  · exact absurd e.symm (optionsPath_ne_word h hn hq (hq.ne_nil nofun) .aggs r _)
  · simp only [List.cons.injEq, true_and] at e
    obtain ⟨-, rfl⟩ := e
    exact not_sectionAt_nil _ hc

theorem sectionAt_held (h : t.Regular) {p : Path} {w : OptionValue}
    (hw : (OptionValue.map t.body).Holds p w) (hp : p ≠ []) (q : Path) :
    t.SectionAt (t.optionsPath ++ (p ++ q)) ↔ w.SectionAt q := by
  rw [sectionAt_iff, ← OptionValue.sectionAt_of_holds hw]
  constructor
  · rintro (⟨hn, e⟩ | ⟨r, hr, e⟩ | ⟨name, c, r, hc, -, e⟩)
    · exact absurd e (optionsPath_ne_word h (nests_of_isEmpty hn) hw hp .aggs q [])
    · exact List.append_cancel_left e ▸ hr
    · exact absurd e (optionsPath_ne_word h (nests_of_get? hc) hw hp .aggs q _)
  · exact fun h' => Or.inr (Or.inl ⟨_, h', rfl⟩)

/-- Under the place of the options of a node, the sections of the options. -/
theorem sectionAt_options {n : Node} (h : (node n).Regular) (q : Path) :
    (node n).SectionAt ((node n).optionsPath ++ q) ↔
      (OptionValue.map (node n).body).SectionAt q := by
  rw [sectionAt_iff]
  constructor
  · rintro (⟨hn, e⟩ | ⟨r, hr, e⟩ | ⟨name, c, r, hc, -, e⟩)
    · match n with
      | .aggregation a => exact absurd (Step.key.inj (List.cons.inj e).1) (IsLeafType.ne_word h _)
    · exact List.append_cancel_left e ▸ hr
    · match n with
      | .aggregation a => exact absurd (Step.key.inj (List.cons.inj e).1) (IsLeafType.ne_word h _)
  · exact fun h' => Or.inr (Or.inl ⟨q, h', rfl⟩)

/-- No key on the way to the options of a query is a section. -/
theorem not_sectionAt_query {q : Query} {p : Path}
    (hp : p.length ≤ (node (.query q)).optionsPath.length) :
    ¬ (node (.query q)).SectionAt p := by
  rw [sectionAt_iff]
  rintro (⟨h, -⟩ | ⟨r, hr, rfl⟩ | ⟨name, c, r, hc, -⟩)
  · cases h
  · have hr' : r = [] := by
      rw [List.length_append] at hp
      exact List.length_eq_zero_iff.1 (by omega)
    exact OptionValue.not_sectionAt_nil _ (hr' ▸ hr)
  · cases hc

theorem not_sectionAt_meta {a : Aggregation} (h : IsLeafType a.wireType) (p : Path) :
    ¬ (node (.aggregation a)).SectionAt (.key "meta" :: p) := by
  rw [sectionAt_iff]
  rintro (⟨-, e⟩ | ⟨q, -, e⟩ | ⟨name, c, q, -, -, e⟩)
  · exact SectionKey.aggs.word_ne_meta (Step.key.inj (List.cons.inj e).1).symm
  · exact h.ne_meta (Step.key.inj (List.cons.inj e).1).symm
  · exact SectionKey.aggs.word_ne_meta (Step.key.inj (List.cons.inj e).1).symm

/-- **The section in the long spelling**, once that is known of the aggregations in it. -/
theorem spellOut_section (h : t.Regular) (hn : t.Nests)
    (ih : ∀ name c, t.named.get? name = some c → c.document .aggregations =
      (c.document .aggs).spellOut (node (.aggregation c)).SectionAt) :
    (Json.object (Aggregation.documents .aggs t.named)).spellOut
        (fun p => t.SectionAt (.key SectionKey.aggs.word :: p)) =
      .object (Aggregation.documents .aggregations t.named) := by
  refine Json.spellOut_object (not_sectionAt_word h hn _) fun name => ?_
  rw [get?_aggregationDocuments, get?_aggregationDocuments]
  cases hc : t.named.get? name with
  | none => rfl
  | some c =>
    simp only [Option.map_some, Option.some.injEq]
    rw [ih name c hc]
    exact Json.spellOut_congr (fun p => (sectionAt_named h hc p).symm) _

end Tree

theorem Json.spellOut_single {here : Path → Prop} (h : ¬ here [.key SectionKey.aggs.word])
    (w : String) (j : Json) :
    (Json.object (.single w j)).spellOut here =
      .object (.single w (j.spellOut fun p => here (.key w :: p))) := by
  refine spellOut_object h fun key => ?_
  rw [KeyMap.get?_single, KeyMap.get?_single]
  split
  · next e => rw [e]; rfl
  · rfl

theorem OptionValue.spellOut_map {m : Body} (ih : ∀ key v, m.get? key = some v →
      v.document .aggregations = (v.document .aggs).spellOut v.SectionAt) :
    (Json.object (OptionValue.documents .aggs m)).spellOut (map m).SectionAt =
      .object (OptionValue.documents .aggregations m) := by
  refine Json.spellOut_object (not_sectionAt_entry m _) fun key => ?_
  rw [get?_optionDocuments, get?_optionDocuments]
  cases hv : m.get? key with
  | none => rfl
  | some v =>
    simp only [Option.map_some, Option.some.injEq]
    rw [ih key v hv]
    exact Json.spellOut_congr (fun p => (sectionAt_of_holds (.entry hv .self) p).symm) _

theorem OptionValue.spellOut_list {vs : List OptionValue} (ih : ∀ v ∈ vs,
      v.document .aggregations = (v.document .aggs).spellOut v.SectionAt) :
    (Json.array (OptionValue.documentList .aggs vs)).spellOut (list vs).SectionAt =
      .array (OptionValue.documentList .aggregations vs) := by
  rw [documentList_eq, documentList_eq, Json.spellOut, Json.renameAt]
  congr 1
  refine List.ext_getElem? fun i => ?_
  rw [Json.getElem?_renameItems, List.getElem?_map, List.getElem?_map, Nat.zero_add]
  cases hv : vs[i]? with
  | none => rfl
  | some v =>
    simp only [Option.map_some, Option.some.injEq]
    rw [ih v (List.mem_of_getElem? hv)]
    exact (Json.spellOut_congr (sectionAt_of_holds (.item hv .self)) _)

theorem Query.spellOut_document {q : Query}
    (ih : (Json.object (OptionValue.documents .aggs q.body)).spellOut
        (OptionValue.map q.body).SectionAt = .object (OptionValue.documents .aggregations q.body)) :
    (q.document .aggs).spellOut (Tree.node (.query q)).SectionAt = q.document .aggregations := by
  have ho := Tree.sectionAt_options (n := .query q) trivial
  obtain ⟨w, f, body⟩ := q
  cases f with
  | none =>
    show (Json.object (.single w (.object (OptionValue.documents .aggs body)))).spellOut _ =
      .object (.single w (.object (OptionValue.documents .aggregations body)))
    rw [Json.spellOut_single (Tree.not_sectionAt_query (by simp [Tree.optionsPath])), ← ih]
    congr 2
    exact Json.spellOut_congr ho _
  | some f =>
    show (Json.object (.single w (.object (.single f (.object
        (OptionValue.documents .aggs body)))))).spellOut _ =
      .object (.single w (.object (.single f (.object
        (OptionValue.documents .aggregations body)))))
    rw [Json.spellOut_single (Tree.not_sectionAt_query (by simp [Tree.optionsPath])),
      Json.spellOut_single, ← ih]
    · congr 4
      exact Json.spellOut_congr ho _
    · exact Tree.not_sectionAt_query (by simp [Tree.optionsPath])

theorem Script.spellOut_document {s : Script}
    (ih : (Json.object (OptionValue.documents .aggs s.body)).spellOut
        (OptionValue.map s.body).SectionAt = .object (OptionValue.documents .aggregations s.body)) :
    (s.document .aggs).spellOut (Tree.node (.script s)).SectionAt = s.document .aggregations := by
  have ho := Tree.sectionAt_options (n := .script s) trivial
  obtain ⟨body⟩ := s
  show (Json.object (OptionValue.documents .aggs body)).spellOut _ =
    .object (OptionValue.documents .aggregations body)
  rw [← ih]
  exact Json.spellOut_congr ho _

/-- **An object with a section, spelled out**: the section moves to the long key, the other
    entries are spelled out within. -/
theorem Tree.spellOut_entries {t : Tree} (h : t.Regular) (ht : t.Nests) {m n : KeyMap Json none}
    (ih : ∀ name c, t.named.get? name = some c → c.document .aggregations =
      (c.document .aggs).spellOut (node (.aggregation c)).SectionAt)
    (hm : m.get? SectionKey.aggs.word =
      if t.named.isEmpty then none else some (.object (Aggregation.documents .aggs t.named)))
    (hn : n.get? SectionKey.aggregations.word =
      if t.named.isEmpty then none
      else some (.object (Aggregation.documents .aggregations t.named)))
    (hm' : m.get? SectionKey.aggregations.word = none) (hn' : n.get? SectionKey.aggs.word = none)
    (ho : ∀ key, key ≠ SectionKey.aggs.word → key ≠ SectionKey.aggregations.word →
      n.get? key = (m.get? key).map (Json.spellOut fun p => t.SectionAt (.key key :: p))) :
    (Json.object m).spellOut t.SectionAt = .object n := by
  refine Json.renameAt_object_eq hm' (fun hs => ?_) fun key => ?_
  · rw [hm]
    cases he : t.named.isEmpty with
    | true => rfl
    | false => exact absurd ⟨_, .named he⟩ hs
  · by_cases hk : key = SectionKey.aggregations.word
    · rw [if_pos hk, hk, hn, hm, ← spellOut_section h ht ih]
      cases t.named.isEmpty <;> rfl
    · by_cases hk' : key = SectionKey.aggs.word
      · rw [if_neg hk, if_pos hk', hk', hn']
      · rw [if_neg hk, if_neg hk']
        exact ho key hk' hk

theorem Aggregation.spellOut_document {a : Aggregation} (h : IsLeafType a.wireType)
    (ih : (Json.object (OptionValue.documents .aggs a.body)).spellOut
        (OptionValue.map a.body).SectionAt = .object (OptionValue.documents .aggregations a.body))
    (ih' : ∀ name c, a.children.get? name = some c → c.document .aggregations =
      (c.document .aggs).spellOut (Tree.node (.aggregation c)).SectionAt) :
    (a.document .aggs).spellOut (Tree.node (.aggregation a)).SectionAt =
      a.document .aggregations := by
  have hr : (Tree.node (.aggregation a)).Regular := h
  rw [document_eq, document_eq]
  refine Tree.spellOut_entries hr trivial ih' ?_ ?_ ?_ ?_ fun key hk hk' => ?_
  · rw [get?_entries _ h, if_pos rfl]; rfl
  · rw [get?_entries _ h, if_pos rfl]; rfl
  · rw [get?_entries _ h, if_neg (by decide), if_neg (by decide), if_neg (h.ne_word _).symm]
  · rw [get?_entries _ h, if_neg (by decide), if_neg (by decide), if_neg (h.ne_word _).symm]
  · rw [get?_entries _ h, get?_entries _ h, if_neg hk, if_neg hk']
    by_cases hm : key = "meta"
    · rw [if_pos hm, if_pos hm, hm]
      cases a.metadata with
      | none => rfl
      | some v => rw [Option.map_some, Json.spellOut_nowhere (Tree.not_sectionAt_meta h)]
    · rw [if_neg hm, if_neg hm]
      by_cases hw : key = a.wireType
      · rw [if_pos hw, if_pos hw, Option.map_some, ← ih, hw]
        congr 1
        exact Json.spellOut_congr (fun p => (Tree.sectionAt_options hr p).symm) _
      · rw [if_neg hw, if_neg hw]
        rfl

theorem SearchRequest.spellOut_document {r : SearchRequest} (h : r.Assembled)
    (ih : ∀ key v, r.body.get? key = some v →
      v.document .aggregations = (v.document .aggs).spellOut v.SectionAt)
    (ih' : ∀ name c, r.aggregations.get? name = some c → c.document .aggregations =
      (c.document .aggs).spellOut (Tree.node (.aggregation c)).SectionAt) :
    (r.document .aggs).spellOut (Tree.request r).SectionAt = r.document .aggregations := by
  have hr : (Tree.request r).Regular := h
  rw [document_eq, document_eq]
  refine Tree.spellOut_entries hr trivial ih' ?_ ?_ ?_ ?_ fun key hk hk' => ?_
  · rw [get?_entries _ h, if_pos rfl]; rfl
  · rw [get?_entries _ h, if_pos rfl]; rfl
  · rw [get?_entries _ h, if_neg (by decide), h.get?_word]; rfl
  · rw [get?_entries _ h, if_neg (by decide), h.get?_word]; rfl
  · rw [get?_entries _ h, get?_entries _ h, if_neg hk, if_neg hk']
    cases hv : r.body.get? key with
    | none => rfl
    | some v =>
      simp only [Option.map_some, Option.some.injEq]
      rw [ih key v hv]
      refine Json.spellOut_congr (fun p => ?_) _
      exact (Tree.sectionAt_held hr (.entry hv .self) (List.cons_ne_nil _ _) p).symm

/-- **Nodes and option values in the long spelling.** -/
theorem hereditary_spellOut : Hereditary
    (fun n => (Tree.node n).RegularThroughout →
      n.document .aggregations = (n.document .aggs).spellOut (Tree.node n).SectionAt)
    (fun v => (∀ p n, v.Holds p (.node n) → (Tree.node n).RegularThroughout) →
      v.document .aggregations = (v.document .aggs).spellOut v.SectionAt) where
  query q ih h := (Query.spellOut_document (ih fun _ _ hn => h.inner hn).symm).symm
  aggregation a ih ih' h := (Aggregation.spellOut_document h.regular
    (ih fun _ _ hn => h.inner hn).symm fun name c hc => ih' name c hc (h.child hc)).symm
  script s ih h := (Script.spellOut_document (ih fun _ _ hn => h.inner hn).symm).symm
  scalar v _ := (Json.spellOut_nowhere (OptionValue.not_sectionAt_scalar v) v).symm
  node n ih h := by
    rw [OptionValue.document, ih (h [] n .self)]
    exact Json.spellOut_congr (fun p => OptionValue.sectionAt_node.symm) _
  list vs ih h := by
    refine (OptionValue.spellOut_list fun v hv => ih v hv fun p n hn => ?_).symm
    obtain ⟨i, hi⟩ := List.mem_iff_getElem?.1 hv
    exact h _ n (.item hi hn)
  map m ih h := (OptionValue.spellOut_map fun key v hv =>
    ih key v hv fun p n hn => h _ n (.entry hv hn)).symm

/-- **The long spelling of any tree.** -/
theorem Tree.spellOut_document {t : Tree} (h : t.RegularThroughout) :
    t.document .aggregations = (t.document .aggs).spellOut t.SectionAt := by
  match t with
  | node n => exact hereditary_spellOut.node_all n h
  | request r =>
    refine (SearchRequest.spellOut_document h.regular (fun key v hv => ?_) fun name c hc => ?_).symm
    · exact hereditary_spellOut.value_all v fun p n hn => h.inner (.entry hv hn)
    · exact hereditary_spellOut.node_all (.aggregation c) (h.child hc)

/-! ## What is renamed, and what is not -/

namespace Tree

variable {t : Tree}

/-- **What is renamed is the section of an object that has no entry under the long key.** -/
theorem object_of_at_named (h : t.RegularThroughout) {p : Path} {m : Aggregations}
    (hp : t.At .aggs p (.named m)) :
    ∃ q o, p = q ++ [.key SectionKey.aggs.word] ∧ (t.document .aggs).at? q = some (.object o) ∧
      o.get? SectionKey.aggs.word = some (.object (Aggregation.documents .aggs m)) ∧
      o.get? SectionKey.aggregations.word = none := by
  generalize hx : Part.named m = x at hp
  induction hp with
  | self | options | map | scalar | metadata => cases hx
  | named he =>
    cases hx
    obtain ⟨o, ho, hs, hw⟩ := exists_entries (k := .aggs) h.regular (nests_of_isEmpty he)
    rw [he] at hs
    exact ⟨[], o, rfl, by rw [ho, Json.at?_nil], hs, hw .aggregations (by decide)⟩
  | @inner t p n q x hn _ ih =>
    obtain ⟨r, o, rfl, ho, hs, hw⟩ := ih (h.inner hn) hx
    refine ⟨t.optionsPath ++ (p ++ r), o, by simp, ?_, hs, hw⟩
    rw [← List.append_assoc, Json.at?_append, at?_held h.regular hn (hn.ne_nil nofun)]
    exact ho
  | @child t name c p x hc _ ih =>
    obtain ⟨r, o, rfl, ho, hs, hw⟩ := ih (h.child hc) hx
    refine ⟨.key SectionKey.aggs.word :: .key name :: r, o, rfl, ?_, hs, hw⟩
    rw [at?_named h.regular hc]
    exact ho

end Tree

/-- The keys of the object at `q` below a part are names that the tree was given: those of
    options and map entries, those of aggregations, or any within a given value. -/
def Part.Covers : Part → Path → Prop
  | datum _, _ => True
  | options _, q | named _, q => q = []
  | node _, _ => False

namespace Tree

variable {t : Tree}

/-- **No name or value that the tree was given is a section.** -/
theorem not_sectionAt_of_covers (h : t.RegularThroughout) {p q : Path} {x : Part}
    (hx : t.At .aggs p x) (hq : x.Covers q) (s : Step) : ¬ t.SectionAt (p ++ q ++ [s]) := by
  induction hx with
  | self => exact absurd hq id
  | options =>
    rw [show q = [] from hq, List.append_nil, sectionAt_options h.regular]
    exact OptionValue.not_sectionAt_entry _ s
  | map hm hp =>
    rw [show q = [] from hq, List.append_nil, List.append_assoc, sectionAt_held h.regular hm hp]
    exact OptionValue.not_sectionAt_entry _ s
  | scalar hv =>
    rw [List.append_assoc, List.append_assoc, sectionAt_held h.regular hv (hv.ne_nil nofun)]
    exact OptionValue.not_sectionAt_scalar _ _
  | metadata => exact not_sectionAt_meta h.regular _
  | named he =>
    rw [show q = [] from hq, List.append_nil]
    exact not_sectionAt_word h.regular (nests_of_isEmpty he) s
  | inner hn _ ih =>
    rw [List.append_assoc, List.append_assoc, List.append_assoc,
      sectionAt_held h.regular hn (hn.ne_nil nofun), OptionValue.sectionAt_node,
      ← List.append_assoc]
    exact ih (h.inner hn) hq
  | child hc _ ih =>
    show ¬ SectionAt _ (_ :: _ :: _)
    rw [List.append_eq, List.append_eq, sectionAt_named h.regular hc]
    exact ih (h.child hc) hq

/-- **The two spellings of a document.**  Where every aggregation has a known wire type, the
    document under the long section key is the one under the short key with the sections, and
    nothing else, renamed.  What is renamed is in an object without the long key, so that no
    entry is overwritten; no name or value that the tree was given is renamed; and the parts of
    the tree have the same documents as alone under either key, the given values as they are. -/
theorem document_aggregations (h : t.RegularThroughout) :
    t.document .aggregations = (t.document .aggs).renameAt "aggs" "aggregations" t.SectionAt ∧
      (∀ p m, t.At .aggs p (.named m) → ∃ q o, p = q ++ [.key "aggs"] ∧
        (t.document .aggs).at? q = some (.object o) ∧
        o.get? "aggs" = some (.object (Aggregation.documents .aggs m)) ∧
        o.get? "aggregations" = none) ∧
      (∀ p q x s, t.At .aggs p x → x.Covers q → ¬ t.SectionAt (p ++ q ++ [s])) ∧
      ∀ k p x, t.At k p x → (t.document k).at? p = some (x.document k) :=
  ⟨spellOut_document h, fun _ _ hp => object_of_at_named h hp,
    fun _ _ _ s hx hq => not_sectionAt_of_covers h hx hq s, fun _ _ _ hx => at?_document_of_at h hx⟩

theorem document_aggregations_salesByMonth :
    (request .salesByMonth).RegularThroughout ∧
      (request .salesByMonth).document .aggregations =
        ((request .salesByMonth).document .aggs).renameAt "aggs" "aggregations"
          (request .salesByMonth).SectionAt :=
  ⟨SearchRequest.regularThroughout_salesByMonth,
    (document_aggregations SearchRequest.regularThroughout_salesByMonth).1⟩

end Tree

end SearchBody
