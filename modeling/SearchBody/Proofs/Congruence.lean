/-
  Search bodies — equal trees render alike.

  Equality of trees compares numbers as numbers, so it cannot tell a positive zero from a negative
  one, and their texts differ.  Nothing else differs between the documents, the logs and the texts
  of equal trees.

  * `Tree.document_plain`, `Node.log_plain`: leaving out the signs of zeros can be done before or
    after the walk, and the log does not depend on them.
  * `Json.ZeroSignsApart`: two texts are the same but for the signs of float zeros; a `Spot` says
    whether a float can begin at a character.
  * `Json.zeroSignsApart_render`: so are the texts of equal documents.
  * `Congruent`: what equality of things that have a document should be;
    `equal_trees_render_alike`: it is so for all of them.
-/
import SearchBody.Proofs.Canonical
import SearchBody.Proofs.ZeroSign

set_option autoImplicit false

namespace SearchBody

/-! ## Documents -/

namespace Json

theorem plain_withMetadata (metadata : Option Json) (m : KeyMap Json none) :
    plainEntries (withMetadata metadata m) =
      withMetadata (metadata.map plain) (plainEntries m) := by
  cases metadata with
  | none => rfl
  | some v =>
    rw [withMetadata, Option.map_some, withMetadata, plainEntries_eq, plainEntries_eq,
      KeyMap.map_insert]

theorem plain_withSection (k : SectionKey) (named m : KeyMap Json none) :
    plainEntries (withSection k named m) =
      withSection k (plainEntries named) (plainEntries m) := by
  have hempty : (plainEntries named).isEmpty = named.isEmpty := by
    cases named <;> rfl
  unfold withSection
  rw [hempty]
  split
  · rfl
  · rw [plainEntries_eq m, ← plain, plainEntries_eq, KeyMap.map_insert]

theorem plain_queryDocument (w : String) (field : Option String) (options : KeyMap Json none) :
    (queryDocument w field options).plain = queryDocument w field (plainEntries options) := by
  cases field <;> rfl

theorem plain_aggregationDocument (k : SectionKey) (w : String) (options : KeyMap Json none)
    (metadata : Option Json) (named : KeyMap Json none) :
    (aggregationDocument k w options metadata named).plain =
      aggregationDocument k w (plainEntries options) (metadata.map plain)
        (plainEntries named) := by
  rw [aggregationDocument, plain, plain_withSection, plain_withMetadata]
  rfl

end Json

section
variable (k : SectionKey)

mutual

/-- **The signs of zeros can be left out of the document or of the tree.** -/
theorem Node.document_plain : (n : Node) → n.plain.document k = (n.document k).plain
  | .query q => q.document_plain
  | .aggregation a => a.document_plain
  | .script s => s.document_plain

theorem Query.document_plain : (q : Query) → q.plain.document k = (q.document k).plain
  | ⟨_, _, body⟩ => by
    rw [Query.plain, Query.document, Query.document, Json.plain_queryDocument,
      OptionValue.documents_plain body]

theorem Aggregation.document_plain : (a : Aggregation) →
    a.plain.document k = (a.document k).plain
  | ⟨_, _, body, _, children⟩ => by
    rw [Aggregation.plain, Aggregation.document, Aggregation.document,
      Json.plain_aggregationDocument, OptionValue.documents_plain body,
      Aggregation.documents_plain children]

theorem Script.document_plain : (s : Script) → s.plain.document k = (s.document k).plain
  | ⟨body⟩ => by
    rw [Script.plain, Script.document, Script.document, Json.plain,
      OptionValue.documents_plain body]

theorem OptionValue.document_plain : (v : OptionValue) →
    v.plain.document k = (v.document k).plain
  | .scalar _ => rfl
  | .node n => n.document_plain
  | .list items => by
    rw [OptionValue.plain, OptionValue.document, OptionValue.document, Json.plain,
      OptionValue.documentList_plain items]
  | .map entries => by
    rw [OptionValue.plain, OptionValue.document, OptionValue.document, Json.plain,
      OptionValue.documents_plain entries]

theorem OptionValue.documentList_plain : (vs : List OptionValue) →
    OptionValue.documentList k (OptionValue.plainItems vs) =
      Json.plainItems (OptionValue.documentList k vs)
  | [] => rfl
  | v :: vs => by
    rw [OptionValue.plainItems, OptionValue.documentList, OptionValue.documentList,
      Json.plainItems, v.document_plain, OptionValue.documentList_plain vs]

theorem OptionValue.documents_plain : {lo : Option String} → (m : KeyMap OptionValue lo) →
    OptionValue.documents k (OptionValue.plainEntries m) =
      Json.plainEntries (OptionValue.documents k m)
  | _, .nil => rfl
  | _, .cons _ v _ rest => by
    rw [OptionValue.plainEntries, OptionValue.documents, OptionValue.documents,
      Json.plainEntries, v.document_plain, OptionValue.documents_plain rest]

theorem Aggregation.documents_plain : {lo : Option String} → (m : KeyMap Aggregation lo) →
    Aggregation.documents k (Aggregation.plainEntries m) =
      Json.plainEntries (Aggregation.documents k m)
  | _, .nil => rfl
  | _, .cons _ a _ rest => by
    rw [Aggregation.plainEntries, Aggregation.documents, Aggregation.documents,
      Json.plainEntries, a.document_plain, Aggregation.documents_plain rest]

end

theorem SearchRequest.document_plain (r : SearchRequest) :
    r.plain.document k = (r.document k).plain := by
  rw [SearchRequest.plain, SearchRequest.document, SearchRequest.document, Json.plain,
    Json.plain_withSection, OptionValue.documents_plain, Aggregation.documents_plain]

/-! ## Logs -/

mutual

/-- **The log of a walk does not depend on the signs of zeros.** -/
theorem Node.log_plain : (n : Node) → (n.plain.serialize k).log = (n.serialize k).log
  | .query q => q.log_plain
  | .aggregation a => a.log_plain
  | .script s => s.log_plain

theorem Query.log_plain : (q : Query) → (q.plain.serialize k).log = (q.serialize k).log
  | ⟨_, _, body⟩ => by
    simp [Query.plain, Query.serialize, OptionValue.log_plainEntries body]

theorem Aggregation.log_plain : (a : Aggregation) →
    (a.plain.serialize k).log = (a.serialize k).log
  | ⟨_, _, body, _, children⟩ => by
    simp [Aggregation.plain, Aggregation.serialize, OptionValue.log_plainEntries body,
      Aggregation.log_plainEntries children]

theorem Script.log_plain : (s : Script) → (s.plain.serialize k).log = (s.serialize k).log
  | ⟨body⟩ => by
    simp [Script.plain, Script.serialize, OptionValue.log_plainEntries body]

theorem OptionValue.log_plain : (v : OptionValue) →
    (v.plain.serialize k).log = (v.serialize k).log
  | .scalar _ => rfl
  | .node n => n.log_plain
  | .list items => by
    simp [OptionValue.plain, OptionValue.serialize, OptionValue.log_plainItems items]
  | .map entries => by
    simp [OptionValue.plain, OptionValue.serialize, OptionValue.log_plainEntries entries]

theorem OptionValue.log_plainItems : (vs : List OptionValue) →
    (OptionValue.serializeList k (OptionValue.plainItems vs)).log =
      (OptionValue.serializeList k vs).log
  | [] => rfl
  | v :: vs => by
    simp [OptionValue.plainItems, OptionValue.serializeList, v.log_plain,
      OptionValue.log_plainItems vs]

theorem OptionValue.log_plainEntries : {lo : Option String} → (m : KeyMap OptionValue lo) →
    (OptionValue.serializeEntries k (OptionValue.plainEntries m)).log =
      (OptionValue.serializeEntries k m).log
  | _, .nil => rfl
  | _, .cons _ v _ rest => by
    simp [OptionValue.plainEntries, OptionValue.serializeEntries, v.log_plain,
      OptionValue.log_plainEntries rest]

theorem Aggregation.log_plainEntries : {lo : Option String} → (m : KeyMap Aggregation lo) →
    (Aggregation.serializeEntries k (Aggregation.plainEntries m)).log =
      (Aggregation.serializeEntries k m).log
  | _, .nil => rfl
  | _, .cons _ a _ rest => by
    simp [Aggregation.plainEntries, Aggregation.serializeEntries, a.log_plain,
      Aggregation.log_plainEntries rest]

end

theorem SearchRequest.log_plain (r : SearchRequest) :
    (r.plain.serialize k).log = (r.serialize k).log := by
  simp [SearchRequest.plain, SearchRequest.serialize, OptionValue.log_plainEntries,
    Aggregation.log_plainEntries]

end

/-! ## Texts -/

namespace Json

/-- What may begin at a character of a text. -/
inductive Spot where
  /-- a token -/
  | between
  /-- the rest of a number or another word -/
  | word
  /-- the rest of a string -/
  | string
  /-- what a backslash in a string refers to -/
  | escape

/-- The spot behind a character. -/
def Spot.next : Spot → Char → Spot
  | .string, c => if c = '"' then .between else if c = '\\' then .escape else .string
  | .escape, _ => .string
  | _, c => if c = '"' then .string else if Scan.isWordChar c then .word else .between

/-- Two texts are the same from a spot on, except that where there is a word of its own, outside
    of strings, that is a float zero, its sign may be different. -/
inductive ZeroSignsApart : Spot → List Char → List Char → Prop
  | nil {p} : ZeroSignsApart p [] []
  | char {p cs cs'} (c : Char) : ZeroSignsApart (p.next c) cs cs' →
      ZeroSignsApart p (c :: cs) (c :: cs')
  | zero {cs cs'} (negative negative' : Bool) : Scan.WordEnds cs → Scan.WordEnds cs' →
      ZeroSignsApart .word cs cs' →
      ZeroSignsApart .between (Number.sign negative ++ ['0', '.', '0'] ++ cs)
        (Number.sign negative' ++ ['0', '.', '0'] ++ cs')

/-- What stands behind two values: the same end or the same mark or blank, and then texts that
    are the same but for the signs of zeros. -/
inductive GoOnAlike : List Char → List Char → Prop
  | nil : GoOnAlike [] []
  | mark {cs cs'} {c : Char} : Scan.isWordChar c = false → c ≠ '"' →
      ZeroSignsApart .between cs cs' → GoOnAlike (c :: cs) (c :: cs')

/-- The texts of two values are the same but for the signs of zeros, whatever stands behind. -/
def Alike (text text' : List Char) : Prop :=
  ∀ rest rest', GoOnAlike rest rest' → ZeroSignsApart .between (text ++ rest) (text' ++ rest')

namespace GoOnAlike

variable {rest rest' : List Char} (h : GoOnAlike rest rest')
include h

theorem wordEnds : Scan.WordEnds rest ∧ Scan.WordEnds rest' := by
  cases h with
  | nil => exact ⟨nofun, nofun⟩
  | mark hword =>
    refine ⟨fun c hc => ?_, fun c hc => ?_⟩ <;> obtain rfl := Option.some.inj hc <;> exact hword

/-- Behind a token or a word the rest is met alike. -/
theorem zeroSignsApart : ZeroSignsApart .between rest rest' ∧ ZeroSignsApart .word rest rest' := by
  cases h with
  | nil => exact ⟨.nil, .nil⟩
  | mark hword hquote hcs =>
    constructor <;> refine .char _ ?_ <;> simpa [Spot.next, hword, hquote] using hcs

end GoOnAlike

/-! ### Words and strings -/

theorem alike_word (word : List Char) (hne : word ≠ [])
    (hword : ∀ c ∈ word, Scan.isWordChar c = true) : Alike word word := by
  intro rest rest' h
  have hnext : ∀ c ∈ word, ∀ p, p = .between ∨ p = .word → Spot.next p c = .word := by
    intro c hc p hp
    have hquote : c ≠ '"' := by
      rintro rfl
      exact absurd (hword _ hc) (by decide)
    rcases hp with rfl | rfl <;> simp [Spot.next, hquote, hword c hc]
  have hfrom : ∀ cs, (∀ c ∈ cs, c ∈ word) → ZeroSignsApart .word (cs ++ rest) (cs ++ rest') := by
    intro cs
    induction cs with
    | nil => exact fun _ => h.zeroSignsApart.2
    | cons c cs ih =>
      intro hcs
      refine .char c ?_
      rw [hnext c (hcs c List.mem_cons_self) _ (Or.inr rfl)]
      exact ih fun d hd => hcs d (List.mem_cons_of_mem _ hd)
  cases word with
  | nil => exact absurd rfl hne
  | cons c cs =>
    refine .char c ?_
    rw [hnext c List.mem_cons_self _ (Or.inl rfl)]
    exact hfrom cs fun d hd => List.mem_cons_of_mem _ hd

theorem alike_zero (negative negative' : Bool) :
    Alike (Number.real (.zero negative)).literal (Number.real (.zero negative')).literal :=
  fun _ _ h => .zero negative negative' h.wordEnds.1 h.wordEnds.2 h.zeroSignsApart.2

theorem alike_literal {m n : Number} (h : m.beq n = true) : Alike m.literal n.literal := by
  have hsame : ∀ n : Number, Alike n.literal n.literal := by
    intro n
    refine alike_word _ (fun e => ?_) fun c hc => Scan.isWordChar_of_mem_literal hc
    have hread := n.ofLiteral?_literal
    rw [e] at hread
    cases hread
  cases m with
  | integer m hm =>
    cases n with
    | integer n hn =>
      obtain rfl : m = n := by simpa [Number.beq] using h
      exact hsame _
    | real y => simp [Number.beq] at h
  | real x =>
    cases n with
    | integer n hn => simp [Number.beq] at h
    | real y =>
      rw [Number.beq, Binary64.beq, Bool.or_eq_true, Bool.and_eq_true, decide_eq_true_eq] at h
      rcases h with ⟨hx, hy⟩ | rfl
      · rw [Binary64.eq_zero_of_isZero hx, Binary64.eq_zero_of_isZero hy]
        exact alike_zero _ _
      · exact hsame _

theorem zeroSignsApart_inside {c : Char} (hquote : c ≠ '"') (hslash : c ≠ '\\')
    {cs cs' : List Char} (h : ZeroSignsApart .string cs cs') :
    ZeroSignsApart .string (c :: cs) (c :: cs') := by
  refine .char c ?_
  rwa [Spot.next, if_neg hquote, if_neg hslash]

theorem zeroSignsApart_escaped (c : Char) {cs cs' : List Char}
    (h : ZeroSignsApart .string cs cs') :
    ZeroSignsApart .string (escaped c ++ cs) (escaped c ++ cs') := by
  rw [escaped.eq_def]
  split
  case h_8 hquote hslash _ _ _ _ _ =>
    split
    · next hc =>
      obtain ⟨hquote₁, hslash₁⟩ := hexDigit_ne (n := c.toNat / 16) (by omega)
      obtain ⟨hquote₂, hslash₂⟩ := hexDigit_ne (n := c.toNat % 16) (by omega)
      refine .char '\\' (.char 'u' ?_)
      refine zeroSignsApart_inside (by decide) (by decide) ?_
      refine zeroSignsApart_inside (by decide) (by decide) ?_
      exact zeroSignsApart_inside hquote₁ hslash₁ (zeroSignsApart_inside hquote₂ hslash₂ h)
    · exact zeroSignsApart_inside hquote hslash h
  all_goals exact .char _ (.char _ h)

theorem zeroSignsApart_quoted (s : String) {cs cs' : List Char}
    (h : ZeroSignsApart .between cs cs') :
    ZeroSignsApart .between (quoted s ++ cs) (quoted s ++ cs') := by
  have hinside : ∀ ds : List Char, ZeroSignsApart .string (ds.flatMap escaped ++ '"' :: cs)
      (ds.flatMap escaped ++ '"' :: cs') := by
    intro ds
    induction ds with
    | nil => exact .char '"' h
    | cons d ds ih =>
      rw [List.flatMap_cons, List.append_assoc, List.append_assoc]
      exact zeroSignsApart_escaped d ih
  have hs := hinside s.toList
  simp only [quoted, List.cons_append, List.append_assoc, List.nil_append] at hs ⊢
  exact .char '"' hs

/-! ### Layouts -/

theorem zeroSignsApart_spaces (n : Nat) {cs cs' : List Char} (h : ZeroSignsApart .between cs cs') :
    ZeroSignsApart .between (List.replicate n ' ' ++ cs) (List.replicate n ' ' ++ cs') := by
  induction n with
  | zero => exact h
  | succ n ih => exact .char ' ' ih

theorem zeroSignsApart_lineBreak (l : Layout) (depth : Nat) {cs cs' : List Char}
    (h : ZeroSignsApart .between cs cs') :
    ZeroSignsApart .between (l.lineBreak depth ++ cs) (l.lineBreak depth ++ cs') := by
  cases l with
  | compact => exact h
  | indented => exact .char '\n' (zeroSignsApart_spaces (2 * depth) h)

theorem goOnAlike_lineBreak (l : Layout) (depth : Nat) {cs cs' : List Char}
    (h : GoOnAlike cs cs') : GoOnAlike (l.lineBreak depth ++ cs) (l.lineBreak depth ++ cs') := by
  cases l with
  | compact => exact h
  | indented =>
    exact .mark (by decide) (by decide) (zeroSignsApart_spaces (2 * depth) h.zeroSignsApart.1)

section
variable (l : Layout) (depth : Nat) {opening closing : Char} {texts texts' : List (List Char)}
  (hclosing : Scan.isWordChar closing = false ∧ closing ≠ '"')
include hclosing

/-- What comes behind the first text of a container. -/
theorem goOnAlike_tail {rest rest' : List Char} (hrest : ZeroSignsApart .between rest rest')
    (h : List.Forall₂ Alike texts texts') :
    GoOnAlike
      (texts.flatMap (fun t => ',' :: l.lineBreak (depth + 1) ++ t)
        ++ (l.lineBreak depth ++ closing :: rest))
      (texts'.flatMap (fun t => ',' :: l.lineBreak (depth + 1) ++ t)
        ++ (l.lineBreak depth ++ closing :: rest')) := by
  induction h with
  | nil => exact goOnAlike_lineBreak l depth (.mark hclosing.1 hclosing.2 hrest)
  | cons ht _ ih =>
    simp only [List.flatMap_cons, List.cons_append, List.append_assoc] at ih ⊢
    exact .mark (by decide) (by decide) (zeroSignsApart_lineBreak l _ (ht _ _ ih))

theorem alike_bracketed (hopening : Spot.next .between opening = .between)
    (h : List.Forall₂ Alike texts texts') :
    Alike (l.bracketed depth opening closing texts)
      (l.bracketed depth opening closing texts') := by
  intro rest rest' hrest
  have hrest := hrest.zeroSignsApart.1
  cases h with
  | nil =>
    have hend := (GoOnAlike.mark hclosing.1 hclosing.2 hrest).zeroSignsApart.1
    exact .char opening (by rwa [hopening])
  | cons ht hts =>
    have htail := goOnAlike_tail l depth hclosing hrest hts
    simp only [Layout.bracketed, List.cons_append, List.append_assoc, List.nil_append] at htail ⊢
    refine .char opening ?_
    rw [hopening]
    exact zeroSignsApart_lineBreak l _ (ht _ _ htail)

end

theorem alike_entry (l : Layout) (key : String) {text text' : List Char} (h : Alike text text') :
    Alike (quoted key ++ l.colon ++ text) (quoted key ++ l.colon ++ text') := by
  intro rest rest' hrest
  have hvalue := h rest rest' hrest
  rw [List.append_assoc, List.append_assoc, List.append_assoc, List.append_assoc]
  refine zeroSignsApart_quoted key ?_
  cases l with
  | compact => exact .char ':' hvalue
  | indented => exact .char ':' (.char ' ' hvalue)

/-! ### Values -/

theorem alike_quoted (s : String) : Alike (quoted s) (quoted s) :=
  fun _ _ h => zeroSignsApart_quoted s h.zeroSignsApart.1

mutual

/-- **The texts of equal values are the same but for the signs of zeros.** -/
theorem alike_write (l : Layout) (depth : Nat) : (v w : Json) → v.beq w = true →
    Alike (v.write l depth) (w.write l depth)
  | .null, w, h => by
    cases w with
    | null => exact alike_word ['n', 'u', 'l', 'l'] (by decide) (List.all_eq_true.1 (by decide))
    | _ => cases h
  | .bool a, w, h => by
    cases w with
    | bool b =>
      obtain rfl : a = b := by simpa [beq] using h
      cases a with
      | true => exact alike_word ['t', 'r', 'u', 'e'] (by decide) (List.all_eq_true.1 (by decide))
      | false => exact alike_word ['f', 'a', 'l', 's', 'e'] (by decide) (List.all_eq_true.1 (by decide))
    | _ => cases h
  | .number m, w, h => by
    cases w with
    | number n => exact alike_literal h
    | _ => cases h
  | .string s, w, h => by
    cases w with
    | string t =>
      obtain rfl : s = t := by simpa [beq] using h
      exact alike_quoted s
    | _ => cases h
  | .array vs, w, h => by
    cases w with
    | array ws => exact alike_bracketed l depth (by decide) rfl (alike_writeItems l _ vs ws h)
    | _ => cases h
  | .object m, w, h => by
    cases w with
    | object n => exact alike_bracketed l depth (by decide) rfl (alike_writeEntries l _ m n h)
    | _ => cases h

theorem alike_writeItems (l : Layout) (depth : Nat) : (vs ws : List Json) →
    beqItems vs ws = true → List.Forall₂ Alike (writeItems l depth vs) (writeItems l depth ws)
  | [], [], _ => .nil
  | [], _ :: _, h => by cases h
  | _ :: _, [], h => by cases h
  | v :: vs, w :: ws, h => by
    rw [beqItems, Bool.and_eq_true] at h
    exact .cons (alike_write l depth v w h.1) (alike_writeItems l depth vs ws h.2)

theorem alike_writeEntries (l : Layout) (depth : Nat) : {lo lo' : Option String} →
    (m : KeyMap Json lo) → (n : KeyMap Json lo') → beqEntries m n = true →
    List.Forall₂ Alike (writeEntries l depth m) (writeEntries l depth n)
  | _, _, .nil, .nil, _ => .nil
  | _, _, .nil, .cons .., h => by cases h
  | _, _, .cons .., .nil, h => by cases h
  | _, _, .cons k v _ m, .cons k' w _ n, h => by
    rw [beqEntries, Bool.and_eq_true, Bool.and_eq_true, beq_iff_eq] at h
    obtain ⟨⟨rfl, hv⟩, hrest⟩ := h
    exact .cons (alike_entry l k (alike_write l depth v w hv))
      (alike_writeEntries l depth m n hrest)

end

theorem zeroSignsApart_render (l : Layout) {v w : Json} (h : (v == w) = true) :
    ZeroSignsApart .between (v.render l).toList (w.render l).toList := by
  have hwrite := alike_write l 0 v w h [] [] .nil
  rw [List.append_nil, List.append_nil] at hwrite
  rwa [render, render, String.toList_ofList, String.toList_ofList]

end Json

/-! ## Equality as a whole -/

/-- Equality of things that have a document is an equivalence relation, and equal things have equal
    documents, the same log and texts that are the same but for the signs of float zeros. -/
structure Congruent (α : Type) [BEq α] [Serializable α] : Prop where
  equivalence : Equivalence fun x y : α => (x == y) = true
  document (k : SectionKey) {x y : α} : (x == y) = true →
    ((Serializable.serialize k x).value == (Serializable.serialize k y).value) = true
  log (c : Config) {x y : α} : (x == y) = true → (c.render x).log = (c.render y).log
  text (c : Config) {x y : α} : (x == y) = true →
    Json.ZeroSignsApart .between (c.render x).value.toList (c.render y).value.toList

/-- It is so if equal things are those that are the same without the signs of zeros, and documents
    and logs go along with leaving out these signs. -/
theorem Congruent.of_plain {α : Type} [BEq α] [Serializable α] {plain : α → α}
    {document : SectionKey → α → Json} (hbeq : ∀ x y : α, (x == y) = true ↔ plain x = plain y)
    (hvalue : ∀ k (x : α), (Serializable.serialize k x).value = document k x)
    (hdocument : ∀ k x, document k (plain x) = (document k x).plain)
    (hlog : ∀ k (x : α),
      (Serializable.serialize k (plain x)).log = (Serializable.serialize k x).log) :
    Congruent α := by
  have hequal : ∀ k {x y : α}, (x == y) = true →
      ((Serializable.serialize k x).value == (Serializable.serialize k y).value) = true := by
    intro k x y h
    have hsame : (document k x).plain = (document k y).plain := by
      rw [← hdocument, ← hdocument, (hbeq x y).1 h]
    rw [hvalue, hvalue]
    exact (Json.beq_iff_plain _ _).2 hsame
  refine ⟨equivalence_of_plain hbeq, hequal, fun c x y h => ?_, fun c x y h => ?_⟩
  · have hsame : (Serializable.serialize c.sectionKey x).log =
        (Serializable.serialize c.sectionKey y).log := by
      rw [← hlog, ← hlog c.sectionKey y, (hbeq x y).1 h]
    rw [Config.render, Config.render, Logged.log_bind, Logged.log_bind, hsame]
    rfl
  · exact Json.zeroSignsApart_render c.layout (hequal c.sectionKey h)

/-- **Equal trees render alike.**  For queries, aggregations, scripts, nodes and requests, equality
    is an equivalence relation, and equal ones have equal documents, the same log, and texts that
    are the same but for the signs of float zeros.  Integers are equal if they are the same, floats
    if they stand for the same number, and an integer never equals a float. -/
theorem equal_trees_render_alike :
    Congruent Query ∧ Congruent Aggregation ∧ Congruent Script ∧ Congruent Node ∧
      Congruent SearchRequest ∧
      (∀ m n hm hn, (Number.integer m hm == Number.integer n hn) = true ↔ m = n) ∧
      (∀ x y, (Number.real x == Number.real y) = true ↔ x.value = y.value) ∧
      ∀ m hm x, (Number.integer m hm == Number.real x) = false ∧
        (Number.real x == Number.integer m hm) = false := by
  refine ⟨?_, ?_, ?_, ?_, ?_, ?_, ?_, fun m hm x => ⟨rfl, rfl⟩⟩
  · exact .of_plain Query.beq_iff_plain Query.value_serialize Query.document_plain
      Query.log_plain
  · exact .of_plain Aggregation.beq_iff_plain Aggregation.value_serialize
      Aggregation.document_plain Aggregation.log_plain
  · exact .of_plain Script.beq_iff_plain Script.value_serialize Script.document_plain
      Script.log_plain
  · exact .of_plain Node.beq_iff_plain Node.value_serialize Node.document_plain Node.log_plain
  · exact .of_plain SearchRequest.beq_iff_plain SearchRequest.value_serialize
      SearchRequest.document_plain SearchRequest.log_plain
  · intro m n hm hn
    show (m == n) = true ↔ m = n
    exact beq_iff_eq
  · intro x y
    exact Binary64.beq_iff_value

/-- The texts of equal option values can be different. -/
example :
    let weight (negative : Bool) : OptionValue := .scalar (.number (.real (.zero negative)))
    (weight true == weight false) = true ∧
      ((weight true).document .aggs).compact = "-0.0" ∧
      ((weight false).document .aggs).compact = "0.0" := by
  decide

end SearchBody
