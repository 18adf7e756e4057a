/-
  Search bodies — canonical texts.

  A document has one text under given settings, the two layouts differ in blanks alone, and
  the objects of a text list their keys in ascending order.

  * `withoutBlanks` takes out the blanks between the tokens of a text; a `Region` says whether
    a character stands inside a string.  `withoutBlanks_render`: what is left of an indented
    text is the text on one line.
  * `objectKeys` collects the keys of each object from the tokens of a text.
    `objectKeys_tokens`: they are the keys of the objects that the document is made of.
  * `faithful_rendering`: the rendering as a whole.
-/
import SearchBody.Config
import SearchBody.Proofs.KeyOrder
import SearchBody.Proofs.RoundTrip

set_option autoImplicit false

namespace SearchBody

namespace Json

/-! ## Blanks between tokens -/

/-- Where a character stands. -/
inductive Region where
  | outside
  /-- inside a string -/
  | inside
  /-- inside a string, after a backslash -/
  | escaped

/-- The region behind a character. -/
def Region.next : Region → Char → Region
  | .outside, c => if c = '"' then .inside else .outside
  | .inside, c => if c = '"' then .outside else if c = '\\' then .escaped else .inside
  | .escaped, _ => .inside

/-- Whether a character is a blank that belongs to no string. -/
def Region.drops : Region → Char → Bool
  | .outside, c => Scan.isBlank c
  | _, _ => false

/-- A text without its blanks, strings left as they are. -/
def dropBlanks : Region → List Char → List Char
  | _, [] => []
  | r, c :: cs => if r.drops c then dropBlanks (r.next c) cs else c :: dropBlanks (r.next c) cs

/-- A text without the blanks outside its strings. -/
def withoutBlanks (text : String) : String := String.ofList (dropBlanks .outside text.toList)

/-- Outside strings, the first text becomes the second one, whatever follows. -/
def Drops (text text' : List Char) : Prop :=
  ∀ rest, dropBlanks .outside (text ++ rest) = text' ++ dropBlanks .outside rest

theorem dropBlanks_plain {c : Char} (hblank : Scan.isBlank c = false) (hquote : c ≠ '"')
    (cs : List Char) : dropBlanks .outside (c :: cs) = c :: dropBlanks .outside cs := by
  simp [dropBlanks, Region.drops, Region.next, hblank, hquote]

theorem drops_plain {text : List Char}
    (h : ∀ c ∈ text, Scan.isBlank c = false ∧ c ≠ '"') : Drops text text := by
  intro rest
  induction text with
  | nil => rfl
  | cons c cs ih =>
    obtain ⟨hblank, hquote⟩ := h c List.mem_cons_self
    rw [List.cons_append, dropBlanks_plain hblank hquote,
      ih fun d hd => h d (List.mem_cons_of_mem _ hd), List.cons_append]

theorem drops_literal (n : Number) : Drops n.literal n.literal := by
  refine drops_plain fun c hc => ?_
  have hword : Scan.isWordChar c = true := Scan.isWordChar_of_mem_literal hc
  have hstart := Scan.start_of_isWordChar hword
  constructor
  · cases hb : Scan.isBlank c with
    | false => rfl
    | true => simp [Scan.start, hb] at hstart
  · rintro rfl
    cases hword

/-! ## Strings keep their blanks -/

theorem dropBlanks_inside {c : Char} (hquote : c ≠ '"') (hslash : c ≠ '\\') (cs : List Char) :
    dropBlanks .inside (c :: cs) = c :: dropBlanks .inside cs := by
  simp [dropBlanks, Region.drops, Region.next, hquote, hslash]

theorem hexDigit_ne {n : Nat} (h : n < 16) : hexDigit n ≠ '"' ∧ hexDigit n ≠ '\\' := by
  have all : ∀ m ∈ List.range 16, hexDigit m ≠ '"' ∧ hexDigit m ≠ '\\' := by decide
  exact all n (List.mem_range.2 h)

theorem dropBlanks_escaped (c : Char) (cs : List Char) :
    dropBlanks .inside (escaped c ++ cs) = escaped c ++ dropBlanks .inside cs := by
  rw [Json.escaped.eq_def]
  split
  case h_8 hquote hslash _ _ _ _ _ =>
    split
    · next hc =>
      obtain ⟨hquote₁, hslash₁⟩ := hexDigit_ne (n := c.toNat / 16) (by omega)
      obtain ⟨hquote₂, hslash₂⟩ := hexDigit_ne (n := c.toNat % 16) (by omega)
      show '\\' :: 'u' :: dropBlanks .inside ('0' :: '0' :: hexDigit _ :: hexDigit _ :: cs) = _
      rw [dropBlanks_inside (by decide) (by decide), dropBlanks_inside (by decide) (by decide),
        dropBlanks_inside hquote₁ hslash₁, dropBlanks_inside hquote₂ hslash₂]
      rfl
    · exact dropBlanks_inside hquote hslash cs
  all_goals rfl

theorem drops_quoted (s : String) : Drops (quoted s) (quoted s) := by
  intro rest
  have hinside : ∀ cs : List Char, dropBlanks .inside (cs.flatMap escaped ++ '"' :: rest) =
      cs.flatMap escaped ++ '"' :: dropBlanks .outside rest := by
    intro cs
    induction cs with
    | nil => rfl
    | cons c cs ih => rw [List.flatMap_cons, List.append_assoc, dropBlanks_escaped, ih,
        List.append_assoc]
  have hs := congrArg ('"' :: ·) (hinside s.toList)
  simp only [quoted, List.cons_append, List.append_assoc, List.nil_append] at hs ⊢
  exact hs

/-! ## Layouts differ in blanks alone -/

theorem dropBlanks_lineBreak (l : Layout) (depth : Nat) (rest : List Char) :
    dropBlanks .outside (l.lineBreak depth ++ rest) = dropBlanks .outside rest := by
  have hspaces : ∀ n, dropBlanks .outside (List.replicate n ' ' ++ rest) =
      dropBlanks .outside rest := by
    intro n
    induction n with
    | zero => rfl
    | succ n ih => exact ih
  cases l with
  | compact => rfl
  | indented => exact hspaces (2 * depth)

section
variable {depth depth' : Nat} {opening closing : Char} {texts texts' : List (List Char)}

theorem drops_bracketed
    (hopening : Scan.isBlank opening = false ∧ opening ≠ '"')
    (hclosing : Scan.isBlank closing = false ∧ closing ≠ '"')
    (h : List.Forall₂ Drops texts texts') :
    Drops (Layout.indented.bracketed depth opening closing texts)
      (Layout.compact.bracketed depth' opening closing texts') := by
  intro rest
  have htail : ∀ {texts texts' : List (List Char)}, List.Forall₂ Drops texts texts' →
      dropBlanks .outside (texts.flatMap
        (fun t => ',' :: Layout.indented.lineBreak (depth + 1) ++ t)
          ++ (Layout.indented.lineBreak depth ++ closing :: rest)) =
        texts'.flatMap (',' :: ·) ++ closing :: dropBlanks .outside rest := by
    intro texts texts' h
    induction h with
    | nil => rw [List.flatMap_nil, List.nil_append, dropBlanks_lineBreak,
        dropBlanks_plain hclosing.1 hclosing.2, List.flatMap_nil, List.nil_append]
    | @cons t t' ts ts' ht _ ih =>
      rw [List.flatMap_cons, List.flatMap_cons, List.cons_append, List.cons_append,
        List.cons_append, List.cons_append, dropBlanks_plain (by decide) (by decide),
        List.append_assoc, List.append_assoc, dropBlanks_lineBreak, ht, ih, List.cons_append,
        List.append_assoc]
  cases h with
  | nil =>
    show dropBlanks .outside (opening :: closing :: rest) = _
    rw [dropBlanks_plain hopening.1 hopening.2, dropBlanks_plain hclosing.1 hclosing.2]
    rfl
  | @cons t t' ts ts' ht hts =>
    have hcompact : Layout.compact.bracketed depth' opening closing (t' :: ts') =
        opening :: t' ++ ts'.flatMap (',' :: ·) ++ [closing] := by
      simp [Layout.bracketed, Layout.lineBreak]
    have hrest := htail hts
    rw [hcompact]
    simp only [Layout.bracketed, List.cons_append, List.append_assoc, List.nil_append] at hrest ⊢
    rw [dropBlanks_plain hopening.1 hopening.2, dropBlanks_lineBreak, ht, hrest]

end

theorem drops_entry (key : String) {text text' : List Char} (h : Drops text text') :
    Drops (quoted key ++ Layout.indented.colon ++ text)
      (quoted key ++ Layout.compact.colon ++ text') := by
  intro rest
  have hcolon : dropBlanks .outside (':' :: ' ' :: (text ++ rest)) =
      ':' :: (text' ++ dropBlanks .outside rest) :=
    congrArg (':' :: ·) (h rest)
  simp only [List.append_assoc, Layout.colon, List.cons_append, List.nil_append]
  rw [drops_quoted key, hcolon]

mutual

theorem drops_write (depth depth' : Nat) :
    (v : Json) → Drops (v.write .indented depth) (v.write .compact depth')
  | .null => drops_plain (by simp [write]; decide)
  | .bool true => drops_plain (by simp [write]; decide)
  | .bool false => drops_plain (by simp [write]; decide)
  | .number n => drops_literal n
  | .string s => drops_quoted s
  | .array items =>
    drops_bracketed (by decide) (by decide) (drops_writeItems (depth + 1) (depth' + 1) items)
  | .object entries =>
    drops_bracketed (by decide) (by decide) (drops_writeEntries (depth + 1) (depth' + 1) entries)

theorem drops_writeItems (depth depth' : Nat) : (vs : List Json) →
    List.Forall₂ Drops (writeItems .indented depth vs) (writeItems .compact depth' vs)
  | [] => .nil
  | v :: vs => .cons (drops_write depth depth' v) (drops_writeItems depth depth' vs)

theorem drops_writeEntries (depth depth' : Nat) : {lo : Option String} → (m : KeyMap Json lo) →
    List.Forall₂ Drops (writeEntries .indented depth m) (writeEntries .compact depth' m)
  | _, .nil => .nil
  | _, .cons k v _ rest =>
    .cons (drops_entry k (drops_write depth depth' v)) (drops_writeEntries depth depth' rest)

end

/-- **Without its blanks an indented text is the text on one line.** -/
theorem withoutBlanks_render (v : Json) :
    withoutBlanks (v.render .indented) = v.render .compact := by
  have h := drops_write 0 0 v []
  rw [List.append_nil] at h
  rw [withoutBlanks, render, String.toList_ofList, h, render]
  exact congrArg String.ofList (List.append_nil _)

/-! ## Texts determine documents -/

theorem render_injective (l : Layout) {v w : Json} (h : v.render l = w.render l) : v = w := by
  have hv := read?_render l v
  rw [h, read?_render] at hv
  exact (Option.some.inj hv).symm

/-! ## Keys of the objects in a text -/

/-- The keys of the objects in a text, from its tokens; for objects that stand open, the keys so
    far are given, last first. -/
def objectKeys : List (List String) → List Token → List (List String)
  | _, [] => []
  | around, .openBrace :: ts => objectKeys ([] :: around) ts
  | keys :: around, .closeBrace :: ts => keys.reverse :: objectKeys around ts
  | keys :: around, .quote k :: .colon :: ts => objectKeys ((k :: keys) :: around) ts
  | around, _ :: ts => objectKeys around ts

mutual

/-- The objects that a value is made of, inner ones first. -/
def objects : Json → List (KeyMap Json none)
  | .array items => objectsOfItems items
  | .object entries => objectsOfEntries entries ++ [entries]
  | _ => []

/-- The objects in the items of an array. -/
def objectsOfItems : List Json → List (KeyMap Json none)
  | [] => []
  | v :: vs => v.objects ++ objectsOfItems vs

/-- The objects in the entries of an object. -/
def objectsOfEntries : {lo : Option String} → KeyMap Json lo → List (KeyMap Json none)
  | _, .nil => []
  | _, .cons _ v _ rest => v.objects ++ objectsOfEntries rest

end

theorem head?_tail_ne_colon (tss : List (List Token)) (close : Token) (hclose : close ≠ .colon)
    (ts : List Token) : (tss.flatMap (Token.comma :: ·) ++ close :: ts).head? ≠ some .colon := by
  intro h
  cases tss with
  | nil => exact hclose (Option.some.inj h)
  | cons => cases Option.some.inj h

theorem objectKeys_string (s : String) (around : List (List String)) {ts : List Token}
    (h : ts.head? ≠ some .colon) : objectKeys around (.quote s :: ts) = objectKeys around ts := by
  cases ts with
  | nil => cases around <;> rfl
  | cons t ts =>
    cases t with
    | colon => exact absurd rfl h
    | _ => cases around <;> rfl

mutual

/-- The tokens of a value list the keys of its objects, if no colon follows. -/
theorem objectKeys_tokens : (v : Json) → (around : List (List String)) → (ts : List Token) →
    ts.head? ≠ some .colon →
    objectKeys around (v.tokens ++ ts) = v.objects.map KeyMap.keys ++ objectKeys around ts
  | .null, around, _, _ => by cases around <;> rfl
  | .bool _, around, _, _ => by cases around <;> rfl
  | .number _, around, _, _ => by cases around <;> rfl
  | .string s, around, ts, h => objectKeys_string s around h
  | .array [], around, _, _ => by cases around <;> rfl
  | .array (v :: vs), around, ts, _ => by
    have hv := objectKeys_tokens v around _
      (head?_tail_ne_colon (tokensItems vs) .closeBracket (by simp) ts)
    rw [objectKeys_items vs around ts] at hv
    rw [tokens, tokensItems, separated, objects, objectsOfItems, List.map_append]
    simp only [List.cons_append, List.append_assoc, List.nil_append]
    rw [← hv]
    cases around <;> rfl
  | .object .nil, around, _, _ => by cases around <;> rfl
  | .object (.cons k v _ rest), around, ts, _ => by
    have hv := objectKeys_tokens v ([k] :: around) _
      (head?_tail_ne_colon (tokensEntries rest) .closeBrace (by simp) ts)
    rw [objectKeys_entries rest [k] around ts] at hv
    rw [tokens, tokensEntries, separated, objects, objectsOfEntries]
    simp only [List.cons_append, List.append_assoc, List.nil_append, List.map_append]
    exact hv

/-- Further items of an array list the keys of their objects. -/
theorem objectKeys_items : (vs : List Json) → (around : List (List String)) → (ts : List Token) →
    objectKeys around ((tokensItems vs).flatMap (Token.comma :: ·) ++ .closeBracket :: ts) =
      (objectsOfItems vs).map KeyMap.keys ++ objectKeys around ts
  | [], around, _ => by cases around <;> rfl
  | v :: vs, around, ts => by
    have hv := objectKeys_tokens v around _
      (head?_tail_ne_colon (tokensItems vs) .closeBracket (by simp) ts)
    rw [objectKeys_items vs around ts] at hv
    rw [tokensItems, List.flatMap_cons, objectsOfItems, List.map_append]
    simp only [List.cons_append, List.append_assoc]
    rw [← hv]
    cases around <;> rfl

/-- Further entries of an object list the keys of their objects, and the end of the object its
    own keys. -/
theorem objectKeys_entries : {lo : Option String} → (m : KeyMap Json lo) →
    (keys : List String) → (around : List (List String)) → (ts : List Token) →
    objectKeys (keys :: around)
      ((tokensEntries m).flatMap (Token.comma :: ·) ++ .closeBrace :: ts) =
        (objectsOfEntries m).map KeyMap.keys ++ (keys.reverse ++ m.keys) :: objectKeys around ts
  | _, .nil, keys, around, _ => by
    rw [show (KeyMap.nil : KeyMap Json _).keys = [] from rfl, List.append_nil]
    rfl
  | _, .cons k v _ rest, keys, around, ts => by
    have hv := objectKeys_tokens v ((k :: keys) :: around) _
      (head?_tail_ne_colon (tokensEntries rest) .closeBrace (by simp) ts)
    rw [objectKeys_entries rest (k :: keys) around ts, List.reverse_cons, List.append_assoc, List.singleton_append] at hv
    rw [tokensEntries, List.flatMap_cons, objectsOfEntries, List.map_append]
    simp only [List.cons_append, List.append_assoc]
    exact hv

end

/-- **The objects of a text list the keys of the objects of the document.** -/
theorem objectKeys_render (l : Layout) (v : Json) :
    ∃ ts, Token.ofText? .nearest (v.render l).toList = some ts ∧
      objectKeys [] ts = v.objects.map KeyMap.keys := by
  refine ⟨v.tokens, ofText?_render l v, ?_⟩
  have h := objectKeys_tokens v [] [] (by simp)
  rw [List.append_nil] at h
  rw [h]
  exact List.append_nil _

end Json

/-! ## Rendering as a whole -/

theorem Config.value_render {α : Type} [Serializable α] (c : Config) (x : α) :
    (c.render x).value = (Serializable.serialize c.sectionKey x).value.render c.layout := rfl

/-- **Rendering is faithful and canonical.**  The reader keeps integers and rounds binary64
    correctly.  For everything that has a document, and so for every query, aggregation, script,
    node and request, under either section key: it reads the text in either layout as the
    document; the indented text without its blanks is the text on one line; each object of the
    text lists its keys in ascending order of their bytes, and they are the keys of the objects
    of the document.  Documents are the same exactly if their texts under the same settings are.
    The standard text is the text under standard settings, and a node has the text of the query,
    aggregation or script that it is. -/
theorem faithful_rendering (k : SectionKey) :
    (∀ (negative : Bool) (s : Number.Numeral) (n : Number),
      Number.ofLiteral? .nearest (Number.sign negative ++ s.text) = some n →
        s.Denotes negative n) ∧
    (∀ {α : Type} [Serializable α] (x : α),
      let document := (Serializable.serialize k x).value
      let text (l : Layout) := ((⟨k, l⟩ : Config).render x).value
      (∀ l, Json.read? .nearest (text l) = some document) ∧
      Json.withoutBlanks (text .indented) = text .compact ∧
      ∀ l, ∃ ts, Json.Token.ofText? .nearest (text l).toList = some ts ∧
        Json.objectKeys [] ts = document.objects.map KeyMap.keys ∧
        ∀ keys ∈ Json.objectKeys [] ts, keys.Pairwise fun a b => utf8 a < utf8 b) ∧
    (∀ {α β : Type} [Serializable α] [Serializable β] (x : α) (y : β) (l : Layout),
      (Serializable.serialize k x).value = (Serializable.serialize k y).value ↔
        ((⟨k, l⟩ : Config).render x).value = ((⟨k, l⟩ : Config).render y).value) ∧
    (∀ {α : Type} [Serializable α] (x : α), Serializable.print x = Config.standard.render x) ∧
    (∀ q : Query, Serializable.print (Node.query q) = Config.standard.render q) ∧
    (∀ a : Aggregation, Serializable.print (Node.aggregation a) = Config.standard.render a) ∧
    ∀ s : Script, Serializable.print (Node.script s) = Config.standard.render s := by
  refine ⟨fun _ _ _ => Number.denotes_of_ofLiteral?, ?_, ?_, fun _ => rfl, ?_, ?_, ?_⟩
  · intro α _ x document text
    refine ⟨fun l => Json.read?_render l document, Json.withoutBlanks_render document, ?_⟩
    intro l
    obtain ⟨ts, hts, hkeys⟩ := Json.objectKeys_render l document
    refine ⟨ts, hts, hkeys, ?_⟩
    rw [hkeys]
    intro keys hmem
    obtain ⟨entries, _, rfl⟩ := List.mem_map.1 hmem
    exact entries.keys_ascend
  · intro α β _ _ x y l
    constructor
    · intro h
      rw [Config.value_render, Config.value_render, h]
    · intro h
      exact Json.render_injective l h
  · intro q
    rfl
  · intro a
    rfl
  · intro s
    rfl

end SearchBody
