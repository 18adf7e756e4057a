/-
  Search bodies — documents are read back.

  The text of a document is read in two stages, so it is followed in two: the scan of the text
  finds the tokens of the document, whatever the layout, and the tokens put the document
  together again.

  * `Json.tokens`: the tokens of a value.
  * `Scans`: a text is scanned as a list of tokens wherever no word goes on behind it.
    `scans_literal`, `scans_quoted` and `scans_bracketed` are its instances; `scans_write`: the
    text of a value is scanned as the tokens of the value.
  * `run_tokens`: the tokens of a value lead to the place after the value.
  * `read?_render`: the text of a document, in either layout, is read as the document.
-/
import SearchBody.Json.Reading
import SearchBody.Json.Text
import SearchBody.Proofs.Literal

set_option autoImplicit false

namespace SearchBody

namespace Json

/-! ## The tokens of a value -/

/-- Lists of tokens parted by commas. -/
def separated : List (List Token) → List Token
  | [] => []
  | ts :: tss => ts ++ tss.flatMap (Token.comma :: ·)

mutual

/-- The tokens of a value. -/
def tokens : Json → List Token
  | .null => [.atom .null]
  | .bool b => [.atom (.bool b)]
  | .number n => [.atom (.number n)]
  | .string s => [.quote s]
  | .array items => .openBracket :: separated (tokensItems items) ++ [.closeBracket]
  | .object entries => .openBrace :: separated (tokensEntries entries) ++ [.closeBrace]

/-- The tokens of the items of an array. -/
def tokensItems : List Json → List (List Token)
  | [] => []
  | v :: vs => v.tokens :: tokensItems vs

/-- The tokens of the entries of an object. -/
def tokensEntries : {lo : Option String} → KeyMap Json lo → List (List Token)
  | _, .nil => []
  | _, .cons k v _ rest => (.quote k :: .colon :: v.tokens) :: tokensEntries rest

end

/-! ## Scanning -/

namespace Scan

variable {accuracy : Number.Accuracy}

theorem run_of_step {s next : Scan} {c : Char} {ts : List Token}
    (h : s.step accuracy c = some (next, ts)) (cs : List Char) :
    run accuracy s (c :: cs) = (run accuracy next cs).map (ts ++ ·) := by
  rw [run, h]

theorem run_of_silent {s next : Scan} {c : Char} (h : s.step accuracy c = some (next, []))
    (cs : List Char) : run accuracy s (c :: cs) = run accuracy next cs := by
  rw [run_of_step h]
  exact Option.map_id'

theorem isWordChar_of_isDigit {c : Char} (h : c.isDigit = true) : isWordChar c = true := by
  simp [isWordChar, Char.isAlphanum, h]

theorem isWordChar_of_mem_literal {n : Number} {c : Char} (hc : c ∈ n.literal) :
    isWordChar c = true := by
  rcases Number.mem_literal hc with hd | rfl | rfl | rfl | rfl
  · exact isWordChar_of_isDigit hd
  all_goals rfl

theorem start_of_isWordChar {c : Char} (h : isWordChar c = true) :
    start c = some (.word [c], []) := by
  have hblank : isBlank c = false := by
    rw [Bool.eq_false_iff]
    intro hb
    simp only [isBlank, Bool.or_eq_true, decide_eq_true_eq] at hb
    rcases hb with ((rfl | rfl) | rfl) | rfl <;> exact absurd h (by decide)
  have hquote : c ≠ '"' := by
    rintro rfl
    exact absurd h (by decide)
  simp [start, hblank, hquote, h]

/-- The rest of a text does not go on with a word. -/
def WordEnds (rest : List Char) : Prop := ∀ c ∈ rest.head?, isWordChar c = false

/-- A word that is begun goes on to its end and becomes its atom. -/
theorem run_word {v : Json} {rest : List Char} (hrest : WordEnds rest) (word seen : List Char)
    (hword : ∀ c ∈ word, isWordChar c = true)
    (hv : atom? accuracy (seen.reverse ++ word) = some v) :
    run accuracy (.word seen) (word ++ rest) =
      (run accuracy .between rest).map ([Token.atom v] ++ ·) := by
  -- what is seen and what is left of the word make up the same text all along
  induction word generalizing seen with
  | cons c cs ih =>
    have hstep : (Scan.word seen).step accuracy c = some (.word (c :: seen), []) :=
      if_pos (hword c List.mem_cons_self)
    rw [List.cons_append, run_of_silent hstep]
    refine ih (c :: seen) (fun d hd => hword d (List.mem_cons_of_mem _ hd)) ?_
    rwa [List.reverse_cons, List.append_assoc]
  | nil =>
    rw [List.append_nil] at hv
    cases rest with
    | nil =>
      show ((atom? accuracy seen.reverse).map fun v => [Token.atom v]) = _
      rw [hv]
      rfl
    | cons c cs =>
      have hc := hrest c rfl
      have hstep : (Scan.word seen).step accuracy c =
          (start c).map fun p => (p.1, .atom v :: p.2) := by
        simp only [step, hc, hv, Option.bind_eq_bind, Option.bind_some]
        cases start c <;> rfl
      have hbetween : Scan.between.step accuracy c = start c := rfl
      cases hs : start c with
      | none => simp [run, hstep, hbetween, hs]
      | some p => simp [run, hstep, hbetween, hs, Option.map_map, Function.comp_def]

end Scan

/-- A text is scanned as these tokens, if no word goes on behind it. -/
def Scans (text : List Char) (ts : List Token) : Prop :=
  ∀ rest, Scan.WordEnds rest →
    Scan.run .nearest .between (text ++ rest) =
      (Scan.run .nearest .between rest).map (ts ++ ·)

theorem scans_word {word : List Char} {v : Json} (hword : word.all Scan.isWordChar = true)
    (hne : word ≠ []) (hv : Scan.atom? .nearest word = some v) : Scans word [.atom v] := by
  intro rest hrest
  rw [List.all_eq_true] at hword
  cases word with
  | nil => exact absurd rfl hne
  | cons c cs =>
    have hstep : Scan.between.step .nearest c = some (.word [c], []) :=
      Scan.start_of_isWordChar (hword c List.mem_cons_self)
    rw [List.cons_append, Scan.run_of_silent hstep]
    exact Scan.run_word hrest cs [c] (fun d hd => hword d (List.mem_cons_of_mem _ hd)) hv

theorem scans_null : Scans ['n', 'u', 'l', 'l'] [.atom .null] :=
  scans_word rfl (by decide) rfl

theorem scans_true : Scans ['t', 'r', 'u', 'e'] [.atom (.bool true)] :=
  scans_word rfl (by decide) rfl

theorem scans_false : Scans ['f', 'a', 'l', 's', 'e'] [.atom (.bool false)] :=
  scans_word rfl (by decide) rfl

theorem scans_literal (n : Number) : Scans n.literal [.atom (.number n)] := by
  have hread := n.ofLiteral?_literal
  refine scans_word (List.all_eq_true.2 fun c => Scan.isWordChar_of_mem_literal) ?_ ?_
  · intro hnil
    rw [hnil] at hread
    cases hread
  · -- the three words are not numbers
    have hnot : ∀ word, Number.ofLiteral? .nearest word = none → n.literal ≠ word := by
      rintro word hnone rfl
      rw [hread] at hnone
      cases hnone
    rw [Scan.atom?, if_neg (hnot _ rfl), if_neg (hnot _ rfl), if_neg (hnot _ rfl), hread]
    rfl

/-! ## Strings -/

namespace Scan

variable {accuracy : Number.Accuracy}

theorem run_escape {c d : Char} (hc : c ≠ 'u') (h : unescape? c = some d) (seen cs : List Char) :
    run accuracy (.quote seen) ('\\' :: c :: cs) = run accuracy (.quote (d :: seen)) cs := by
  have hfirst : (Scan.quote seen).step accuracy '\\' = some (.escape seen, []) := rfl
  have hsecond : (Scan.escape seen).step accuracy c = some (.quote (d :: seen), []) := by
    rw [step, if_neg hc, h]
    rfl
  rw [run_of_silent hfirst, run_of_silent hsecond]

/-- Four hexadecimal digits are read as the character that they number. -/
theorem run_code {c : Char} (hc : c.toNat < 32) (seen cs : List Char) :
    run accuracy (.quote seen)
      ('\\' :: 'u' :: '0' :: '0' :: hexDigit (c.toNat / 16) :: hexDigit (c.toNat % 16) :: cs) =
        run accuracy (.quote (c :: seen)) cs := by
  have hhigh := digitValue?_hexDigit (n := c.toNat / 16) (by omega)
  have hlow := digitValue?_hexDigit (n := c.toNat % 16) (by omega)
  have hvalue : 16 * (c.toNat / 16) + c.toNat % 16 = c.toNat := Nat.div_add_mod ..
  have hstart : (Scan.quote seen).step accuracy '\\' = some (.escape seen, []) := rfl
  have hcode : (Scan.escape seen).step accuracy 'u' = some (.code seen none 4 0, []) := rfl
  have hzero : (Scan.code seen none 4 0).step accuracy '0' =
      some (.code seen none 3 0, []) := rfl
  have hzero' : (Scan.code seen none 3 0).step accuracy '0' =
      some (.code seen none 2 0, []) := rfl
  have hthird : (Scan.code seen none 2 0).step accuracy (hexDigit (c.toNat / 16)) =
      some (.code seen none 1 (c.toNat / 16), []) := by
    simp [step, hhigh]
  have hafter : afterCode seen none c.toNat = some (.quote (c :: seen)) := by
    have hhighSurrogate : isHighSurrogate c.toNat = false := by
      simp [isHighSurrogate]
      omega
    have hlowSurrogate : isLowSurrogate c.toNat = false := by
      simp [isLowSurrogate]
      omega
    simp [afterCode, hhighSurrogate, hlowSurrogate]
  have hfourth : (Scan.code seen none 1 (c.toNat / 16)).step accuracy (hexDigit (c.toNat % 16)) =
      some (.quote (c :: seen), []) := by
    simp [step, hlow, hvalue, hafter]
  rw [run_of_silent hstart, run_of_silent hcode, run_of_silent hzero, run_of_silent hzero',
    run_of_silent hthird, run_of_silent hfourth]

/-- An escaped character is read as itself. -/
theorem run_escaped (c : Char) (seen cs : List Char) :
    run accuracy (.quote seen) (escaped c ++ cs) = run accuracy (.quote (c :: seen)) cs := by
  rw [escaped.eq_def]
  split
  case h_8 hquote hslash _ _ _ _ _ =>
    split
    · next hc => exact run_code hc seen cs
    · next hc =>
      have hstep : (Scan.quote seen).step accuracy c = some (.quote (c :: seen), []) := by
        rw [step, if_neg hquote, if_neg hslash, if_neg hc]
      exact run_of_silent hstep cs
  all_goals exact run_escape (by decide) rfl seen cs

theorem run_quote (s seen rest : List Char) :
    run accuracy (.quote seen) (s.flatMap escaped ++ '"' :: rest) =
      (run accuracy .between rest).map
        ([Token.quote (String.ofList (seen.reverse ++ s))] ++ ·) := by
  induction s generalizing seen with
  | nil =>
    have hstep : (Scan.quote seen).step accuracy '"' =
        some (.between, [.quote (String.ofList seen.reverse)]) := rfl
    rw [List.flatMap_nil, List.nil_append, run_of_step hstep, List.append_nil]
  | cons c cs ih =>
    rw [List.flatMap_cons, List.append_assoc, run_escaped, ih, List.reverse_cons,
      List.append_assoc]
    rfl

end Scan

theorem scans_quoted (s : String) : Scans (quoted s) [.quote s] := by
  intro rest _
  have hstep : Scan.between.step .nearest '"' = some (.quote [], []) := rfl
  rw [quoted, List.cons_append, List.cons_append, Scan.run_of_silent hstep, List.append_assoc,
    List.singleton_append, Scan.run_quote, List.reverse_nil, List.nil_append, String.ofList_toList]

/-! ## Layouts -/

theorem run_lineBreak (l : Layout) (depth : Nat) (rest : List Char) :
    Scan.run .nearest .between (l.lineBreak depth ++ rest) = Scan.run .nearest .between rest := by
  have hblank : ∀ n, Scan.run .nearest .between (List.replicate n ' ' ++ rest) =
      Scan.run .nearest .between rest := by
    intro n
    induction n with
    | zero => rfl
    | succ n ih => rwa [List.replicate_succ, List.cons_append, Scan.run_of_silent rfl]
  cases l with
  | compact => rfl
  | indented =>
    rw [Layout.lineBreak, List.cons_append, Scan.run_of_silent rfl]
    exact hblank (2 * depth)

theorem run_colon (l : Layout) (rest : List Char) :
    Scan.run .nearest .between (l.colon ++ rest) =
      (Scan.run .nearest .between rest).map ([Token.colon] ++ ·) := by
  have hcolon : Scan.between.step .nearest ':' = some (.between, [.colon]) := rfl
  cases l with
  | compact => exact Scan.run_of_step hcolon rest
  | indented =>
    show Scan.run .nearest .between (':' :: ' ' :: rest) = _
    rw [Scan.run_of_step hcolon, Scan.run_of_silent rfl]

/-- A closing bracket of either kind, and its token. -/
inductive Closes : Char → Token → Prop
  | bracket : Closes ']' .closeBracket
  | brace : Closes '}' .closeBrace

theorem Closes.wordEnds {closing : Char} {t : Token} (h : Closes closing t) (l : Layout)
    (depth : Nat) (rest : List Char) : Scan.WordEnds (l.lineBreak depth ++ closing :: rest) := by
  intro c hc
  cases l with
  | compact =>
    obtain rfl := Option.some.inj hc
    cases h <;> rfl
  | indented =>
    obtain rfl := Option.some.inj hc
    rfl

section
variable (l : Layout) (depth : Nat) {closing : Char} {close : Token} (hclose : Closes closing close)
  {texts : List (List Char)} {tss : List (List Token)}
include hclose

theorem wordEnds_tail (texts : List (List Char)) (rest : List Char) :
    Scan.WordEnds (texts.flatMap (fun t => ',' :: l.lineBreak (depth + 1) ++ t)
      ++ (l.lineBreak depth ++ closing :: rest)) := by
  cases texts with
  | nil => exact hclose.wordEnds l depth rest
  | cons text texts =>
    intro c hc
    obtain rfl := Option.some.inj hc
    rfl

/-- Behind the first text of a container, every further one is a comma and its tokens. -/
theorem run_tail (h : List.Forall₂ Scans texts tss) (rest : List Char) :
    Scan.run .nearest .between (texts.flatMap (fun t => ',' :: l.lineBreak (depth + 1) ++ t)
      ++ (l.lineBreak depth ++ closing :: rest)) =
        (Scan.run .nearest .between rest).map
          (tss.flatMap (Token.comma :: ·) ++ [close] ++ ·) := by
  induction h with
  | nil =>
    have hstep : Scan.between.step .nearest closing = some (.between, [close]) := by
      cases hclose <;> rfl
    rw [List.flatMap_nil, List.nil_append, run_lineBreak, Scan.run_of_step hstep]
    rfl
  | @cons text ts texts tss htext _ ih =>
    have hcomma : Scan.between.step .nearest ',' = some (.between, [.comma]) := rfl
    rw [List.flatMap_cons, List.cons_append, List.cons_append, List.cons_append,
      Scan.run_of_step hcomma, List.append_assoc, List.append_assoc, run_lineBreak,
      htext _ (wordEnds_tail l depth hclose texts rest), ih]
    simp [Option.map_map, Function.comp_def]

/-- The texts between two brackets are scanned one after the other. -/
theorem scans_bracketed {opening : Char} {openToken : Token}
    (hopen : Scan.between.step .nearest opening = some (.between, [openToken]))
    (h : List.Forall₂ Scans texts tss) :
    Scans (l.bracketed depth opening closing texts) (openToken :: separated tss ++ [close]) := by
  intro rest _
  cases h with
  | nil =>
    have hstep : Scan.between.step .nearest closing = some (.between, [close]) := by
      cases hclose <;> rfl
    show Scan.run .nearest .between (opening :: closing :: rest) = _
    rw [Scan.run_of_step hopen, Scan.run_of_step hstep, Option.map_map]
    rfl
  | @cons text ts texts tss htext htexts =>
    have htail := run_tail l depth hclose htexts rest
    have hends := wordEnds_tail l depth hclose texts rest
    simp only [Layout.bracketed, List.cons_append, List.append_assoc, List.nil_append]
    rw [Scan.run_of_step hopen, run_lineBreak]
    simp only [List.cons_append] at htail hends
    rw [htext _ hends, htail]
    simp [separated, Option.map_map, Function.comp_def]

end

theorem scans_entry (l : Layout) (key : String) {text : List Char} {ts : List Token}
    (h : Scans text ts) : Scans (quoted key ++ l.colon ++ text) (.quote key :: .colon :: ts) := by
  intro rest hrest
  have hends : Scan.WordEnds (l.colon ++ (text ++ rest)) := by
    intro c hc
    cases l <;> obtain rfl := Option.some.inj hc <;> rfl
  rw [List.append_assoc, List.append_assoc, scans_quoted key _ hends, run_colon, h rest hrest]
  simp [Option.map_map, Function.comp_def]

mutual

/-- **The text of a value is scanned as the tokens of the value**, in either layout. -/
theorem scans_write (l : Layout) (depth : Nat) : (v : Json) → Scans (v.write l depth) v.tokens
  | .null => scans_null
  | .bool true => scans_true
  | .bool false => scans_false
  | .number n => scans_literal n
  | .string s => scans_quoted s
  | .array items => scans_bracketed l depth .bracket rfl (scans_writeItems l (depth + 1) items)
  | .object entries => scans_bracketed l depth .brace rfl (scans_writeEntries l (depth + 1) entries)

theorem scans_writeItems (l : Layout) (depth : Nat) : (vs : List Json) →
    List.Forall₂ Scans (writeItems l depth vs) (tokensItems vs)
  | [] => .nil
  | v :: vs => .cons (scans_write l depth v) (scans_writeItems l depth vs)

theorem scans_writeEntries (l : Layout) (depth : Nat) :
    {lo : Option String} → (m : KeyMap Json lo) →
      List.Forall₂ Scans (writeEntries l depth m) (tokensEntries m)
  | _, .nil => .nil
  | _, .cons k v _ rest =>
    .cons (scans_entry l k (scans_write l depth v)) (scans_writeEntries l depth rest)

end

theorem ofText?_render (l : Layout) (v : Json) :
    Token.ofText? .nearest (v.render l).toList = some v.tokens := by
  have h := scans_write l 0 v [] (fun c hc => by cases hc)
  rw [List.append_nil] at h
  rw [render, String.toList_ofList, Token.ofText?, h]
  exact congrArg some (List.append_nil _)

/-! ## Putting the tokens together -/

/-- The entries of a map added to others, in the order of their keys. -/
def insertAll {lo : Option String} (m : KeyMap Json lo) (entries : KeyMap Json none) :
    KeyMap Json none :=
  m.toList.foldl (fun entries e => entries.insert e.1 e.2) entries

theorem get?_insertAll {lo : Option String} (m : KeyMap Json lo) (entries : KeyMap Json none)
    (key : String) : (insertAll m entries).get? key = (m.get? key).or (entries.get? key) := by
  induction m generalizing entries with
  | nil => rfl
  | cons k v _ rest ih =>
    show (insertAll rest (entries.insert k v)).get? key = _
    rw [ih, KeyMap.get?_insert, KeyMap.get?_cons]
    by_cases hk : key = k
    · rw [if_pos hk, if_pos hk, hk, KeyMap.get?_rest_self]
      rfl
    · rw [if_neg hk, if_neg hk]

/-- Entries that are read one by one make up the map again. -/
theorem insertAll_nil (m : KeyMap Json none) : insertAll m .nil = m :=
  KeyMap.ext_get? fun key => by rw [get?_insertAll, KeyMap.get?_nil, Option.or_none]

namespace Place

theorem run_of_step {p next : Place} {t : Token} (h : p.step t = some next) (ts : List Token) :
    run p (t :: ts) = run next ts := by
  rw [run, h]

/-- The tokens of a value do not begin with a closing bracket. -/
theorem tokens_eq_cons (v : Json) : ∃ t ts, v.tokens = t :: ts ∧ t ≠ .closeBracket := by
  cases v <;> exact ⟨_, _, rfl, fun h => by cases h⟩

/-- The first item of an array is read like any other. -/
theorem run_firstItem (v : Json) (around : List Frame) (ts : List Token) :
    run (.firstItem around) (v.tokens ++ ts) =
      run (.value (.array [] :: around)) (v.tokens ++ ts) := by
  obtain ⟨t, ts', htokens, ht⟩ := tokens_eq_cons v
  have hstep : step (.firstItem around) t = step (.value (.array [] :: around)) t := by
    cases t with
    | closeBracket => exact absurd rfl ht
    | _ => rfl
  rw [htokens, List.cons_append, run, run, hstep]

mutual

/-- **The tokens of a value lead to the place after the value.** -/
theorem run_tokens : (v : Json) → (around : List Frame) → (ts : List Token) →
    run (.value around) (v.tokens ++ ts) = run (.done v around) ts
  | .null, _, _ => rfl
  | .bool _, _, _ => rfl
  | .number _, _, _ => rfl
  | .string _, _, _ => rfl
  | .array [], _, _ => rfl
  | .array (v :: vs), around, ts => by
    rw [tokens, tokensItems, separated]
    simp only [List.cons_append, List.append_assoc, List.nil_append]
    rw [run_of_step rfl, run_firstItem, run_tokens v, run_items vs]
    rfl
  | .object .nil, _, _ => rfl
  | .object (.cons k v h rest), around, ts => by
    rw [tokens, tokensEntries, separated]
    simp only [List.cons_append, List.append_assoc, List.nil_append]
    rw [run_of_step (p := .value around) rfl, run_of_step rfl, run_of_step rfl, run_tokens v,
      run_entries rest]
    -- the entries come in the order of their keys, so inserting them rebuilds the map
    show run (.done (.object (insertAll (.cons k v h rest) .nil)) around) ts = _
    rw [insertAll_nil]

/-- Behind an item, further items are added to those before. -/
theorem run_items : (vs : List Json) → (v : Json) → (items : List Json) →
    (around : List Frame) → (ts : List Token) →
    run (.done v (.array items :: around))
      ((tokensItems vs).flatMap (Token.comma :: ·) ++ (.closeBracket :: ts)) =
        run (.done (.array ((v :: items).reverse ++ vs)) around) ts
  | [], v, items, around, ts => by
    rw [List.append_nil]
    rfl
  | v' :: vs, v, items, around, ts => by
    rw [tokensItems, List.flatMap_cons]
    simp only [List.cons_append, List.append_assoc]
    rw [run_of_step rfl, run_tokens v', run_items vs, List.reverse_cons, List.append_assoc]
    rfl

/-- Behind an entry, further entries are added to those before. -/
theorem run_entries : {lo : Option String} → (m : KeyMap Json lo) → (k : String) → (v : Json) →
    (entries : KeyMap Json none) → (around : List Frame) → (ts : List Token) →
    run (.done v (.object entries k :: around))
      ((tokensEntries m).flatMap (Token.comma :: ·) ++ (.closeBrace :: ts)) =
        run (.done (.object (insertAll m (entries.insert k v))) around) ts
  | _, .nil, _, _, _, _, _ => rfl
  | _, .cons k' v' _ rest, k, v, entries, around, ts => by
    rw [tokensEntries, List.flatMap_cons]
    simp only [List.cons_append, List.append_assoc]
    rw [run_of_step rfl, run_of_step rfl, run_of_step rfl, run_tokens v', run_entries rest]
    rfl

end

end Place

/-- **The text of a document, in either layout, is read as the document.** -/
theorem read?_render (l : Layout) (v : Json) : read? .nearest (v.render l) = some v := by
  have h := Place.run_tokens v [] []
  rw [List.append_nil] at h
  rw [read?, ofText?_render, Option.bind_some, ofTokens?, h]
  rfl

end Json

end SearchBody
