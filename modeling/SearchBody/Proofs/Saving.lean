/-
  Search bodies — settings that are saved and loaded.

  Settings are saved under a path of names, in any tree of files and directories.  Saving makes
  the directories that are missing and then writes the file, so it touches the tree twice; what
  it comes to is nevertheless decided by what stands on the path before.

  * `FilePath.text` writes a path of names, `FilePath.ofText_text` reads it back.
  * `FilePath.IsOrdinary`: names that are names everywhere, none of which is too long.
  * `Directory.readText?_text` and `Directory.writeFile_concat`: reading and writing at a path,
    said of what stands at its location.
  * `Directory.HasRoomAt`: the places where a file can be written; `Directory.FiledAt`: what the
    tree becomes by it.
  * `Config.ReadsBack`: a reader of TOML takes the text of settings for these settings.
  * `Config.load_after_save`: where there is room, the settings are saved and nothing else changes;
    elsewhere the tree stays as it is.  What is loaded is what the file at the path says.
-/
import SearchBody.Config.File
import SearchBody.Proofs.Places

set_option autoImplicit false

namespace SearchBody

/-! ## Paths of names -/

namespace FilePath

theorem split_ne_nil (cs : List Char) : split cs ≠ [] := by
  cases cs with
  | nil => exact List.cons_ne_nil _ _
  | cons c cs =>
    rw [split, List.foldr_cons]
    split
    · exact List.cons_ne_nil _ _
    · split <;> exact List.cons_ne_nil _ _

theorem split_slash (cs : List Char) : split ('/' :: cs) = [] :: split cs := by
  obtain ⟨part, parts, h⟩ := List.exists_cons_of_ne_nil (split_ne_nil cs)
  rw [split] at h
  simp [split, h]

theorem split_cons {c : Char} (hc : c ≠ '/') {cs part : List Char} {parts : List (List Char)}
    (h : split cs = part :: parts) : split (c :: cs) = (c :: part) :: parts := by
  rw [split] at h
  simp [split, h, hc]

theorem split_of_not_mem {cs : List Char} (h : '/' ∉ cs) : split cs = [cs] := by
  induction cs with
  | nil => rfl
  | cons c cs ih =>
    rw [List.mem_cons, not_or] at h
    exact split_cons (Ne.symm h.1) (ih h.2)

theorem split_append_slash {cs : List Char} (h : '/' ∉ cs) (rest : List Char) :
    split (cs ++ '/' :: rest) = cs :: split rest := by
  induction cs with
  | nil => exact split_slash rest
  | cons c cs ih =>
    rw [List.mem_cons, not_or] at h
    exact split_cons (Ne.symm h.1) (ih h.2)

/-- The text of a path over these names. -/
def text (names : List String) : String := "/".intercalate names

theorem ofText_text {names : List String} (hne : names ≠ [])
    (h : ∀ name ∈ names, '/' ∉ name.toList) : ofText (text names) = names := by
  induction names with
  | nil => exact absurd rfl hne
  | cons name names ih =>
    have hname : '/' ∉ name.toList := h name List.mem_cons_self
    cases names with
    | nil =>
      rw [text, String.intercalate_singleton, ofText, split_of_not_mem hname]
      simp
    | cons next names =>
      have ih := ih (List.cons_ne_nil next names) fun n hn => h n (List.mem_cons_of_mem _ hn)
      have htext : (text (name :: next :: names)).toList
          = name.toList ++ '/' :: (text (next :: names)).toList := by
        simp [text, String.intercalate_cons_cons]
      rw [ofText] at ih
      rw [ofText, htext, split_append_slash hname, List.map_cons, String.ofList_toList, ih]

/-- Names without a slash or a null character, none of which has a meaning of its own on a path
    and all of which keep to the limits. -/
structure IsOrdinary (limits : PathLimits) (names : List String) : Prop where
  isName : ∀ name ∈ names, isName limits name = true
  no_slash : ∀ name ∈ names, '/' ∉ name.toList
  no_null : ∀ name ∈ names, '\x00' ∉ name.toList
  size_le : size names ≤ limits.path

variable {limits : PathLimits} {names : List String} {last : String}

theorem size_le_size_concat (names : List String) (last : String) :
    size names ≤ size (names ++ [last]) := by
  have h : names.foldr (fun part size => part.utf8ByteSize + 1 + size) 0
      ≤ (names ++ [last]).foldr (fun part size => part.utf8ByteSize + 1 + size) 0 := by
    induction names with
    | nil => simp
    | cons name names ih => simpa using ih
  exact Nat.sub_le_sub_right h 1

theorem IsOrdinary.init (h : IsOrdinary limits (names ++ [last])) : IsOrdinary limits names where
  isName name hn := h.isName name (List.mem_append_left _ hn)
  no_slash name hn := h.no_slash name (List.mem_append_left _ hn)
  no_null name hn := h.no_null name (List.mem_append_left _ hn)
  size_le := (size_le_size_concat names last).trans h.size_le

theorem IsOrdinary.isUsable (h : IsOrdinary limits names) : isUsable limits names = true := by
  have hrel : isRelative names = true := by
    cases names with
    | nil => rfl
    | cons name names =>
      have hs := isStay_of_isName (h.isName name List.mem_cons_self)
      unfold isRelative
      split
      · next heq =>
        cases heq
        exact absurd hs (by decide)
      · rfl
  simpa [FilePath.isUsable, hrel, h.size_le] using h.no_null

/-- The directory around the last name is that of the other names. -/
theorem IsOrdinary.parent_concat (h : IsOrdinary limits (names ++ [last])) :
    parent (names ++ [last]) = names := by
  have hstay : ∀ name ∈ names ++ [last], isStay name = false :=
    fun name hn => isStay_of_isName (h.isName name hn)
  have hlast : isStay last = false := hstay last (by simp)
  have hdrop : names.reverse.dropWhile isStay = names.reverse := by
    cases hr : names.reverse with
    | nil => rfl
    | cons name rest =>
      have hmem : name ∈ names := List.mem_reverse.1 (by rw [hr]; exact List.mem_cons_self)
      rw [List.dropWhile_cons_of_neg (by simp [hstay name (List.mem_append_left _ hmem)])]
  rw [parent, List.reverse_append, List.reverse_singleton, List.singleton_append,
    List.dropWhile_cons_of_neg (by simp [hlast]), List.drop_one, List.tail_cons, hdrop,
    List.reverse_reverse]

end FilePath

namespace Directory

variable {limits : PathLimits} {names : List String} {last : String} {d : Directory}

/-! ## Files at paths of names -/

theorem walk?_of_names (hn : ∀ name ∈ names, FilePath.isName limits name = true) {here : Location}
    (hh : kind? here d = some .directory) :
    walk? d here names
      = if kind? (here ++ names) d = some .directory then some (here ++ names) else none := by
  induction names generalizing here with
  | nil => rw [List.append_nil, if_pos hh, walk?]
  | cons name names ih =>
    have hname := hn name List.mem_cons_self
    have happend : here ++ [name] ++ names = here ++ name :: names := by simp
    rw [walk?, FilePath.isStay_of_isName hname, FilePath.isUp_of_isName hname]
    simp only [Bool.false_eq_true, if_false]
    by_cases hd : kind? (here ++ [name]) d = some .directory
    · obtain ⟨sub, hsub⟩ := find?_eq_of_kind?_eq_directory hd
      rw [hsub, ← happend]
      exact ih (fun n hmem => hn n (List.mem_cons_of_mem _ hmem)) hd
    · rw [if_neg fun h => hd (kind?_ancestor ⟨names, happend⟩ h)]
      split
      · next sub hsub => exact absurd (by rw [kind?, hsub]; rfl) hd
      · rfl

/-- A path of names leads to the place of these names if there is a directory around it. -/
theorem target?_concat (h : FilePath.IsOrdinary limits (names ++ [last])) (d : Directory) :
    target? limits (names ++ [last]) d
      = if kind? names d = some .directory then some (names ++ [last]) else none := by
  have hlast : FilePath.isName limits last = true := h.isName last (by simp)
  rw [target?, List.getLast?_concat, Option.bind_eq_bind, Option.bind_some, h.isUsable, hlast,
    List.dropLast_concat, walk?_of_names h.init.isName (kind?_nil d)]
  by_cases hd : kind? names d = some .directory <;> simp [hd]

/-- What is read at a path of names is the text of the file there. -/
theorem readText?_text (h : FilePath.IsOrdinary limits names) (d : Directory) :
    readText? limits (.ofText (FilePath.text names)) d
      = match kind? names d with
        | some (.file content) => String.fromUTF8? content
        | _ => none := by
  rcases List.eq_nil_or_concat names with rfl | ⟨init, last, rfl⟩
  · rfl
  · rw [List.concat_eq_append] at h ⊢
    rw [FilePath.ofText_text (by simp) h.no_slash, readText?, target?_concat h]
    by_cases hd : kind? init d = some .directory
    · rw [if_pos hd, Option.bind_eq_bind, Option.bind_some, kind?]
      cases find? (init ++ [last]) d with
      | none => rfl
      | some entry => cases entry <;> rfl
    · rw [if_neg hd, kind?_below hd (List.cons_ne_nil last [])]
      rfl

/-- Writing at a path of names into a directory that is there. -/
theorem writeFile_concat (h : FilePath.IsOrdinary limits (names ++ [last]))
    (hd : kind? names d = some .directory) (content : ByteArray) :
    writeFile limits content (names ++ [last]) d
      = if kind? (names ++ [last]) d = some .directory then none
        else some (put (.file content) (names ++ [last]) d) := by
  rw [writeFile, target?_concat h, if_pos hd, Option.bind_eq_bind, Option.bind_some, kind?]
  cases find? (names ++ [last]) d with
  | none => rfl
  | some entry => cases entry <;> rfl

/-- The places where a file can be written: not the top, not where a directory is, and not below
    a file. -/
structure HasRoomAt (place : Location) (d : Directory) : Prop where
  ne_nil : place ≠ []
  not_directory : kind? place d ≠ some .directory
  no_file_above : ∀ above content, above <+: place → above ≠ place →
    kind? above d ≠ some (.file content)

/-- What a tree becomes by a file with missing directories above it: there is the file, there are
    the directories, and all else is as before. -/
def FiledAt (content : ByteArray) (place : Location) (before after : Directory) : Prop :=
  ∀ other, kind? other after
    = if other = place then some (.file content)
      else if other <+: place ∧ kind? other before = none then some .directory
      else kind? other before

theorem HasRoomAt.not_hasFileOn (h : HasRoomAt (names ++ [last]) d) : ¬ HasFileOn names d := by
  rintro ⟨above, content, hp, hf⟩
  refine h.no_file_above above content (hp.trans (List.prefix_append names [last])) ?_ hf
  rintro rfl
  exact not_concat_prefix names last hp

theorem hasRoomAt_concat (hd : kind? (names ++ [last]) d ≠ some .directory)
    (hf : ¬ HasFileOn names d) : HasRoomAt (names ++ [last]) d where
  ne_nil := by simp
  not_directory := hd
  no_file_above above content hp hne hk :=
    hf ⟨above, content, (List.prefix_concat_iff.1 hp).resolve_left hne, hk⟩

end Directory

/-! ## Settings in files -/

namespace Config

open Directory

variable {limits : PathLimits} {c : Config} {names : List String} {last : String} {d : Directory}

/-- The reader takes the text of settings for these settings. -/
def ReadsBack (read : Toml.TableReader) : Prop := ∀ c : Config, ofText? read c.toText = some c

theorem readsBack_read? : ReadsBack Toml.read? := by
  intro c
  cases c with
  | mk sectionKey layout => cases sectionKey <;> cases layout <;> rfl

theorem ReadsBack.parseWith_toText {read : Toml.TableReader} (h : ReadsBack read) (c : Config) :
    parseWith read c.toText = .ok c := by
  rw [parseWith, h c]

theorem fromUTF8?_toUTF8 (text : String) : String.fromUTF8? text.toUTF8 = some text := by
  rw [String.fromUTF8?, String.toUTF8_eq_toByteArray, dif_pos text.isValidUTF8]
  rfl

/-- Saving to a path of names: the directories above the last one are made, then the file is
    written. -/
theorem save_concat (h : FilePath.IsOrdinary limits (names ++ [last])) :
    save limits c (FilePath.text (names ++ [last])) d
      = let made := makeFrom limits [] names d
        let content := c.toText.toUTF8
        match if made.2 then writeFile limits content (names ++ [last]) made.1 else none with
        | some written => (written, true)
        | none => (made.1, false) := by
  rw [save, FilePath.ofText_text (by simp) h.no_slash, h.parent_concat, makeDirectories,
    h.init.isUsable]
  rfl

theorem save_of_hasFileOn (h : FilePath.IsOrdinary limits (names ++ [last]))
    (hf : HasFileOn names d) : save limits c (FilePath.text (names ++ [last])) d = (d, false) := by
  rw [save_concat h, makeFrom_of_hasFileOn h.init.isName (kind?_nil d) hf]
  rfl

theorem save_of_directory (h : FilePath.IsOrdinary limits (names ++ [last]))
    (hd : kind? (names ++ [last]) d = some .directory) :
    save limits c (FilePath.text (names ++ [last])) d = (d, false) := by
  have hnames : kind? names d = some .directory := kind?_ancestor (List.prefix_append _ _) hd
  rw [save_concat h, makeFrom_of_directory h.init.isName [] hnames]
  simp only [if_true, writeFile_concat h hnames, if_pos hd]

/-- Where there is room the file is written, after the directories that were missing. -/
theorem save_of_hasRoomAt (h : FilePath.IsOrdinary limits (names ++ [last]))
    (hr : HasRoomAt (names ++ [last]) d) :
    (save limits c (FilePath.text (names ++ [last])) d).2 = true ∧
      FiledAt c.toText.toUTF8 (names ++ [last]) d
        (save limits c (FilePath.text (names ++ [last])) d).1 := by
  obtain ⟨hready, hmade⟩ := kind?_makeFrom h.init.isName (kind?_nil d) hr.not_hasFileOn
  have hnames := kind?_end_makeFrom h.init.isName (kind?_nil d) hr.not_hasFileOn
  rw [save_concat h]
  generalize makeFrom limits [] names d = made at hready hmade hnames ⊢
  rw [List.nil_append] at hmade hnames
  have habove : ∀ {place : Location}, place ≠ names ++ [last] →
      (place <+: names ↔ place <+: names ++ [last]) :=
    fun hne => ⟨fun hp => hp.trans (List.prefix_append _ _),
      fun hp => (List.prefix_concat_iff.1 hp).resolve_left hne⟩
  have hfree : kind? (names ++ [last]) made.1 ≠ some .directory := by
    rw [hmade, if_neg]
    · exact hr.not_directory
    · exact fun h => not_concat_prefix names last h.1
  have hleaf : (FileEntry.file c.toText.toUTF8).IsLeaf := trivial
  simp only [hready, if_true, writeFile_concat h hnames, if_neg hfree, true_and]
  intro place
  rw [kind?_put hleaf hnames hfree]
  by_cases e : place = names ++ [last]
  · rw [if_pos e, if_pos e]
    rfl
  · simp only [if_neg e, hmade, habove e]

/-- Without a name there is nowhere to save to. -/
theorem save_nil (limits : PathLimits) (c : Config) (d : Directory) :
    save limits c (FilePath.text []) d = (d, false) := by
  have hpath : FilePath.ofText (FilePath.text []) = [""] := rfl
  have hmade : makeDirectories limits (FilePath.parent [""]) d = (d, true) := by
    rw [makeDirectories]
    simp [FilePath.parent, FilePath.isStay, FilePath.isUsable, FilePath.isRelative, FilePath.size,
      makeFrom]
  rw [save, hpath, hmade]
  rfl

/-- Saving to a path of names: what it comes to, and what is there afterwards. -/
theorem save_cases (h : FilePath.IsOrdinary limits names) (c : Config) (d : Directory) :
    (HasRoomAt names d ∧ (save limits c (FilePath.text names) d).2 = true ∧
      FiledAt c.toText.toUTF8 names d (save limits c (FilePath.text names) d).1) ∨
    (¬ HasRoomAt names d ∧ save limits c (FilePath.text names) d = (d, false)) := by
  rcases List.eq_nil_or_concat names with rfl | ⟨init, last, rfl⟩
  · exact .inr ⟨fun hr => hr.ne_nil rfl, save_nil limits c d⟩
  · rw [List.concat_eq_append] at h ⊢
    by_cases hd : kind? (init ++ [last]) d = some .directory
    · exact .inr ⟨fun hr => hr.not_directory hd, save_of_directory h hd⟩
    · by_cases hf : HasFileOn init d
      · exact .inr ⟨fun hr => hr.not_hasFileOn hf, save_of_hasFileOn h hf⟩
      · have hr := hasRoomAt_concat hd hf
        exact .inl ⟨hr, save_of_hasRoomAt h hr⟩

/-- Settings are loaded where the file at the path is a text that says them. -/
theorem loadWith_eq_ok_iff (read : Toml.TableReader) (h : FilePath.IsOrdinary limits names)
    {d : Directory} {c : Config} :
    (loadWith read limits (FilePath.text names) d).value = .ok c ↔
      ∃ content text, kind? names d = some (.file content) ∧
        String.fromUTF8? content = some text ∧ parseWith read text = .ok c := by
  have hload : (loadWith read limits (FilePath.text names) d).value = .ok c ↔
      ∃ text, readText? limits (.ofText (FilePath.text names)) d = some text ∧
        parseWith read text = .ok c := by
    rw [loadWith]
    cases readText? limits (.ofText (FilePath.text names)) d with
    | none => simp [pure]
    | some text =>
      dsimp only
      cases hp : parseWith read text <;> simp [pure, hp]
  rw [hload, readText?_text h]
  constructor
  · rintro ⟨text, hread, hparse⟩
    split at hread
    · next content hk => exact ⟨content, text, hk, hread, hparse⟩
    · cases hread
  · rintro ⟨content, text, hk, hread, hparse⟩
    exact ⟨text, by rw [hk]; exact hread, hparse⟩

/-- The only line is that settings were loaded. -/
theorem log_loadWith (read : Toml.TableReader) (limits : PathLimits) (path : String)
    (d : Directory) :
    (loadWith read limits path d).log = match (loadWith read limits path d).value with
      | .ok _ => [.loadedConfig (quotedPath path)]
      | .error _ => [] := by
  rw [loadWith]
  cases readText? limits (.ofText path) d with
  | none => rfl
  | some text =>
    dsimp only
    cases parseWith read text <;> rfl

/-- **Settings that are saved are loaded again.**  In every tree, settings are saved to a path of
    names just if there is room for the file: the path is not empty, there is no directory at it
    and no file above it.  Then they are what is loaded from the path, whatever was there before,
    by any reader of TOML that takes the text of settings for these settings, as `Toml.read?` does;
    and apart from the file and the directories that were missing above it nothing in the tree
    changes.  Otherwise the tree stays as it was.  Loading, which has no tree to give back, gives
    settings just if the file at the path is a text that says them; then, and only then, it leaves
    a line in the log. -/
theorem load_after_save :
    ReadsBack Toml.read? ∧
    ∀ (read : Toml.TableReader) (limits : PathLimits) (names : List String) (c : Config)
      (d : Directory), FilePath.IsOrdinary limits names →
    let path := FilePath.text names
    let saved := save limits c path d
    (saved.2 = true ↔ HasRoomAt names d) ∧
    (saved.2 = true → (ReadsBack read → (loadWith read limits path saved.1).value = .ok c) ∧
      FiledAt c.toText.toUTF8 names d saved.1) ∧
    (saved.2 = false → saved.1 = d) ∧
    (∀ c', (loadWith read limits path d).value = .ok c' ↔
      ∃ content text, kind? names d = some (.file content) ∧
        String.fromUTF8? content = some text ∧ parseWith read text = .ok c') ∧
    (loadWith read limits path d).log.map Event.line =
      match (loadWith read limits path d).value with
      | .ok _ => ["INFO Loaded DSL config from " ++ quotedPath path]
      | .error _ => [] := by
  refine ⟨readsBack_read?, fun read limits names c d h => ?_⟩
  intro path saved
  have hlog : (loadWith read limits path d).log.map Event.line =
      match (loadWith read limits path d).value with
      | .ok _ => ["INFO Loaded DSL config from " ++ quotedPath path]
      | .error _ => [] := by
    rw [log_loadWith]
    cases (loadWith read limits path d).value <;> rfl
  rcases save_cases h c d with ⟨hr, hok, hkind⟩ | ⟨hr, hsaved⟩
  · have hfile : kind? names saved.1 = some (.file c.toText.toUTF8) :=
      (hkind names).trans (if_pos rfl)
    have hload : ReadsBack read → (loadWith read limits path saved.1).value = .ok c := fun hread =>
      (loadWith_eq_ok_iff read h).2
        ⟨_, c.toText, hfile, fromUTF8?_toUTF8 c.toText, hread.parseWith_toText c⟩
    exact ⟨iff_of_true hok hr, fun _ => ⟨hload, hkind⟩, by rw [hok]; nofun,
      fun c' => loadWith_eq_ok_iff read h, hlog⟩
  · have hfailed : saved = (d, false) := hsaved
    exact ⟨iff_of_false (by rw [hfailed]; nofun) hr, by rw [hfailed]; nofun,
      fun _ => by rw [hfailed], fun c' => loadWith_eq_ok_iff read h, hlog⟩

/-- There is room next to the notes, on a path with a directory that is missing, but not below
    them. -/
theorem load_after_save_notes :
    let d : Directory := .single "conf" (.directory (.single "notes" (.file "buy milk".toUTF8)))
    let c : Config := ⟨.aggregations, .indented⟩
    let names := ["conf", "search", "dsl.toml"]
    let below := ["conf", "notes", "dsl.toml"]
    FilePath.IsOrdinary .usual names ∧ FilePath.IsOrdinary .usual below ∧
    (let saved := save .usual c (FilePath.text names) d
    saved.2 = true ∧ (load .usual (FilePath.text names) saved.1).value = .ok c ∧
      kind? ["conf", "search"] saved.1 = some .directory ∧
      kind? ["conf", "notes"] saved.1 = some (.file "buy milk".toUTF8)) ∧
    save .usual c (FilePath.text below) d = (d, false) := by
  intro d c names below
  have hnames : FilePath.IsOrdinary .usual names := ⟨by decide, by decide, by decide, by decide⟩
  have hbelow : FilePath.IsOrdinary .usual below := ⟨by decide, by decide, by decide, by decide⟩
  obtain ⟨hread, hround⟩ := load_after_save
  obtain ⟨hok, hsaved, -⟩ := hround Toml.read? .usual names c d hnames
  obtain ⟨hok', -, hsame, -⟩ := hround Toml.read? .usual below c d hbelow
  have hclear : ¬ HasFileOn (["conf"] ++ ["search"]) d := not_hasFileOn_beyond rfl rfl []
  have hroom : HasRoomAt (["conf", "search"] ++ ["dsl.toml"]) d :=
    hasRoomAt_concat (by decide) hclear
  have hnone : ¬ HasRoomAt below d := fun h =>
    h.no_file_above ["conf", "notes"] "buy milk".toUTF8 (by decide) (by decide) rfl
  have hfailed : (save .usual c (FilePath.text below) d).2 = false :=
    Bool.eq_false_iff.2 fun h => hnone (hok'.1 h)
  obtain ⟨hload, hkind⟩ := hsaved (hok.2 hroom)
  exact ⟨hnames, hbelow, ⟨hok.2 hroom, hload hread, hkind _, hkind _⟩,
    Prod.ext (hsame hfailed) hfailed⟩

end Config

end SearchBody
