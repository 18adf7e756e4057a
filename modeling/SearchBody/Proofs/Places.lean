/-
  Search bodies — what stands at the places of a tree.

  A tree of files and directories is known by what stands at each location: a file with its
  bytes, a directory, or nothing.  Only directories have something below them.

  * `FileKind` is what stands at a location, `Directory.kind?` finds it.
  * `Directory.kind?_ancestor` and `Directory.kind?_below`: every directory on the way to
    something is there, and there is nothing below a place where there is no directory.
  * `Directory.kind?_put`: a new file or an empty directory changes one location and no other.
  * `Directory.HasFileOn`: a way that runs into a file.
  * `Directory.makeFrom_of_hasFileOn` and `Directory.kind?_makeFrom`: making the directories on a
    way of names changes nothing if there is a file on it; else it makes those that are missing
    and keeps all the rest.
-/
import Mathlib
import SearchBody.FileTree

set_option autoImplicit false

namespace SearchBody

/-- What stands at a location. -/
inductive FileKind where
  | file (content : ByteArray)
  | directory
deriving DecidableEq

/-- What an entry is, without what is in a directory. -/
def FileEntry.kind : FileEntry → FileKind
  | .file content => .file content
  | .directory _ => .directory

/-- An entry with nothing below it. -/
def FileEntry.IsLeaf : FileEntry → Prop
  | .file _ => True
  | .directory entries => entries = .empty

theorem FileEntry.exists_of_kind_directory {entry : Option FileEntry}
    (h : entry.map FileEntry.kind = some .directory) : ∃ sub, entry = some (.directory sub) := by
  obtain ⟨entry, rfl, hk⟩ := Option.map_eq_some_iff.1 h
  cases entry with
  | file => cases hk
  | directory sub => exact ⟨sub, rfl⟩

namespace FilePath

variable {limits : PathLimits} {part : String}

theorem isStay_of_isName (h : isName limits part = true) : isStay part = false := by
  simp_all [isName]

theorem isUp_of_isName (h : isName limits part = true) : isUp part = false := by
  simp_all [isName]

end FilePath

namespace Directory

/-- What stands at a location of a tree. -/
def kind? (place : Location) (d : Directory) : Option FileKind := (find? place d).map FileEntry.kind

variable {d : Directory} {place : Location} {name : String}

/-! ## Above and below -/

@[simp] theorem kind?_nil (d : Directory) : kind? [] d = some .directory := rfl

theorem find?_eq_of_kind?_eq_directory (h : kind? place d = some .directory) :
    ∃ sub, find? place d = some (.directory sub) :=
  FileEntry.exists_of_kind_directory h

theorem kind?_eq_none_iff : kind? place d = none ↔ find? place d = none := Option.map_eq_none_iff

theorem kind?_cons_of_directory {sub : Directory} (h : d.get? name = some (.directory sub))
    (rest : Location) : kind? (name :: rest) d = kind? rest sub := by
  rw [kind?, find?, h]
  rfl

theorem kind?_cons_of_not_directory (h : ∀ sub, d.get? name ≠ some (.directory sub))
    {rest : Location} (hr : rest ≠ []) : kind? (name :: rest) d = none := by
  rw [kind?_eq_none_iff, find?]
  cases hg : d.get? name with
  | none => rfl
  | some entry =>
    cases entry with
    | file => simp [hr]
    | directory sub => exact absurd hg (h sub)

theorem kind?_cons_congr {d' : Directory} (h : d.get? name = d'.get? name) (rest : Location) :
    kind? (name :: rest) d = kind? (name :: rest) d' := by
  rw [kind?, kind?, find?, find?, h]

/-- What stands at a name of the tree itself. -/
theorem kind?_single (name : String) (d : Directory) :
    kind? [name] d = (d.get? name).map FileEntry.kind := by
  rw [kind?, find?]
  cases d.get? name with
  | none => rfl
  | some entry => cases entry <;> rfl

theorem get?_eq_of_kind?_single (h : kind? [name] d = some .directory) :
    ∃ sub, d.get? name = some (.directory sub) :=
  FileEntry.exists_of_kind_directory (kind?_single name d ▸ h)

/-- There is nothing below a place where there is no directory. -/
theorem kind?_below (h : kind? place d ≠ some .directory) {rest : Location} (hr : rest ≠ []) :
    kind? (place ++ rest) d = none := by
  induction place generalizing d with
  | nil => exact absurd rfl h
  | cons name place ih =>
    rw [List.cons_append]
    by_cases hd : ∃ sub, d.get? name = some (.directory sub)
    · obtain ⟨sub, hsub⟩ := hd
      rw [kind?_cons_of_directory hsub] at h ⊢
      exact ih h
    · exact kind?_cons_of_not_directory (fun sub e => hd ⟨sub, e⟩) (by simp [hr])

/-- What is above something is a directory. -/
theorem kind?_above {rest : Location} (hr : rest ≠ []) (h : kind? (place ++ rest) d ≠ none) :
    kind? place d = some .directory := by
  by_contra hd
  exact h (kind?_below hd hr)

theorem kind?_ancestor {above : Location} (hp : above <+: place)
    (h : kind? place d = some .directory) : kind? above d = some .directory := by
  obtain ⟨rest, rfl⟩ := hp
  cases rest with
  | nil => rwa [List.append_nil] at h
  | cons name rest => exact kind?_above (List.cons_ne_nil name rest) (by rw [h]; nofun)

/-! ## A new entry -/

theorem kind?_cons_of_isLeaf {entry : FileEntry} (hl : entry.IsLeaf)
    (h : d.get? name = some entry) (rest : Location) :
    kind? (name :: rest) d = if rest = [] then some entry.kind else none := by
  cases rest with
  | nil => rw [kind?_single, h]; rfl
  | cons next rest =>
    cases entry with
    | file => exact kind?_cons_of_not_directory (by simp [h]) (List.cons_ne_nil next rest)
    | directory entries =>
      cases hl
      rw [kind?_cons_of_directory h]
      rfl

/-- A new entry of the tree itself. -/
theorem kind?_insert {entry : FileEntry} (hl : entry.IsLeaf)
    (hn : kind? [name] d ≠ some .directory) (place : Location) :
    kind? place (d.insert name entry)
      = if place = [name] then some entry.kind else kind? place d := by
  cases place with
  | nil => rfl
  | cons first rest =>
    by_cases e : first = name
    · subst e
      rw [kind?_cons_of_isLeaf hl (by rw [KeyMap.get?_insert, if_pos rfl])]
      by_cases hr : rest = []
      · simp [hr]
      · simp [hr, show kind? (first :: rest) d = none from kind?_below hn hr]
    · rw [if_neg (by simp [e])]
      exact kind?_cons_congr (by rw [KeyMap.get?_insert, if_neg e]) rest

/-- A new entry of a directory in the tree changes its own location and no other. -/
theorem kind?_put {entry : FileEntry} (hl : entry.IsLeaf) (hp : kind? place d = some .directory)
    (hn : kind? (place ++ [name]) d ≠ some .directory) (other : Location) :
    kind? other (put entry (place ++ [name]) d)
      = if other = place ++ [name] then some entry.kind else kind? other d := by
  induction place generalizing d other with
  | nil => exact kind?_insert hl hn other
  | cons first place ih =>
    have hfirst : [first] <+: first :: place := ⟨place, rfl⟩
    obtain ⟨sub, hsub⟩ := get?_eq_of_kind?_single (kind?_ancestor hfirst hp)
    rw [kind?_cons_of_directory hsub] at hp
    rw [List.cons_append, kind?_cons_of_directory hsub] at hn
    have hput : put entry (first :: place ++ [name]) d
        = d.insert first (.directory (put entry (place ++ [name]) sub)) := by
      rw [List.cons_append, put, hsub]
      simp
    rw [hput]
    cases other with
    | nil => rfl
    | cons first' other =>
      by_cases e : first' = first
      · subst e
        rw [kind?_cons_of_directory (by rw [KeyMap.get?_insert, if_pos rfl]), ih hp hn other,
          kind?_cons_of_directory hsub]
        simp
      · rw [if_neg (by simp [e])]
        exact kind?_cons_congr (by rw [KeyMap.get?_insert, if_neg e]) other

/-! ## Ways -/

theorem not_concat_prefix (place : Location) (name : String) : ¬ place ++ [name] <+: place := by
  intro hp
  have hlen := hp.length_le
  rw [List.length_append, List.length_singleton] at hlen
  omega

/-- There is a file at the place or above it. -/
def HasFileOn (place : Location) (d : Directory) : Prop :=
  ∃ above content, above <+: place ∧ kind? above d = some (.file content)

theorem not_hasFileOn (h : kind? place d = some .directory) : ¬ HasFileOn place d := by
  rintro ⟨above, content, hp, hf⟩
  rw [kind?_ancestor hp h] at hf
  cases hf

/-- There is no file on a way that leaves a directory for where nothing is. -/
theorem not_hasFileOn_beyond (h : kind? place d = some .directory)
    (hm : kind? (place ++ [name]) d = none) (rest : Location) :
    ¬ HasFileOn (place ++ name :: rest) d := by
  rintro ⟨above, content, hp, hf⟩
  have hp' : place ++ [name] <+: place ++ name :: rest := ⟨rest, by simp⟩
  rcases List.prefix_or_prefix_of_prefix hp hp' with ha | ⟨below, rfl⟩
  · rcases List.prefix_concat_iff.1 ha with rfl | ha
    · rw [hm] at hf
      cases hf
    · exact not_hasFileOn h ⟨above, content, ha, hf⟩
  · cases below with
    | nil =>
      rw [List.append_nil, hm] at hf
      cases hf
    | cons next below =>
      rw [kind?_below (by rw [hm]; nofun) (List.cons_ne_nil next below)] at hf
      cases hf

variable {limits : PathLimits} {here : Location} {names : List String}

/-- The next name on a way leads into a directory, which is made if nothing is there. -/
theorem makeFrom_cons (h : FilePath.isName limits name = true) :
    makeFrom limits here (name :: names) d
      = match kind? (here ++ [name]) d with
        | some .directory => makeFrom limits (here ++ [name]) names d
        | some (.file _) => (d, false)
        | none =>
          makeFrom limits (here ++ [name]) names (put (.directory .empty) (here ++ [name]) d) := by
  rw [makeFrom, kind?]
  simp only [FilePath.isStay_of_isName h, FilePath.isUp_of_isName h, h, if_true, Bool.false_eq_true, if_false]
  cases find? (here ++ [name]) d with
  | none => rfl
  | some entry => cases entry <;> rfl

/-- One directory that was missing is made. -/
theorem kind?_make (hh : kind? here d = some .directory) (hm : kind? (here ++ [name]) d = none)
    (place : Location) :
    kind? place (put (.directory .empty) (here ++ [name]) d)
      = if place = here ++ [name] then some .directory else kind? place d :=
  have hleaf : (FileEntry.directory .empty).IsLeaf := rfl
  kind?_put hleaf hh (by rw [hm]; nofun) place

theorem not_hasFileOn_make (hh : kind? here d = some .directory)
    (hm : kind? (here ++ [name]) d = none) (h : ¬ HasFileOn place d) :
    ¬ HasFileOn place (put (.directory .empty) (here ++ [name]) d) := by
  rintro ⟨above, content, hp, hf⟩
  rw [kind?_make hh hm] at hf
  split at hf
  · cases hf
  · exact h ⟨above, content, hp, hf⟩

variable (hn : ∀ name ∈ names, FilePath.isName limits name = true)
include hn

/-- Where the whole way is there, nothing is made. -/
theorem makeFrom_of_directory (here : Location) (h : kind? (here ++ names) d = some .directory) :
    makeFrom limits here names d = (d, true) := by
  induction names generalizing here with
  | nil => rfl
  | cons name names ih =>
    have hnext : kind? (here ++ [name]) d = some .directory :=
      kind?_ancestor ⟨names, by simp⟩ h
    rw [makeFrom_cons (hn name List.mem_cons_self), hnext]
    exact ih (fun n hmem => hn n (List.mem_cons_of_mem _ hmem)) _ (by rwa [List.append_assoc])

/-- On a way that runs into a file nothing is made. -/
theorem makeFrom_of_hasFileOn (hh : kind? here d = some .directory)
    (h : HasFileOn (here ++ names) d) : makeFrom limits here names d = (d, false) := by
  induction names generalizing here with
  | nil => exact absurd (by rwa [List.append_nil] at h) (not_hasFileOn hh)
  | cons name names ih =>
    rw [makeFrom_cons (hn name List.mem_cons_self)]
    cases hnext : kind? (here ++ [name]) d with
    | none => exact absurd h (not_hasFileOn_beyond hh hnext names)
    | some kind =>
      cases kind with
      | file => rfl
      | directory =>
        exact ih (fun n hmem => hn n (List.mem_cons_of_mem _ hmem)) hnext
          (by rwa [List.append_assoc])

/-- Where there is no file on the way, the directories that are missing are made and all else
    stays as it is. -/
theorem kind?_makeFrom (hh : kind? here d = some .directory) (h : ¬ HasFileOn (here ++ names) d) :
    (makeFrom limits here names d).2 = true ∧
      ∀ place, kind? place (makeFrom limits here names d).1
        = if place <+: here ++ names ∧ kind? place d = none then some .directory
          else kind? place d := by
  induction names generalizing here d with
  | nil =>
    refine ⟨rfl, fun place => (if_neg ?_).symm⟩
    rintro ⟨hp, hk⟩
    rw [List.append_nil] at hp
    rw [kind?_ancestor hp hh] at hk
    cases hk
  | cons name names ih =>
    have hrest : ∀ n ∈ names, FilePath.isName limits n = true :=
      fun n hmem => hn n (List.mem_cons_of_mem _ hmem)
    have happend : here ++ [name] ++ names = here ++ name :: names := by simp
    have hon : here ++ [name] <+: here ++ name :: names := ⟨names, happend⟩
    rw [makeFrom_cons (hn name List.mem_cons_self)]
    cases hnext : kind? (here ++ [name]) d with
    | none =>
      -- the step makes a directory and no file, so the rest of the way is as clear as before
      have hthere := (kind?_make hh hnext (here ++ [name])).trans (if_pos rfl)
      have hclear := not_hasFileOn_make hh hnext h
      obtain ⟨hok, hkind⟩ := ih hrest hthere (by rwa [happend])
      refine ⟨hok, fun place => ?_⟩
      simp only [hkind, happend, kind?_make hh hnext]
      by_cases e : place = here ++ [name]
      · simp [e, hon, hnext]
      · simp [e]
    | some kind =>
      cases kind with
      | file content => exact absurd ⟨_, content, hon, hnext⟩ h
      | directory =>
        have hmade := ih hrest hnext (by rwa [happend])
        rwa [happend] at hmade

theorem kind?_end_makeFrom (hh : kind? here d = some .directory)
    (h : ¬ HasFileOn (here ++ names) d) :
    kind? (here ++ names) (makeFrom limits here names d).1 = some .directory := by
  rw [(kind?_makeFrom hn hh h).2]
  cases hk : kind? (here ++ names) d with
  | none => simp
  | some kind =>
    cases kind with
    | file content => exact absurd ⟨_, content, List.prefix_rfl, hk⟩ h
    | directory => simp

end Directory

end SearchBody
