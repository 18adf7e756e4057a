/-
  Search bodies — files and directories.

  A directory holds named files and directories.  A `Location` is the list of names that leads
  to one of them from the top; a path leads to a location, going down and up on its way, and
  every directory that it passes has to be there.  A path that goes above the top leads nowhere.

  * `Directory.find?` is the entry at a location, `Directory.put` sets it.
  * `Directory.walk?` follows a path through directories, `Directory.target?` follows one to a
    name in a directory, whether or not there is an entry of that name.
  * `Directory.readText?` reads a text file and `Directory.writeFile` writes a file.
  * `Directory.makeDirectories` follows a path and makes the directories that are missing; those
    made before it comes to a halt stay.
-/
import SearchBody.FilePath
import SearchBody.KeyMap

set_option autoImplicit false

namespace SearchBody

/-- A file with its bytes, or a directory with named entries. -/
inductive FileEntry where
  | file (content : ByteArray)
  | directory (entries : KeyMap FileEntry none)

/-- The entries of a directory. -/
abbrev Directory := KeyMap FileEntry none

/-- The names on the way from the top to an entry. -/
abbrev Location := List String

namespace Directory

/-! ## Entries -/

/-- The entry at a location. -/
def find? : Location → Directory → Option FileEntry
  | [], d => some (.directory d)
  | name :: rest, d =>
    match d.get? name with
    | some (.directory sub) => find? rest sub
    | some (.file content) => if rest.isEmpty then some (.file content) else none
    | none => none

/-- Set the entry at a location, where there is a directory around it. -/
def put (entry : FileEntry) : Location → Directory → Directory
  | [], d => d
  | [name], d => d.insert name entry
  | name :: rest, d =>
    match d.get? name with
    | some (.directory sub) => d.insert name (.directory (put entry rest sub))
    | _ => d

/-! ## Paths -/

/-- The location that a path leads to through directories, from the one at `here`. -/
def walk? (d : Directory) : Location → FilePath → Option Location
  | here, [] => some here
  | here, part :: rest =>
    if FilePath.isStay part then walk? d here rest
    else if FilePath.isUp part then
      if here.isEmpty then none else walk? d here.dropLast rest
    else match find? (here ++ [part]) d with
      | some (.directory _) => walk? d (here ++ [part]) rest
      | _ => none

section
variable (limits : PathLimits)

/-- The location of a path that ends in a name. -/
def target? (path : FilePath) (d : Directory) : Option Location := do
  let name ← path.getLast?
  if path.isUsable limits && FilePath.isName limits name then
    return (← walk? d [] path.dropLast) ++ [name]
  else none

/-! ## Files -/

/-- The text in a file, if the path leads to a file and its bytes are a text. -/
def readText? (path : FilePath) (d : Directory) : Option String := do
  match find? (← target? limits path d) d with
  | some (.file content) => String.fromUTF8? content
  | _ => none

/-- Write a file, in place of one that is there. -/
def writeFile (content : ByteArray) (path : FilePath) (d : Directory) : Option Directory := do
  let place ← target? limits path d
  match find? place d with
  | some (.directory _) => none
  | _ => return put (.file content) place d

/-! ## Directories -/

/-- Follow a path from a location, making directories that are missing: the tree afterwards,
    and whether the end is reached. -/
def makeFrom : Location → FilePath → Directory → Directory × Bool
  | _, [], d => (d, true)
  | here, part :: rest, d =>
    if FilePath.isStay part then makeFrom here rest d
    else if FilePath.isUp part then
      if here.isEmpty then (d, false) else makeFrom here.dropLast rest d
    else
      let next := here ++ [part]
      match find? next d with
      | some (.directory _) => makeFrom next rest d
      | some (.file _) => (d, false)
      | none =>
        if FilePath.isName limits part then makeFrom next rest (put (.directory .empty) next d)
        else (d, false)

/-- Make the directories on a path that are missing: the tree afterwards, and whether all of
    them are there. -/
def makeDirectories (path : FilePath) (d : Directory) : Directory × Bool :=
  if path.isUsable limits then makeFrom limits [] path d else (d, false)

end

end Directory

end SearchBody
