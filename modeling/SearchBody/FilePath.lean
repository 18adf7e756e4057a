/-
  Search bodies — paths.

  A path is written with slashes.  Its parts are kept as they stand, those that lead nowhere
  included, for they tell a path to a file from a path to a directory: `a/` and `a/.` lead to a
  directory, `a` to either.

  * `PathLimits`: how long names and paths may be.
  * `FilePath.ofText` are the parts of a text.
  * `FilePath.isStay`, `FilePath.isUp` and `FilePath.isName` sort the parts.
  * `FilePath.parent` is the path of the directory around what a path leads to.
  * `FilePath.isUsable`: the paths that lead anywhere at all.
-/

set_option autoImplicit false

namespace SearchBody

/-- How many bytes the name of a file and a path may have. -/
structure PathLimits where
  name : Nat
  path : Nat

/-- The limits that file systems have as a rule. -/
def PathLimits.usual : PathLimits := ⟨255, 4095⟩

/-- The parts of a path between its slashes. -/
abbrev FilePath := List String

namespace FilePath

/-- The parts of a text between slashes. -/
def split (cs : List Char) : List (List Char) :=
  cs.foldr
    (fun c parts => match parts with
      | [] => [[c]]
      | part :: parts => if c = '/' then [] :: part :: parts else (c :: part) :: parts)
    [[]]

/-- The path that a text writes. -/
def ofText (text : String) : FilePath := (split text.toList).map String.ofList

/-- Whether a part stays in the directory before it. -/
def isStay (part : String) : Bool := part = "" || part = "."

/-- Whether a part goes to the directory around the one before it. -/
def isUp (part : String) : Bool := part = ".."

/-- Whether a part can be the name of an entry. -/
def isName (limits : PathLimits) (part : String) : Bool :=
  !isStay part && !isUp part && part.utf8ByteSize ≤ limits.name

/-- The number of bytes of a path, slashes included. -/
def size (path : FilePath) : Nat := path.foldr (fun part size => part.utf8ByteSize + 1 + size) 0 - 1

/-- Whether a path starts where it is used and not at the root of all files. -/
def isRelative : FilePath → Bool
  | "" :: _ :: _ => false
  | _ => true

/-- Whether a path can lead anywhere: it starts here, is not too long and holds no null
    character. -/
def isUsable (limits : PathLimits) (path : FilePath) : Bool :=
  path.isRelative && path.size ≤ limits.path && path.all fun part => !part.toList.contains '\x00'

/-- The path without its last part that goes anywhere, nor what stays before and after it. -/
def parent (path : FilePath) : FilePath :=
  (((path.reverse.dropWhile isStay).drop 1).dropWhile isStay).reverse

end FilePath

end SearchBody
