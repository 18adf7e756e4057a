/-
  Search bodies — settings in files.

  * `Config.parseWith` reads settings with a reader of TOML, `Config.loadWith` reads them from a
    file and records where they came from; `ConfigError` says why they could not.  `Config.parse`
    and `Config.load` do so with `Toml.read?`.
  * `Config.save` makes the missing directories on the way to a file and writes it.
-/
import SearchBody.Config.Decoding
import SearchBody.FileTree
import SearchBody.HiddenChar

set_option autoImplicit false

namespace SearchBody

/-- Why settings could not be loaded. -/
inductive ConfigError where
  /-- the file is not there or is no text -/
  | unreadable (path : String)
  /-- the text is no valid settings -/
  | malformed
deriving DecidableEq

/-- The text of an error. -/
def ConfigError.message : ConfigError → String
  | .unreadable path => "Failed to read config " ++ path
  | .malformed => "Failed to parse DSL config"

/-- The hexadecimal digits of a number. -/
def hexDigits (n : Nat) : List Char := Nat.toDigits 16 n

/-- A character of a path between quotes; one that cannot be seen is shown by its code. -/
def quotedPathChar (c : Char) : List Char :=
  match c with
  | '"' => ['\\', '"']
  | '\\' => ['\\', '\\']
  | '\n' => ['\\', 'n']
  | '\r' => ['\\', 'r']
  | '\t' => ['\\', 't']
  | '\x00' => ['\\', '0']
  | c =>
    if isHidden c then ['\\', 'u', '{'] ++ hexDigits c.toNat ++ ['}']
    else [c]

/-- A path between quotes, as a log line shows it. -/
def quotedPath (path : String) : String :=
  String.ofList ('"' :: path.toList.flatMap quotedPathChar ++ ['"'])

namespace Config

/-- The settings in a text, or the fault of the text. -/
def parseWith (read : Toml.TableReader) (text : String) : Except ConfigError Config :=
  match ofText? read text with
  | some c => .ok c
  | none => .error .malformed

/-- The settings in a TOML text, or the fault of the text. -/
def parse (text : String) : Except ConfigError Config := parseWith Toml.read? text

/-- Read settings from a file. -/
def loadWith (read : Toml.TableReader) (limits : PathLimits) (path : String) (d : Directory) :
    Logged (Except ConfigError Config) :=
  match Directory.readText? limits (.ofText path) d with
  | none => return .error (.unreadable path)
  | some text =>
    match parseWith read text with
    | .error e => return .error e
    | .ok c => do
      .record (.loadedConfig (quotedPath path))
      return .ok c

/-- Read settings from a TOML file. -/
def load (limits : PathLimits) (path : String) (d : Directory) :
    Logged (Except ConfigError Config) :=
  loadWith Toml.read? limits path d

/-- Write settings to a file: the directory afterwards, and whether the file is written.
    Directories that were missing on the way are made first. -/
def save (limits : PathLimits) (c : Config) (path : String) (d : Directory) :
    Directory × Bool :=
  let path := FilePath.ofText path
  let (d, ready) := Directory.makeDirectories limits path.parent d
  match if ready then Directory.writeFile limits c.toText.toUTF8 path d else none with
  | some written => (written, true)
  | none => (d, false)

end Config

end SearchBody
