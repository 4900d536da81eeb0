import LayeredConfig.Error
import LayeredConfig.FileTree
import LayeredConfig.Format

/-! Sources of configuration: files that a session asks for, and the entries they hold. -/

namespace LayeredConfig

/-- On whose behalf a file is read. -/
inductive Origin where
  /-- It comes with the program, and lies in the resource directory. -/
  | resource
  | localFile
  | commandLine
  /-- It is named by the fallback source alone. -/
  | environment
  deriving DecidableEq, Repr

/-- A file that contributed entries. -/
structure Source where
  path : Text
  origin : Origin
  deriving DecidableEq, Repr

/-- A file to be read in a format, if it exists. -/
structure Request where
  source : Source
  format : Format
  deriving DecidableEq, Repr

/-- Entries in the order in which they are written; a key may occur more than once. -/
abbrev Entries := List (Text × Text)

namespace Format

/-- The entries of a text in a format. -/
def parse (format : Format) (t : Text) : Except Fault Entries :=
  match format with
  | properties => (Properties.parse t).mapError .properties
  | yaml => (Yaml.parse t).mapError .yaml

/-- The entries of a file's content. -/
def decode (format : Format) (content : ByteArray) : Except Fault Entries :=
  match String.fromUTF8? content with
  | none => .error .notUtf8
  | some s => format.parse s.toList

end Format

namespace Request

/-- The entries of the file, unless there is none. -/
def read (files : Files) (request : Request) : Except Error (Option Entries) :=
  match files request.source.path with
  | none => .ok none
  | some content =>
    ((request.format.decode content).mapError (.file request.source.path)).map some

end Request

end LayeredConfig
