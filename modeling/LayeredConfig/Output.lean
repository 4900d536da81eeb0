import LayeredConfig.Output.Json

/-! The two forms in which a resolved configuration is printed. -/

namespace LayeredConfig

inductive OutputFormat where
  /-- A line `key=value` for each entry, with nothing escaped. -/
  | properties
  | json
  deriving DecidableEq, Repr

namespace OutputFormat

def ofName? (name : Text) : Option OutputFormat :=
  if name = "properties".toList then some properties
  else if name = "json".toList then some json
  else none

def line (entry : Text × Text) : Text := entry.1 ++ '=' :: entry.2 ++ ['\n']

def print (format : OutputFormat) (map : OrderedMap Text) : Text :=
  match format with
  | properties => map.entries.flatMap line
  | json => Output.Json.object map.entries ++ ['\n']

end OutputFormat

end LayeredConfig
