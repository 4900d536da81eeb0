import LayeredConfig.Path

/-! The formats of configuration files. A file's name tells its format, by an exact ending. -/

namespace LayeredConfig

inductive Format where
  | properties
  | yaml
  deriving DecidableEq, Repr

namespace Format

def ofName? (name : Text) : Option Format :=
  if ".properties".toList.isSuffixOf name then some .properties
  else if ".yaml".toList.isSuffixOf name || ".yml".toList.isSuffixOf name then some .yaml
  else none

/-- The format that the last name of a path tells. -/
def ofPath? (path : Text) : Option Format := (Path.fileName? path).bind ofName?

end Format

end LayeredConfig
