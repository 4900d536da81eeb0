import LayeredConfig.Text

/-! File paths, with `/` between components. -/

namespace LayeredConfig.Path

def components (path : Text) : List Text := Text.splitOn '/' path

/-- A component that names the directory it stands in. -/
def isHere (component : Text) : Bool := component == [] || component == ['.']

def isUp (component : Text) : Bool := component == ['.', '.']

def isAbsolute (path : Text) : Bool := path.head? == some '/'

/-- The last component that leads somewhere, unless it leads upwards. -/
def fileName? (path : Text) : Option Text :=
  ((components path).filter fun component => !isHere component).getLast?.filter fun name => !isUp name

/-- `path` as seen from `directory`; an absolute path is seen the same from everywhere. -/
def join (directory path : Text) : Text :=
  if isAbsolute path || directory == [] then path
  else if directory.getLast? == some '/' then directory ++ path
  else directory ++ '/' :: path

end LayeredConfig.Path
