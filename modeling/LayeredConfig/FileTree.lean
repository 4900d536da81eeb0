import LayeredConfig.Path

/-! Files below a working directory. A path is walked component by component: every component that is
passed has to be a directory, also before a `..`. -/

namespace LayeredConfig

/-- The content of the regular file at a path. -/
abbrev Files := Text → Option ByteArray

/-- A tree of files and directories. Each is named by the components that lead to it from the working
directory, the last one first. -/
structure FileTree where
  /-- The absolute path of the working directory. -/
  root : Text
  directories : List (List Text) := [[]]
  files : List (List Text × ByteArray) := []

namespace FileTree

/-- One step from a directory, to a place that need not exist. -/
def step (here : List Text) (component : Text) : Option (List Text) :=
  if Path.isHere component then some here
  else if Path.isUp component then (match here with
    | [] => none
    | _ :: above => some above)
  else some (component :: here)

/-- Where a walk from `here` ends, if it stays in the tree. -/
def walk (tree : FileTree) (here : List Text) : List Text → Option (List Text)
  | [] => some here
  | component :: rest =>
    if here ∈ tree.directories then (step here component).bind (walk tree · rest) else none

/-- The components of a path after those of the working directory. Nothing else is known of absolute
paths. -/
def relative? (tree : FileTree) (path : Text) : Option (List Text) :=
  let within := tree.root ++ ['/']
  if within.isPrefixOf path then some (Path.components (path.drop within.length))
  else if Path.isAbsolute path || path == [] then none
  else some (Path.components path)

/-- The content of the file at a path. -/
def content (tree : FileTree) : Files := fun path =>
  (tree.relative? path).bind fun components => (tree.walk [] components).bind fun place =>
    tree.files.lookup place

/-- Makes every directory on the way along the components, and tells where the way ends. -/
def makeWay (tree : FileTree) (here : List Text) : List Text → FileTree × List Text
  | [] => (tree, here)
  | component :: rest =>
    let tree := { tree with directories := here :: tree.directories }
    makeWay tree ((step here component).getD here) rest

def addDirectory (tree : FileTree) (path : Text) : FileTree :=
  let (tree, place) := tree.makeWay [] (Path.components path)
  { tree with directories := place :: tree.directories }

/-- Writes a file, and makes the directories that lead to it. -/
def addFile (tree : FileTree) (path : Text) (content : ByteArray) : FileTree :=
  let (tree, place) := tree.makeWay [] (Path.components path)
  { tree with files := (place, content) :: tree.files }

end FileTree

end LayeredConfig
