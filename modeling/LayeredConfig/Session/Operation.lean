import LayeredConfig.Session.Basic

/-! What a session does. Each operation that reads goes through a list of files, which is settled before
the first of them is read. A complete session is a row of such operations, from the weakest to the
strongest, and then the resolution of what they collected. -/

namespace LayeredConfig

/-- The argument that follows the first one equal to `flag`. -/
def overrideTarget? (flag : Text) : List Text → Option Text
  | [] => none
  | argument :: rest => if argument = flag then rest.head? else overrideTarget? flag rest

namespace Session

/-- Where a file is looked for. -/
def place (session : Session) (origin : Origin) (path : Text) : Text :=
  match origin with
  | .resource => Path.join session.options.resourceDirectory path
  | .localFile | .commandLine | .environment => path

def request (session : Session) (origin : Origin) (format : Format) (path : Text) : Request :=
  ⟨⟨session.place origin path, origin⟩, format⟩

/-- The files of a name: `.properties`, `.yaml` and `.yml`. -/
def named (session : Session) (origin : Origin) (name : Text) : List Request :=
  [session.request origin .properties (name ++ ".properties".toList),
   session.request origin .yaml (name ++ ".yaml".toList),
   session.request origin .yaml (name ++ ".yml".toList)]

/-- Files at the paths given, each in the format that its name tells; other files are left out. -/
def byName (session : Session) (origin : Origin) (paths : List Text) : List Request :=
  paths.filterMap fun path => (Format.ofPath? path).map (session.request origin · path)

/-- The origin of files that the indirection key lists. They are laid to the environment when the map
does not have the key as it is spelt in the options. -/
def indirectOrigin (session : Session) : Origin :=
  if session.map.contains session.options.indirectionKey then .localFile else .environment

inductive Operation where
  | set (key value : Text)
  | loadFile (origin : Origin) (format : Format) (path : Text)
  /-- Reads a local file in the format that its name tells. -/
  | loadByName (path : Text)
  | loadMain (origin : Origin)
  /-- Reads the overlays of the active profiles. -/
  | loadProfiles
  /-- Reads the files that the indirection key lists. -/
  | loadIndirect
  /-- Reads the files that the arguments name after the override flag. -/
  | loadOverrides (arguments : List Text)
  deriving DecidableEq, Repr

namespace Operation

/-- The files that an operation goes through. -/
def requests (session : Session) : Operation → List Request
  | set .. => []
  | loadFile origin format path => [session.request origin format path]
  | loadByName path => session.byName .localFile [path]
  | loadMain origin => session.named origin session.options.baseName
  | loadProfiles =>
    session.activeProfiles.flatMap fun profile =>
      session.named .resource (session.options.baseName ++ '-' :: profile)
  | loadIndirect => session.byName session.indirectOrigin (session.listed session.options.indirectionKey)
  | loadOverrides arguments =>
    session.byName .commandLine
      (((overrideTarget? session.options.overrideFlag arguments).map PathList.split).getD [])

/-- Does an operation, and counts the files that were read. -/
def perform (files : Files) (session : Session) (operation : Operation) : Session × Except Error Nat :=
  match operation with
  | set key value => (session.set key value, .ok 0)
  | operation => session.loadAll files (operation.requests session)

end Operation

/-- The operations of a complete session. -/
def program (arguments : List Text) : List Operation :=
  [.loadMain .resource, .loadProfiles, .loadMain .localFile, .loadIndirect, .loadOverrides arguments]

/-- Does operations in turn, as far as the first that fails. -/
def performAll (files : Files) (session : Session) : List Operation → Session × Except Error Unit
  | [] => (session, .ok ())
  | operation :: rest =>
    match operation.perform files session with
    | (session, .error error) => (session, .error error)
    | (session, .ok _) => session.performAll files rest

/-- Runs a complete session and resolves what it collected. -/
def load (files : Files) (session : Session) (arguments : List Text) : Except Error (OrderedMap Text) :=
  match session.performAll files (program arguments) with
  | (_, .error error) => .error error
  | (session, .ok ()) => .ok session.resolved

end Session

end LayeredConfig
