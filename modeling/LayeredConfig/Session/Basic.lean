import LayeredConfig.Placeholder.Resolver
import LayeredConfig.Source
import LayeredConfig.Text.PathList

/-! A session collects entries from sources, later ones over earlier ones. Files that do not exist are
passed over. The first file that cannot be read ends a list of requests, and what was collected before it
stays. -/

namespace LayeredConfig

/-- The names that steer a session. -/
structure Options where
  resourceDirectory : Text := "resources".toList
  /-- The main files' name without its ending. -/
  baseName : Text := "application".toList
  /-- The key that lists the active profiles. -/
  profilesKey : Text := "config.profiles.active".toList
  /-- The argument before the list of override files. -/
  overrideFlag : Text := "-p".toList
  /-- The key that lists more files to read. -/
  indirectionKey : Text := "load.properties".toList
  deriving DecidableEq, Repr

structure Session where
  options : Options := {}
  fallback : Fallback := Fallback.silent
  /-- The entries collected so far, with their placeholders. -/
  map : OrderedMap Text := ∅
  /-- The files that contributed, in the order in which they were read. -/
  sources : List Source := []

namespace Session

/-- The session with one more entry over all others. -/
def set (session : Session) (key value : Text) : Session :=
  { session with map := session.map.insert key value }

/-- The session after a source has contributed its entries. -/
def absorb (session : Session) (source : Source) (entries : Entries) : Session :=
  { session with map := session.map.extend entries, sources := session.sources ++ [source] }

/-- Reads files in turn, and counts those that exist. -/
def loadAll (files : Files) (session : Session) : List Request → Session × Except Error Nat
  | [] => (session, .ok 0)
  | request :: rest =>
    match request.read files with
    | .error error => (session, .error error)
    | .ok none => loadAll files session rest
    | .ok (some entries) =>
      let (session, count) := loadAll files (session.absorb request.source entries) rest
      (session, count.map (· + 1))

/-- The value of a key, resolved against the entries collected so far. -/
def lookup (session : Session) (key : Text) : Option Text :=
  (Placeholder.Evaluator.lookup { scope := { map := session.map, fallback := session.fallback } } key).1

/-- The names that a key lists. -/
def listed (session : Session) (key : Text) : List Text :=
  ((session.lookup key).map PathList.split).getD []

def activeProfiles (session : Session) : List Text := session.listed session.options.profilesKey

/-- The entries with their placeholders resolved. -/
def resolved (session : Session) : OrderedMap Text :=
  Placeholder.resolveMap session.map session.fallback

end Session

end LayeredConfig
