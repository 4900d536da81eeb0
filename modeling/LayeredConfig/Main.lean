import LayeredConfig.CommandLine

/-! The program: it reads the files that a session asks for, stage by stage, and prints the result. -/

namespace LayeredConfig.Main

/-- The content of a regular file, if there is one at the path. -/
def contentAt? (path : String) : IO (Option ByteArray) := do
  try
    return some (← IO.FS.readBinFile path)
  catch
    | .noFileOrDirectory .. | .inappropriateType .. | .invalidArgument .. => return none
    | failure => throw failure

/-- The files that the requests name, as they are now. -/
def snapshot (requests : List Request) : IO Files := do
  let contents ← requests.mapM fun request => do
    return (request.source.path, ← contentAt? (String.ofList request.source.path))
  return fun path => (contents.lookup path).join

/-- Does operations in turn, each on the files as they are when it starts. -/
def collect (session : Session) : List Session.Operation → IO (Except Error Session)
  | [] => return .ok session
  | operation :: rest => do
    match operation.perform (← snapshot (operation.requests session)) session with
    | (_, .error reason) => return .error reason
    | (session, .ok _) => collect session rest

def workingDirectory? : IO (Option Text) := do
  try
    return some (← IO.currentDir).toString.toList
  catch _ =>
    return none

/-- The surroundings of this process. The home directory of its user is the one that `HOME` names; nothing else
is asked for it. -/
def environment : IO Environment := do
  let environment := Environment.ofBlock (← IO.FS.readBinFile "/proc/self/environ")
  return { environment with
    home := (environment.valueOf? "HOME".toList).filter (· ≠ [])
    workingDirectory := ← workingDirectory? }

def run (settings : CommandLine.Settings) : IO CommandLine.Ending := do
  let collected ← collect (settings.session (← environment)) (Session.program settings.arguments)
  return settings.ending (collected.map Session.resolved)

end LayeredConfig.Main

open LayeredConfig in
def main (arguments : List String) : IO UInt32 := do
  let ending ← match CommandLine.parse (arguments.map String.toList) with
    | .ok (.run settings) => Main.run settings
    | .ok .help => pure (.printed CommandLine.helpText)
    | .ok .version => pure (.printed CommandLine.versionText)
    | .error reason => pure (.refused reason)
  IO.print (String.ofList ending.output)
  IO.eprint (String.ofList ending.complaint)
  return ending.exitCode.toUInt32
