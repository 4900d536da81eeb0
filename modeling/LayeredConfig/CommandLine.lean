import LayeredConfig.Output
import LayeredConfig.Session.Operation
import LayeredConfig.SystemProperties

/-! The command line. Arguments are read from left to right. The value of an option is checked when the
next option starts or the arguments end, and at once when it is attached to its option; the first
complaint is the one that is reported. -/

namespace LayeredConfig.CommandLine

/-- The options that take a value. -/
inductive Flag where
  | resourceDirectory
  | baseName
  | overrides
  | define
  | format
  deriving DecidableEq, Repr

/-- What the arguments ask for. -/
structure Settings where
  resourceDirectory : Option Text := none
  baseName : Option Text := none
  /-- Files that override all others, as one path list. -/
  overrides : Option Text := none
  definitions : List (Text × Text) := []
  format : Option OutputFormat := none
  deriving DecidableEq, Repr

inductive Command where
  | run (settings : Settings)
  | help
  | version
  deriving DecidableEq, Repr

inductive UsageError where
  /-- A definition lacks its equals sign. -/
  | definition (raw : Text)
  /-- An argument, or a value, that no option takes. -/
  | argument
  deriving DecidableEq, Repr

def UsageError.message : UsageError → Text
  | .definition raw => "expected key=value, got `".toList ++ raw ++ ['`']
  | .argument => "unusable argument".toList

/-- Gives an option its value, once. -/
def once {α : Type} (current : Option α) (value : α) : Except UsageError (Option α) :=
  match current with
  | none => .ok (some value)
  | some _ => .error .argument

/-- Takes over the value of an option. Only definitions can be repeated. -/
def Settings.accept (settings : Settings) (flag : Flag) (value : Text) : Except UsageError Settings :=
  match flag with
  | .resourceDirectory => do
    let directory ← once settings.resourceDirectory value
    if value = [] then .error .argument else return { settings with resourceDirectory := directory }
  | .baseName => do return { settings with baseName := ← once settings.baseName value }
  | .overrides => do return { settings with overrides := ← once settings.overrides value }
  | .define =>
    match Text.splitAt? '=' value with
    | none => .error (.definition value)
    | some definition => .ok { settings with definitions := settings.definitions ++ [definition] }
  | .format =>
    match OutputFormat.ofName? value with
    | none => .error .argument
    | some format => do return { settings with format := ← once settings.format format }

/-- What an argument is by its looks. -/
inductive Argument where
  /-- An option, with its value when that is attached. -/
  | option (flag : Flag) (value? : Option Text)
  | help
  | version
  /-- The mark after which no options follow. -/
  | endOfOptions
  | plain
  | unknown
  deriving DecidableEq, Repr

/-- An option after two dashes, with its value after an equals sign. -/
def classifyLong (t : Text) : Argument :=
  let (name, value?) := match Text.splitAt? '=' t with
    | none => (t, none)
    | some (name, value) => (name, some value)
  if name = "resource-dir".toList then .option .resourceDirectory value?
  else if name = "base-name".toList then .option .baseName value?
  else if name = "format".toList then .option .format value?
  else if value? ≠ none then .unknown
  else if name = "help".toList then .help
  else if name = "version".toList then .version
  else .unknown

/-- The value attached to a letter; an equals sign before it is dropped. -/
def attached : Text → Option Text
  | [] => none
  | '=' :: value => some value
  | value => some value

/-- An option after one dash: a letter, with its value attached. -/
def classifyShort (letter : Char) (rest : Text) : Argument :=
  if letter = 'p' then .option .overrides (attached rest)
  else if letter = 'D' then .option .define (attached rest)
  else if letter = 'h' then .help
  else if letter = 'V' then .version
  else .unknown

def classify : Text → Argument
  | ['-', '-'] => .endOfOptions
  | '-' :: '-' :: t => classifyLong t
  | '-' :: letter :: rest => classifyShort letter rest
  | _ => .plain

/-- An option whose value is not taken over yet, with the value if it has come. -/
abbrev Pending := Option (Flag × Option Text)

def Settings.settle (settings : Settings) : Pending → Except UsageError Settings
  | none => .ok settings
  | some (_, none) => .error .argument
  | some (flag, some value) => settings.accept flag value

def parseAfter (settings : Settings) (pending : Pending) : List Text → Except UsageError Command
  | [] => (settings.settle pending).map .run
  | argument :: rest =>
    match classify argument with
    | .option flag none => do parseAfter (← settings.settle pending) (some (flag, none)) rest
    | .option flag (some value) => do
      parseAfter (← (← settings.settle pending).accept flag value) none rest
    | .help => (settings.settle pending).map fun _ => .help
    | .version => (settings.settle pending).map fun _ => .version
    | .endOfOptions => if rest = [] then (settings.settle pending).map .run else .error .argument
    | .plain =>
      match pending with
      | some (flag, none) => parseAfter settings (some (flag, some argument)) rest
      | _ => .error .argument
    | .unknown => .error .argument

def parse (arguments : List Text) : Except UsageError Command := parseAfter {} none arguments

/-- The session that the settings ask for. -/
def Settings.session (settings : Settings) (environment : Environment) : Session :=
  let standard : Options := {}
  let properties : SystemProperties :=
    settings.definitions.foldl (fun properties (key, value) => properties.set key value) {}
  { options :=
      { standard with
        resourceDirectory := settings.resourceDirectory.getD standard.resourceDirectory
        baseName := settings.baseName.getD standard.baseName }
    fallback := properties.property environment }

/-- The arguments of the session: the override files, behind their flag. -/
def Settings.arguments (settings : Settings) : List Text :=
  let standard : Options := {}
  (settings.overrides.map fun paths => [standard.overrideFlag, paths]).getD []

/-- How a run of the program ends. -/
inductive Ending where
  | printed (output : Text)
  | refused (reason : UsageError)
  | failed (reason : Error)
  deriving DecidableEq, Repr

namespace Ending

def exitCode : Ending → Nat
  | printed _ => 0
  | failed _ => 1
  | refused _ => 2

def output : Ending → Text
  | printed output => output
  | _ => []

/-- What is said where errors are reported. -/
def complaint : Ending → Text
  | printed _ => []
  | failed reason => "Error: ".toList ++ reason.message ++ ['\n']
  | refused reason => "error: ".toList ++ reason.message ++ ['\n']

end Ending

def versionText : Text := "propstack 0.1.0\n".toList

def helpText : Text :=
  ("Resolve layered properties and YAML sources into one flat map\n\n" ++
   "Usage: propstack [OPTIONS]\n\n" ++
   "Options:\n" ++
   "      --resource-dir <path>  Directory holding bundled resources [default: resources]\n" ++
   "      --base-name <name>     Stem of the main and profile source names [default: application]\n" ++
   "  -p <paths>                 Override files, separated by commas, semicolons or spaces\n" ++
   "  -D <key=value>             System property visible to placeholders (repeatable)\n" ++
   "      --format <format>      Output format: properties or json [default: properties]\n" ++
   "  -h, --help                 Print help\n" ++
   "  -V, --version              Print version\n").toList

/-- How a session's result is printed. -/
def Settings.ending (settings : Settings) (result : Except Error (OrderedMap Text)) : Ending :=
  match result with
  | .ok map => .printed ((settings.format.getD .properties).print map)
  | .error reason => .failed reason

/-- The whole program, on files and an environment that do not change while it runs. -/
def run (files : Files) (environment : Environment) (arguments : List Text) : Ending :=
  match parse arguments with
  | .error reason => .refused reason
  | .ok .help => .printed helpText
  | .ok .version => .printed versionText
  | .ok (.run settings) => settings.ending ((settings.session environment).load files settings.arguments)

end LayeredConfig.CommandLine
