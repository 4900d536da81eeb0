import LayeredConfig.Fallback

/-! Properties of the process: values that the host sets, then the environment, then a few facts about
the user. -/

namespace LayeredConfig

/-- The surroundings of a process. -/
structure Environment where
  /-- Names with their values, in the order in which they are searched. -/
  definitions : List (Text × Text)
  /-- The home directory of the user, where the platform can tell it. -/
  home : Option Text := none
  /-- The directory in which the process works, where the platform can tell it. -/
  workingDirectory : Option Text := none

namespace Environment

/-- The value of the first variable whose definition `name=value` starts with `name=`. A name that holds
an equals sign can so be found inside a definition. -/
def valueOf? (environment : Environment) (name : Text) : Option Text :=
  environment.definitions.findSome? fun (defined, value) =>
    let definition := defined ++ '=' :: value
    if (name ++ ['=']).isPrefixOf definition then some (definition.drop (name.length + 1)) else none

/-- Defines a variable; a definition of the same name is dropped. -/
def define (environment : Environment) (name value : Text) : Environment :=
  { environment with
    definitions := environment.definitions.filter (·.1 ≠ name) ++ [(name, value)] }

/-- The variables that a block of definitions holds, each ended by a zero. A definition that is no text is
passed over. -/
def ofBlock (block : ByteArray) : Environment where
  definitions := (Text.splitBy (· == 0) block.toList).filterMap fun definition => do
    let text ← String.fromUTF8? definition.toByteArray
    Text.splitAt? '=' text.toList

/-- The spelling of a key as a variable: `server.port` becomes `SERVER_PORT`. -/
def variableName (key : Text) : Text :=
  key.map fun c => if c = '.' ∨ c = '-' then '_' else c.toUpper

/-- Facts about the user and the process. -/
def builtin? (environment : Environment) (key : Text) : Option Text :=
  if key = "user.home".toList then environment.home
  else if key = "user.name".toList then
    (environment.valueOf? "USER".toList).or (environment.valueOf? "USERNAME".toList)
  else if key = "user.dir".toList then environment.workingDirectory
  else none

end Environment

structure SystemProperties where
  overrides : OrderedMap Text := ∅

namespace SystemProperties

/-- Sets a value that hides the environment's. -/
def set (properties : SystemProperties) (key value : Text) : SystemProperties :=
  ⟨properties.overrides.put key value⟩

def remove (properties : SystemProperties) (key : Text) : SystemProperties :=
  ⟨properties.overrides.erase key⟩

/-- The value that the host set for the key. -/
def override? (properties : SystemProperties) (key : Text) : Option Text := properties.overrides.get? key

/-- Removes a value that the host set, and gives it back. -/
def take (properties : SystemProperties) (key : Text) : Option Text × SystemProperties :=
  (properties.override? key, properties.remove key)

/-- The value of a key: as the host set it, else of the variable with that name, else of the variable
with the key's spelling, else built in. Only the host can define the empty key. -/
def property (properties : SystemProperties) (environment : Environment) : Fallback := fun key =>
  match properties.override? key with
  | some value => some value
  | none =>
    if key = [] then none
    else
      ((environment.valueOf? key).or (environment.valueOf? (Environment.variableName key))).or
        (environment.builtin? key)

end SystemProperties

end LayeredConfig
