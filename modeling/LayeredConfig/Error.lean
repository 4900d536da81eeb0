import LayeredConfig.Properties.Parser
import LayeredConfig.Typed.Shape
import LayeredConfig.Yaml.Document

/-! What can go wrong with a configuration, and the messages that say it. -/

namespace LayeredConfig

/-- What is wrong with a file that exists. -/
inductive Fault where
  | properties (cause : Properties.ParseError)
  | yaml (cause : Yaml.DocumentError)
  | notUtf8
  | other (message : Text)
  deriving DecidableEq, Repr

inductive Error where
  | file (path : Text) (fault : Fault)
  /-- A logical line that starts at a line's number is no entry. -/
  | line (number : Nat) (message : Text)
  | output (message : Text)
  | extract (message : Text)
  deriving DecidableEq, Repr

def lineMessage (number : Nat) (cause : Text) : Text :=
  "invalid properties syntax on line ".toList ++ Text.ofNat number ++ ": ".toList ++ cause

def Fault.message : Fault → Text
  | .properties cause => lineMessage cause.line cause.cause.message
  | .yaml cause => cause.message
  | .notUtf8 => "stream did not contain valid UTF-8".toList
  | .other message => message

namespace Error

def message : Error → Text
  | .file path fault =>
    "Configuration file error in '".toList ++ path ++ "': ".toList ++ fault.message
  | .line number cause => lineMessage number cause
  | .output cause => "I/O error: ".toList ++ cause
  | .extract cause => "Failed to gather configuration: ".toList ++ cause

/-- The message of the error that lies behind this one. -/
def source? : Error → Option Text
  | .file _ fault => some fault.message
  | .line .. => none
  | .output cause => some cause
  | .extract cause => some cause

end Error

end LayeredConfig
