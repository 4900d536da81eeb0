import LayeredConfig.Properties.Escape
import LayeredConfig.Properties.Line
import LayeredConfig.Text.Lines

/-! Reading a properties text: each logical line is one entry, a key and a value. -/

namespace LayeredConfig.Properties

/-- The escapes of the entry that starts on a line are wrong. -/
structure ParseError where
  line : Nat
  cause : EscapeError
  deriving DecidableEq, Repr

def isSeparator (c : Char) : Bool := c == '=' || c == ':'

/-- The characters before the first blank or separator that no backslash precedes, and the rest. -/
def splitKey : Text → Text × Text
  | [] => ([], [])
  | '\\' :: c :: t => let (key, rest) := splitKey t; ('\\' :: c :: key, rest)
  | c :: t =>
    if isSeparator c || isBlank c then ([], c :: t)
    else let (key, rest) := splitKey t; (c :: key, rest)

/-- What stands after the key: blanks, one separator at most, and blanks are passed over. -/
def valuePart (rest : Text) : Text :=
  match trimStart rest with
  | [] => []
  | c :: t => trimStart (if isSeparator c then t else c :: t)

/-- The key and the value of a logical line, with their escapes. -/
def splitEntry (line : Text) : Text × Text :=
  let (key, rest) := splitKey line
  (key, valuePart rest)

def parseEntry (line : LogicalLine) : Except ParseError (Text × Text) :=
  let (key, value) := splitEntry line.text
  let entry : Except EscapeError (Text × Text) := do
    let key ← unescape key
    let value ← unescape value
    return (key, value)
  entry.mapError (⟨line.number, ·⟩)

/-- The entries of a text in order, or the first error. -/
def parse (t : Text) : Except ParseError (List (Text × Text)) :=
  (logicalLines (numbered (Text.lines t))).mapM parseEntry

/-- Four digits of a 16-bit unit. -/
def hexUnit (unit : Nat) : Text :=
  let digits := Nat.toDigits 16 unit
  List.replicate (4 - digits.length) '0' ++ digits

def EscapeError.message : EscapeError → Text
  | .truncated => "malformed \\uxxxx encoding".toList
  | .notHexadecimal digits => "malformed \\u".toList ++ digits ++ " encoding".toList
  | .unpairedSurrogate unit => "unpaired surrogate ".toList ++ hexUnit unit

end LayeredConfig.Properties
