import LayeredConfig.OrderedMap

/-! Entries as one JSON object of strings, an entry to a line. Only the quote, the backslash and the
control characters below the space are escaped. -/

namespace LayeredConfig.Output.Json

/-- The two digits of a control character's number. -/
def controlDigits (c : Char) : Text :=
  [Nat.digitChar (c.toNat / 16), Nat.digitChar (c.toNat % 16)]

def escape (c : Char) : Text :=
  if c = '"' ∨ c = '\\' then ['\\', c]
  else if c = '\x08' then ['\\', 'b']
  else if c = '\t' then ['\\', 't']
  else if c = '\n' then ['\\', 'n']
  else if c = '\x0c' then ['\\', 'f']
  else if c = '\r' then ['\\', 'r']
  else if c.toNat < 0x20 then "\\u00".toList ++ controlDigits c
  else [c]

def string (t : Text) : Text := '"' :: t.flatMap escape ++ ['"']

def member (entry : Text × Text) : Text :=
  "  ".toList ++ string entry.1 ++ ": ".toList ++ string entry.2

/-- An object, without the line feed that ends the output. -/
def object (entries : List (Text × Text)) : Text :=
  match entries with
  | [] => ['\x7b', '\x7d']
  | entries =>
    '\x7b' :: '\n' :: ",\n".toList.intercalate (entries.map member) ++ ['\n', '\x7d']

end LayeredConfig.Output.Json
