import LayeredConfig.Text
import LayeredConfig.Text.Hidden

/-! Texts in quotes, as messages show them. The quote and the backslash are escaped, and what could not
be seen is named by its number. -/

namespace LayeredConfig.Text

def quotedChar (c : Char) : Text :=
  if c = '"' ∨ c = '\\' then ['\\', c]
  else if c = '\t' then ['\\', 't']
  else if c = '\n' then ['\\', 'n']
  else if c = '\r' then ['\\', 'r']
  else if c = '\x00' then ['\\', '0']
  else if isHidden c then "\\u\x7b".toList ++ Nat.toDigits 16 c.toNat ++ ['}']
  else [c]

def quoted (t : Text) : Text := '"' :: t.flatMap quotedChar ++ ['"']

end LayeredConfig.Text
