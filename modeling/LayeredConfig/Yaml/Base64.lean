import LayeredConfig.Text

/-! Binary data written in 64 characters, four for three bytes, with ASCII white space anywhere between. -/

namespace LayeredConfig.Yaml.Base64

def digit? (c : Char) : Option Nat :=
  if 'A' ≤ c ∧ c ≤ 'Z' then some (c.toNat - 65)
  else if 'a' ≤ c ∧ c ≤ 'z' then some (c.toNat - 71)
  else if '0' ≤ c ∧ c ≤ '9' then some (c.toNat + 4)
  else if c = '+' then some 62
  else if c = '/' then some 63
  else none

/-- The first byte of a group, from its first two digits. -/
def first (a b : Nat) : UInt8 := (a * 4 + b / 16).toUInt8

/-- The second byte of a group, from its second and third digit. -/
def second (b c : Nat) : UInt8 := (b % 16 * 16 + c / 4).toUInt8

/-- The third byte of a group, from its last two digits. -/
def third (c d : Nat) : UInt8 := (c % 4 * 64 + d).toUInt8

/-- The bytes of groups of four digits. Each group may be filled up with one equals sign or two, for as many
bytes less; the bits that are left over do not matter. -/
def bytes? : List Char → Option (List UInt8)
  | [] => some []
  | a :: b :: '=' :: '=' :: rest => do
    let (a, b) := (← digit? a, ← digit? b)
    return first a b :: (← bytes? rest)
  | a :: b :: c :: '=' :: rest => do
    let (a, b, c) := (← digit? a, ← digit? b, ← digit? c)
    return first a b :: second b c :: (← bytes? rest)
  | a :: b :: c :: d :: rest => do
    let (a, b, c, d) := (← digit? a, ← digit? b, ← digit? c, ← digit? d)
    return first a b :: second b c :: third c d :: (← bytes? rest)
  | _ => none

/-- The text that the bytes encode. -/
def decode? (t : Text) : Option Text := do
  let bytes ← bytes? (t.filter fun c => !Text.isAsciiWhite c)
  return (← String.fromUTF8? bytes.toByteArray).toList

end LayeredConfig.Yaml.Base64
