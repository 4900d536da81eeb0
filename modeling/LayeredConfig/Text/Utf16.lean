import LayeredConfig.Text

/-! Texts as sequences of 16-bit units. A character from U+10000 on is a pair of surrogates, a high one
and a low one; a surrogate that stands otherwise encodes nothing. -/

namespace LayeredConfig.Utf16

def isHigh (unit : Nat) : Bool := 0xD800 ≤ unit && unit < 0xDC00

def isLow (unit : Nat) : Bool := 0xDC00 ≤ unit && unit < 0xE000

/-- The units of one character. -/
def units (c : Char) : List Nat :=
  let n := c.toNat
  if n < 0x10000 then [n] else [0xD800 + (n - 0x10000) / 0x400, 0xDC00 + (n - 0x10000) % 0x400]

def encode (t : Text) : List Nat := t.flatMap units

/-- The text that the units encode, or the first unpaired surrogate. -/
def decode : List Nat → Except Nat Text
  | [] => .ok []
  | unit :: rest =>
    if isHigh unit then
      match rest with
      | low :: rest =>
        if isLow low then
          (decode rest).map (Char.ofNat (0x10000 + (unit - 0xD800) * 0x400 + (low - 0xDC00)) :: ·)
        else .error unit
      | [] => .error unit
    else if isLow unit then .error unit
    else (decode rest).map (Char.ofNat unit :: ·)

end LayeredConfig.Utf16
