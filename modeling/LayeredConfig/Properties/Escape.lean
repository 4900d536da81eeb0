import LayeredConfig.Decimal.Numeral
import LayeredConfig.Text.Utf16

/-! Escapes of a properties text. A backslash gives `t`, `n`, `r` and `f` their control characters, makes
`u` with four hexadecimal digits a 16-bit unit, and leaves any other character as it is. Units that stand
side by side are decoded together, so that two of them can form one character. -/

namespace LayeredConfig.Properties

/-- What can be wrong with an escape. -/
inductive EscapeError where
  /-- Fewer than four characters follow `\u`. -/
  | truncated
  /-- The four characters after `\u` are no number. -/
  | notHexadecimal (digits : Text)
  | unpairedSurrogate (unit : Nat)
  deriving DecidableEq, Repr

/-- The unit that four characters name; a plus sign may stand for the first digit. -/
def unit? : Text → Option Nat
  | '+' :: digits => Decimal.readDigits? 16 digits
  | digits => Decimal.readDigits? 16 digits

def decodeUnits (units : List Nat) : Except EscapeError Text :=
  (Utf16.decode units).mapError .unpairedSurrogate

def escaped : Char → Char
  | 't' => '\t'
  | 'n' => '\n'
  | 'r' => '\r'
  | 'f' => '\x0c'
  | c => c

/-- Reads escapes after `units` that wait to be decoded. A backslash at the very end is dropped. -/
def unescapeAfter (units : List Nat) : Text → Except EscapeError Text
  | [] => decodeUnits units
  | '\\' :: 'u' :: a :: b :: c :: d :: t =>
    match unit? [a, b, c, d] with
    | some unit => unescapeAfter (units ++ [unit]) t
    | none => .error (.notHexadecimal [a, b, c, d])
  | '\\' :: 'u' :: _ => .error .truncated
  | ['\\'] => decodeUnits units
  | '\\' :: c :: t => do
    let before ← decodeUnits units
    let after ← unescapeAfter [] t
    return before ++ escaped c :: after
  | c :: t => do
    let before ← decodeUnits units
    let after ← unescapeAfter [] t
    return before ++ c :: after

def unescape (t : Text) : Except EscapeError Text := unescapeAfter [] t

end LayeredConfig.Properties
