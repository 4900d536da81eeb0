import LayeredConfig.Decimal.Numeral
import LayeredConfig.Decimal.Shortest

/-! What plain scalars mean: nothing, a truth value, a number or a text. Every meaning has one spelling,
which is what a configuration sees. -/

namespace LayeredConfig.Yaml.Scalar

-- A power is taken with the core library's own exponentiation, whatever else is imported beside it.
attribute [local instance (high)] instPowNat

def isNull (content : Text) : Bool :=
  content == [] || content == ['~'] || Text.asciiLower content == "null".toList

def boolean? (content : Text) : Option Text :=
  let lower := Text.asciiLower content
  if lower = "true".toList ∨ lower = "false".toList then some lower else none

/-- The base that a numeral's start tells, and the digits after it. -/
def splitBase : Text → Nat × Text
  | '0' :: c :: t =>
    if c = 'x' ∨ c = 'X' then (16, t)
    else if c = 'o' ∨ c = 'O' then (8, t)
    else if c = 'b' ∨ c = 'B' then (2, t)
    else (10, '0' :: c :: t)
  | t => (10, t)

/-- A whole number of 64 bits, with or without a sign bit. Underscores may separate its digits. -/
def integer? (content : Text) : Option Int := do
  let (negative, t) := Decimal.splitSign content
  let (base, digits) := splitBase t
  let n ← Decimal.readDigits? base (digits.filter (· ≠ '_'))
  if negative then (if n ≤ 2 ^ (63 : Nat) then some (-(n : Int)) else none)
  else if n < 2 ^ (64 : Nat) then some n else none

/-- Infinity and what is no number, spelt with a point, and the decimals. -/
def float? (content : Text) : Option Decimal.Binary64 :=
  let (negative, t) := Decimal.splitSign (Text.asciiLower content)
  if t = ".inf".toList then some (.infinite negative)
  else if t = ".nan".toList then some .nan
  else Decimal.readBinary64? content

/-- The spelling of a plain scalar that is not null. -/
def spelling (content : Text) : Text :=
  let t := Text.trim content
  match boolean? t with
  | some word => word
  | none =>
    match integer? t with
    | some n => Text.ofInt n
    | none =>
      match float? t with
      | some x => Decimal.NumeralStyle.document.render x
      | none => content

end LayeredConfig.Yaml.Scalar
