import LayeredConfig.Decimal.Binary64
import LayeredConfig.Text

/-! Reading numbers: whole numbers in a base, and decimals with a point and an exponent. -/

namespace LayeredConfig.Decimal

def digitValue? (base : Nat) (c : Char) : Option Nat :=
  let value? :=
    if '0' ≤ c ∧ c ≤ '9' then some (c.toNat - '0'.toNat)
    else if 'a' ≤ c ∧ c ≤ 'f' then some (c.toNat - 'a'.toNat + 10)
    else if 'A' ≤ c ∧ c ≤ 'F' then some (c.toNat - 'A'.toNat + 10)
    else none
  value?.filter (· < base)

/-- The value of a text of digits, at least one. -/
def readDigits? (base : Nat) : Text → Option Nat
  | [] => none
  | t => t.foldlM (fun n c => (digitValue? base c).map (n * base + ·)) 0

/-- A text without its sign, and whether the sign is a minus. -/
def splitSign : Text → Bool × Text
  | '-' :: t => (true, t)
  | '+' :: t => (false, t)
  | t => (false, t)

/-- A whole number with an optional sign. -/
def readInt? (t : Text) : Option Int :=
  let (negative, digits) := splitSign t
  (readDigits? 10 digits).map fun n => if negative then -(n : Int) else n

/-- A decimal: digits with at most one point among them, and an exponent. At least one digit stands
beside the point, and at least one after the `e`. The words for infinity and for no number are read in
any case. -/
def readBinary64? (t : Text) : Option Binary64 :=
  let (negative, body) := splitSign t
  let lower := Text.asciiLower body
  if lower = "inf".toList ∨ lower = "infinity".toList then some (.infinite negative)
  else if lower = "nan".toList then some .nan
  else
    let (significand, power?) := match Text.splitAt? 'e' lower with
      | none => (lower, some 0)
      | some (before, after) => (before, readInt? after)
    let (whole, fraction) := (Text.splitAt? '.' significand).getD (significand, [])
    match power?, readDigits? 10 (whole ++ fraction) with
    | some power, some digits => some (.ofDecimal negative digits (power - fraction.length))
    | _, _ => none

end LayeredConfig.Decimal
