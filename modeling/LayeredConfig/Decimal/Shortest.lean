import LayeredConfig.Decimal.Binary64
import LayeredConfig.Text

/-! The shortest decimal that reads back as a given binary number, and the two notations in which it
is written. Every comparison is made on integers, so nothing is lost to rounding. -/

namespace LayeredConfig.Decimal

-- A power is taken with the core library's own exponentiation, whatever else is imported beside it.
attribute [local instance (high)] instPowNat

/-- The number `digits * 10 ^ exponent`. -/
structure Scientific where
  digits : Nat
  exponent : Int
  deriving DecidableEq, Repr

/-- The reals that round to a positive binary number, scaled by a common denominator. -/
structure Interval where
  low : Nat
  value : Nat
  high : Nat
  scale : Nat
  /-- Whether the two ends round to the number too. -/
  closed : Bool

/-- The numbers nearer to `mantissa * 2 ^ exponent` than to its neighbours. The gap below a power of two
is half the gap above it. -/
def Interval.around (mantissa : Nat) (exponent : Int) : Interval :=
  let narrow := mantissa = 2 ^ (52 : Nat) ∧ exponent > Binary64.leastExponent
  let low := if narrow then 4 * mantissa - 1 else 4 * mantissa - 2
  let (up, scale) := match exponent with
    | .ofNat n => (2 ^ n, 4)
    | .negSucc n => (1, 4 * 2 ^ (n + 1))
  { low := low * up, value := 4 * mantissa * up, high := (4 * mantissa + 2) * up, scale,
    closed := mantissa % 2 = 0 }

/-- Whether `digits * 10 ^ exponent` lies in the interval, and its distance from the value, both on the
scale where the power of ten is whole. -/
def Interval.distance? (i : Interval) (digits : Nat) (exponent : Int) : Option Nat :=
  let (point, unit) := match exponent with
    | .ofNat n => (digits * 10 ^ n * i.scale, 1)
    | .negSucc n => (digits * i.scale, 10 ^ (n + 1))
  let inside := if i.closed then i.low * unit ≤ point ∧ point ≤ i.high * unit
    else i.low * unit < point ∧ point < i.high * unit
  if inside then some (max point (i.value * unit) - min point (i.value * unit)) else none

/-- The quotient of the value by `10 ^ exponent`, rounded down. -/
def Interval.quotient (i : Interval) (exponent : Int) : Nat :=
  match exponent with
  | .ofNat n => i.value / (i.scale * 10 ^ n)
  | .negSucc n => i.value * 10 ^ (n + 1) / i.scale

/-- A power of ten not below the value. -/
def Interval.magnitude (i : Interval) : Int :=
  if i.value ≥ i.scale then (Nat.toDigits 10 (i.value / i.scale)).length
  else 1 - ((Nat.toDigits 10 (i.scale / i.value)).length : Int)

/-- Which of two decimals is taken that are equally near. -/
inductive Tie where
  /-- The one whose last digit is even. -/
  | even
  /-- The greater one. -/
  | up
  deriving DecidableEq, Repr

/-- Whether the decimal with the digits `below` is taken, and not the next one. -/
def Tie.takes (tie : Tie) (below : Nat) : Bool :=
  match tie with
  | .even => below % 2 = 0
  | .up => false

/-- Of the two neighbours of the value on the grid of multiples of `10 ^ exponent`, the nearer one that
lies in the interval. -/
def Interval.onGrid? (i : Interval) (tie : Tie) (exponent : Int) : Option Scientific :=
  let below := i.quotient exponent
  match i.distance? below exponent, i.distance? (below + 1) exponent with
  | none, none => none
  | some _, none => some ⟨below, exponent⟩
  | none, some _ => some ⟨below + 1, exponent⟩
  | some d, some d' =>
    if d < d' ∨ (d = d' ∧ tie.takes below) then some ⟨below, exponent⟩ else some ⟨below + 1, exponent⟩

/-- The shortest decimal in the interval around a positive number: the first grid, from the coarsest to
the finest, that has a point there. -/
def shortest (tie : Tie) (mantissa : Nat) (exponent : Int) : Scientific :=
  let i := Interval.around mantissa exponent
  let found := (List.range 20).findSome? fun (n : Nat) => do
    let s ← i.onGrid? tie (i.magnitude - n)
    if s.digits = 0 then none else some s
  found.getD ⟨0, 0⟩

/-- `digits` with its point after `whole` of its characters; zeros fill in where there are none. -/
def withPoint (digits : Text) (whole : Int) (fraction : Text → Text) : Text :=
  if whole ≤ 0 then '0' :: fraction (List.replicate whole.natAbs '0' ++ digits)
  else
    let n := whole.toNat
    if digits.length ≤ n then digits ++ List.replicate (n - digits.length) '0' ++ fraction []
    else digits.take n ++ fraction (digits.drop n)

/-- Digits without trailing zeros, and the number of places before the point. -/
def Scientific.places (s : Scientific) : Text × Int :=
  let digits := Nat.toDigits 10 s.digits
  (Text.dropEndWhile (· == '0') digits, digits.length + s.exponent)

/-- How a number becomes text. -/
structure NumeralStyle where
  /-- Powers of ten from here on, and below the next bound, are written out. -/
  plainFrom : Option Int
  plainBelow : Option Int
  /-- Whether a whole number keeps the fraction `.0`. -/
  keepsFraction : Bool
  notANumber : Text
  infinity : Text
  tie : Tie

namespace NumeralStyle

/-- At least one digit of fraction, and an exponent with its sign for the powers of ten outside
`-5 … 15`. -/
def document : NumeralStyle := ⟨some (-5), some 16, true, ".nan".toList, ".inf".toList, .even⟩

/-- No exponent, and no fraction unless there is one. -/
def message : NumeralStyle := ⟨none, none, false, "NaN".toList, "inf".toList, .up⟩

def fraction (style : NumeralStyle) (digits : Text) : Text :=
  if digits = [] then (if style.keepsFraction then ".0".toList else []) else '.' :: digits

def positive (style : NumeralStyle) (s : Scientific) : Text :=
  let (digits, whole) := s.places
  let power := whole - 1
  if style.plainFrom.all (· ≤ power) && style.plainBelow.all (power < ·) then
    withPoint digits whole style.fraction
  else
    let head := digits.take 1
    let tail := if digits.length ≤ 1 then [] else '.' :: digits.drop 1
    let sign := if power < 0 then '-' else '+'
    head ++ tail ++ 'e' :: sign :: Text.ofNat power.natAbs

def render (style : NumeralStyle) : Binary64 → Text
  | .nan => style.notANumber
  | .infinite negative => (if negative then ['-'] else []) ++ style.infinity
  | .finite negative mantissa exponent =>
    (if negative then ['-'] else []) ++
      if mantissa = 0 then '0' :: style.fraction [] else style.positive (shortest style.tie mantissa exponent)

end NumeralStyle

end LayeredConfig.Decimal
