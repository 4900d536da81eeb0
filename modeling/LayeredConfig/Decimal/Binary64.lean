/-! Numbers in the 64-bit binary format, as exact values: a finite number is a mantissa times a power
of two. `ofDecimal` rounds a decimal to the nearest such number and, of two equally near, takes the one
with the even mantissa. -/

namespace LayeredConfig.Decimal

-- A power is taken with the core library's own exponentiation, whatever else is imported beside it.
attribute [local instance (high)] instPowNat

/-- A finite number stands for `mantissa * 2 ^ exponent`, with `mantissa < 2 ^ 53` and
`-1074 ≤ exponent ≤ 971`, and with `2 ^ 52 ≤ mantissa` unless the exponent is the least one. -/
inductive Binary64 where
  | finite (negative : Bool) (mantissa : Nat) (exponent : Int)
  | infinite (negative : Bool)
  | nan
  deriving DecidableEq, Repr

namespace Binary64

def leastExponent : Int := -1074

def greatestExponent : Int := 971

/-- The quotient of `num / den` by `2 ^ exponent`, and what the division leaves over, with the divisor. -/
def scaled (num den : Nat) (exponent : Int) : Nat × Nat × Nat :=
  match exponent with
  | .ofNat n => let d := den * 2 ^ n; (num / d, num % d, d)
  | .negSucc n => let m := num * 2 ^ (n + 1); (m / den, m % den, den)

/-- The nearest number to `num / den`. -/
def ofQuotient (negative : Bool) (num den : Nat) : Binary64 :=
  let start : Int := (num.log2 : Int) - den.log2 - 53
  let fitted := if (scaled num den start).1 ≥ 2 ^ (53 : Nat) then start + 1 else start
  let exponent := max fitted leastExponent
  let (quotient, rest, divisor) := scaled num den exponent
  let up := 2 * rest > divisor || (2 * rest == divisor && quotient % 2 == 1)
  let mantissa := if up then quotient + 1 else quotient
  let (mantissa, exponent) :=
    if mantissa = 2 ^ (53 : Nat) then (2 ^ (52 : Nat), exponent + 1) else (mantissa, exponent)
  if exponent > greatestExponent then .infinite negative else .finite negative mantissa exponent

/-- The nearest number to `digits * 10 ^ exponent`. The two guards only keep the powers small: far
outside them every decimal is infinite or zero. -/
def ofDecimal (negative : Bool) (digits : Nat) (exponent : Int) : Binary64 :=
  let magnitude := exponent + (Nat.toDigits 10 digits).length
  if digits = 0 ∨ magnitude < -400 then .finite negative 0 leastExponent
  else if magnitude > 400 then .infinite negative
  else match exponent with
    | .ofNat n => ofQuotient negative (digits * 10 ^ n) 1
    | .negSucc n => ofQuotient negative digits (10 ^ (n + 1))

/-- The 64 bits of the number, as a natural number. -/
def bits : Binary64 → Nat
  | .finite negative mantissa exponent =>
    let sign := if negative then 2 ^ (63 : Nat) else 0
    if mantissa < 2 ^ (52 : Nat) then sign + mantissa
    else sign + (exponent + 1075).toNat * 2 ^ (52 : Nat) + (mantissa - 2 ^ (52 : Nat))
  | .infinite negative => (if negative then 2 ^ (63 : Nat) else 0) + 2047 * 2 ^ (52 : Nat)
  | .nan => 2047 * 2 ^ (52 : Nat) + 2 ^ (51 : Nat)

end Binary64

end LayeredConfig.Decimal
