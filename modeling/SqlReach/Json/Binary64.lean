/-!
# Numbers with a fraction

A JSON number with a fraction or an exponent stands for the binary number with
53 significant bits that is nearest to it, a tie going to the even neighbour.
Very small numbers become zero, and very large ones are not finite.
-/

namespace SqlReach

/-- The number `significand * 2 ^ exponent`, without its sign. -/
structure Binary64 where
  significand : Nat
  exponent : Int
deriving DecidableEq

namespace Binary64

def significantBits : Nat := 53

/-- The exponent of the smallest number. -/
def leastExponent : Int := -1074

/-- Numbers from two to this power on are not finite. -/
def exponentLimit : Int := 1024

/-- The integer nearest to a quotient, a tie going to the even neighbour. -/
def roundQuotient (numerator denominator : Nat) : Nat :=
  let quotient := numerator / denominator
  let twice := 2 * (numerator % denominator)
  if twice < denominator || (twice == denominator && quotient % 2 == 0) then quotient
  else quotient + 1

/-- The quotient of two numbers in units of two to the power `exponent`. -/
def scaled (numerator denominator : Nat) (exponent : Int) : Nat × Nat :=
  if 0 ≤ exponent then (numerator, denominator * Nat.pow 2 exponent.toNat)
  else (numerator * Nat.pow 2 exponent.natAbs, denominator)

/-- The exponent with which a quotient has 53 bits before the point. -/
def unitExponent (numerator denominator : Nat) : Int :=
  let low := (numerator.log2 : Int) - denominator.log2 - significantBits
  let (above, below) := scaled numerator denominator low
  let exact := if above / below < Nat.pow 2 significantBits then low else low + 1
  if exact < leastExponent then leastExponent else exact

/-- The nearest number to a positive quotient. -/
def ofQuotient (numerator denominator : Nat) : Binary64 :=
  let exponent := unitExponent numerator denominator
  let (above, below) := scaled numerator denominator exponent
  ⟨roundQuotient above below, exponent⟩

/-- The nearest number to `mantissa * 10 ^ exponent`.  Beyond the bounds the
answer is clear without computing the power. -/
def ofDecimal? (mantissa : Nat) (exponent : Int) : Option Binary64 :=
  let digits := (Nat.toDigits 10 mantissa).length
  if mantissa = 0 || exponent + digits < -400 then some ⟨0, 0⟩
  else if 400 < exponent then none
  else
    let number :=
      if 0 ≤ exponent then ofQuotient (mantissa * Nat.pow 10 exponent.toNat) 1
      else ofQuotient mantissa (Nat.pow 10 exponent.natAbs)
    if (number.significand.log2 : Int) + number.exponent < exponentLimit then some number
    else none

/-- The integer that a number equals, if it equals one. -/
def integer? (number : Binary64) : Option Nat :=
  let power := Nat.pow 2 number.exponent.natAbs
  if 0 ≤ number.exponent then some (number.significand * power)
  else if number.significand % power = 0 then some (number.significand / power)
  else none

end Binary64

end SqlReach
