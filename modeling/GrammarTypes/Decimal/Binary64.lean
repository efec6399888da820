/-!
# Finite binary64 numbers

The magnitude of a finite binary64 number is a whole number of units of `2^-1074`. Rounding and
arithmetic are exact on those units: `roundUnits` is the multiple of a power of two with at most 53
significant bits that lies nearest to a quotient, ties going to the even multiple.
-/

namespace GrammarTypes.Decimal

/-- A finite binary64 number: a sign and a magnitude in units of `2^-1074`. -/
structure Binary64 where
  /-- Whether the sign is set. -/
  negative : Bool
  /-- The magnitude in units of `2^-1074`. -/
  units : Nat
  deriving DecidableEq, Repr

/-- The number of units in one. -/
def unitsPerOne : Nat := Nat.pow 2 1074

/-- The least magnitude, in units, that is infinite after rounding. -/
def infinityUnits : Nat := Nat.pow 2 1024 * unitsPerOne

/-- The exponent of the last of the 53 significant bits of a magnitude, or zero if it has fewer. -/
def lastBit (units : Nat) : Nat :=
  units.log2 - 52

/-- A quotient rounded to the nearest whole number, a tie to the even one. -/
def roundHalfEven (num den : Nat) : Nat :=
  let q := num / den
  let r := num % den
  if 2 * r < den then q
  else if den < 2 * r then q + 1
  else q + q % 2

/-- A quotient of units rounded to 53 significant bits. -/
def roundUnits (num den : Nat) : Nat :=
  let step := Nat.pow 2 (lastBit (num / den))
  roundHalfEven num (den * step) * step

/-- The units of a whole number. -/
def unitsOfNat (n : Nat) : Nat :=
  roundUnits (n * unitsPerOne) 1

/-- The units of a product. -/
def mulUnits (a b : Nat) : Nat :=
  roundUnits (a * b) unitsPerOne

/-- The units of a quotient. -/
def divUnits (a b : Nat) : Nat :=
  roundUnits (a * unitsPerOne) b

/-- The largest exponent of a power of ten that is finite. -/
def maxPower : Nat := 308

/-- A magnitude divided by a power of ten, in steps of the largest finite power, each rounded. -/
def divPower (units : Nat) (n : Nat) : Nat :=
  if n ≤ maxPower then divUnits units (unitsOfNat (Nat.pow 10 n))
  else if units = 0 then 0
  else divPower (divUnits units (unitsOfNat (Nat.pow 10 maxPower))) (n - maxPower)
termination_by n
decreasing_by
  simp only [maxPower] at *
  omega

/-- The magnitude of a whole number times a power of ten, each step rounded: none when that is too
large for a finite number. -/
def scale? (significand : Nat) (exponent : Int) : Option Nat :=
  let f := unitsOfNat significand
  if 0 ≤ exponent then
    if exponent ≤ maxPower then
      let g := mulUnits f (unitsOfNat (Nat.pow 10 exponent.toNat))
      if g < infinityUnits then some g else none
    else if f = 0 then some 0
    else none
  else some (divPower f (-exponent).toNat)

end GrammarTypes.Decimal
