import GrammarTypes.Decimal.Binary64

/-!
# The shortest decimal that reads back

The decimals that round to a binary64 number fill an interval around it, whose ends belong to it
when the last significant bit is even. The shortest of them is a multiple of the largest power of
ten that has a multiple in the interval, and of two such multiples it is the nearer one.
-/

namespace GrammarTypes.Decimal

/-- The interval of values that round to a magnitude, in quarters of a unit. -/
structure Interval where
  /-- The lower end. -/
  low : Nat
  /-- The upper end. -/
  high : Nat
  /-- Whether the ends belong to it. -/
  closed : Bool

/-- The interval of a magnitude. Below a power of two the neighbour is twice as near. -/
def Interval.around (units : Nat) : Interval :=
  let p := lastBit units
  let step := Nat.pow 2 p
  let significand := units / step
  { low := 4 * units - (if significand = Nat.pow 2 52 ∧ 0 < p then step else 2 * step)
    high := 4 * units + 2 * step
    closed := significand % 2 == 0 }

/-- The two scales that make a multiple of `10^j` comparable with quarters of a unit. -/
def gridScale (j : Int) : Nat × Nat :=
  if 0 ≤ j then (1, 4 * unitsPerOne * Nat.pow 10 j.toNat)
  else (Nat.pow 10 (-j).toNat, 4 * unitsPerOne)

/-- The multiple of `10^j` in the interval that is nearest to the magnitude, if there is one. -/
def multipleIn? (i : Interval) (units : Nat) (j : Int) : Option Nat :=
  let (scale, grid) := gridScale j
  let inside (x : Nat) : Bool :=
    if i.closed then i.low * scale ≤ x * grid && x * grid ≤ i.high * scale
    else i.low * scale < x * grid && x * grid < i.high * scale
  let d := 4 * units * scale / grid
  let r := 4 * units * scale % grid
  match inside d, inside (d + 1) with
  | true, false => some d
  | false, true => some (d + 1)
  | true, true => some (if 2 * r < grid then d else if grid < 2 * r then d + 1 else d + d % 2)
  | false, false => none

/-- The first power of ten, going down from `10^j`, that has a multiple in the interval. -/
def searchDown (i : Interval) (units : Nat) : Nat → Int → Nat × Int
  | 0, j => (0, j)
  | fuel + 1, j =>
    match multipleIn? i units j with
    | some d => (d, j)
    | none => searchDown i units fuel (j - 1)

/-- The shortest decimal of a magnitude that is not zero, as a whole number and a power of ten.
Every magnitude has one between `10^308` and `10^-343`. -/
def shortest (units : Nat) : Nat × Int :=
  searchDown (Interval.around units) units 652 308

end GrammarTypes.Decimal
