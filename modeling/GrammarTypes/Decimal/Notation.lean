import GrammarTypes.Decimal.Shortest

/-!
# Decimal notation

How a number is written in a message: the shortest digits that read back, positionally while the
number is neither large nor small, and always with a point or an exponent.
-/

namespace GrammarTypes.Decimal

/-- The decisions of a decimal notation. -/
structure Notation where
  /-- The least exponent of the first digit that is written positionally. -/
  leastPositional : Int
  /-- The greatest exponent of the first digit that is written positionally. -/
  greatestPositional : Int

/-- Numbers in messages are positional from `10^-5` to below `10^16`. -/
def messageNotation : Notation := ⟨-5, 15⟩

/-- A run of zeros. -/
def zeros (n : Nat) : List Char :=
  List.replicate n '0'

/-- An exponent, always with a sign. -/
def exponentText (x : Int) : List Char :=
  (if x < 0 then '-' else '+') :: Nat.toDigits 10 x.natAbs

/-- Decimal digits times a power of ten, written out. -/
def digitsText (n : Notation) (digits : List Char) (power : Int) : List Char :=
  let first : Int := power + digits.length - 1
  if n.leastPositional ≤ first ∧ first ≤ n.greatestPositional then
    if 0 ≤ power then digits ++ zeros power.toNat ++ ['.', '0']
    else if 0 ≤ first then
      digits.take (first.toNat + 1) ++ '.' :: digits.drop (first.toNat + 1)
    else ['0', '.'] ++ zeros (-first - 1).toNat ++ digits
  else
    digits.take 1 ++ (if digits.length = 1 then [] else '.' :: digits.drop 1) ++
      'e' :: exponentText first

/-- The text of a number in a message. -/
def Binary64.render (x : Binary64) : String :=
  let magnitude :=
    if x.units = 0 then ['0', '.', '0']
    else
      let (d, power) := shortest x.units
      digitsText messageNotation (Nat.toDigits 10 d) power
  String.ofList (if x.negative then '-' :: magnitude else magnitude)

end GrammarTypes.Decimal
