import GrammarTypes.Expr
import GrammarTypes.Ty.Basic

/-!
# Character classes

A class that lists few enough texts has the union of their literals as its type (`CharClass.type`,
section 12 of the specification). In `CharClass.expand` parts are taken in order against a limit on
the number of texts: a part that does not fit ends the expansion, whatever follows it, and a range
whose endpoints are not single characters in order is refused.
-/

namespace GrammarTypes.CharClass

/-- The character that a text of one character consists of. -/
def single? (s : String) : Option Char :=
  match s.toList with
  | [c] => some c
  | _ => none

/-- The endpoints of a range, if they are single characters in order. -/
def endpoints? (lower upper : String) : Option (Char × Char) :=
  match single? lower, single? upper with
  | some lo, some hi => if lo.toNat ≤ hi.toNat then some (lo, hi) else none
  | _, _ => none

/-- The number of code points from one character to another, surrogates included. -/
def width (lo hi : Char) : Nat :=
  hi.toNat - lo.toNat + 1

/-- The characters from one to another, in order. -/
def charsBetween (lo hi : Char) : List Char :=
  ((List.range' lo.toNat (width lo hi)).filter fun n => Nat.isValidChar n).map Char.ofNat

/-- The texts that the parts list when there is room for them, `none` when there is not, or the
endpoints of the first malformed range. -/
def expand (room : Nat) : List ClassPart → Except (String × String) (Option (List String))
  | [] => .ok (some [])
  | .char value :: parts =>
    if room = 0 then .ok none
    else (expand (room - 1) parts).map (Option.map (value :: ·))
  | .range lower upper :: parts =>
    match endpoints? lower upper with
    | none => .error (lower, upper)
    | some (lo, hi) =>
      if room < width lo hi then .ok none
      else
        let listed := (charsBetween lo hi).map Char.toString
        (expand (room - listed.length) parts).map (Option.map (listed ++ ·))

/-- The type of a character class under a limit on its texts. A class that is inverted or ignores
case matches texts it does not list, and so does a class that is too wide. -/
def type (limit : Nat) (parts : List ClassPart) (inverted ignoreCase : Bool) :
    Except (String × String) Ty :=
  if inverted || ignoreCase then .ok .text
  else if parts.isEmpty then .ok (.marker .never)
  else
    (expand limit parts).map fun
      | none => .text
      | some texts => Ty.unionOf (texts.map Ty.literal)

end GrammarTypes.CharClass
