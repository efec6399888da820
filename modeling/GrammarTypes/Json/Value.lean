import GrammarTypes.Decimal.Binary64

/-!
# JSON values

A JSON value in memory. Members of an object keep the order of the document. An object read from a
text can have a name twice; `Value.distinct` keeps the last value of each name at its first place.
-/

namespace GrammarTypes.Json

/-- A number: a whole number that fits in 64 bits is exact, and every other number is binary64. -/
inductive Number where
  /-- A whole number from zero up. -/
  | nat (n : Nat)
  /-- The negative of a whole number. -/
  | negative (n : Nat)
  /-- Any other number. -/
  | float (x : Decimal.Binary64)
  deriving DecidableEq, Repr

/-- A JSON value. -/
inductive Value where
  /-- No value. -/
  | null
  /-- A truth value. -/
  | bool (b : Bool)
  /-- A number. -/
  | number (n : Number)
  /-- A text. -/
  | string (s : String)
  /-- A list of values. -/
  | array (items : List Value)
  /-- Named values, in order. -/
  | object (members : List (String × Value))
  deriving Repr, Inhabited

namespace Value

/-- The members of an object with a member set: in place if the name is there, and else last. -/
def insertMember {α : Type} (name : String) (value : α) :
    List (String × α) → List (String × α)
  | [] => [(name, value)]
  | (n, v) :: rest =>
    if n = name then (n, value) :: rest else (n, v) :: insertMember name value rest

mutual

/-- The value in which every object has each name once, with its last value. -/
def distinct : Value → Value
  | .array items => .array (distinctItems items)
  | .object members => .object (distinctMembers members [])
  | v => v

/-- The items of an array, each with distinct names. -/
def distinctItems : List Value → List Value
  | [] => []
  | v :: vs => distinct v :: distinctItems vs

/-- The members of an object put one after another into those before them. -/
def distinctMembers : List (String × Value) → List (String × Value) → List (String × Value)
  | [], done => done
  | (name, v) :: rest, done => distinctMembers rest (insertMember name (distinct v) done)

end

/-- The member of an object with a name. -/
def get? (v : Value) (name : String) : Option Value :=
  match v with
  | .object members => members.lookup name
  | _ => none

end Value

end GrammarTypes.Json
