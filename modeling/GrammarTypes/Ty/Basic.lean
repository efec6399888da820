import GrammarTypes.Distinct

/-!
# Type expressions

`Ty` is the type that an expression of a grammar yields. Unions are built by `Ty.unionOf`, which
flattens the unions among its members, drops repeats and never leaves a union of fewer than two
members; `Ty.groupOf` adds the parentheses that keep such a union apart from its surroundings.
Equality of types is structural.
-/

namespace GrammarTypes

/-- The types that stand for the absence of a value. -/
inductive Marker where
  /-- The empty case of a repetition. -/
  | never
  /-- An optional part that did not match. -/
  | null
  /-- The result of a semantic predicate. -/
  | undefined
  /-- The result of a syntactic predicate. -/
  | void
  deriving DecidableEq, Repr

/-- The type of a value that an expression yields. -/
inductive Ty where
  /-- Any matched text. -/
  | text
  /-- Nothing is known of the value. -/
  | unknown
  /-- One exact text. -/
  | literal (value : String)
  /-- One of several types. -/
  | union (members : List Ty)
  /-- A type in parentheses. -/
  | group (inner : Ty)
  /-- A list of items of one type. -/
  | array (item : Ty)
  /-- A type for the absence of a value. -/
  | marker (mark : Marker)
  /-- The exported type of a rule, by name and never expanded. -/
  | ruleRef (name : String)
  /-- Whatever the named helper function returns. -/
  | returnOf (helper : String)
  deriving Repr, Inhabited

namespace Ty

/-! ## Structural equality -/

mutual

/-- Structural equality of two types. -/
def beq : Ty → Ty → Bool
  | .text, .text => true
  | .unknown, .unknown => true
  | .literal a, .literal b => a == b
  | .union as, .union bs => beqAll as bs
  | .group a, .group b => beq a b
  | .array a, .array b => beq a b
  | .marker a, .marker b => a == b
  | .ruleRef a, .ruleRef b => a == b
  | .returnOf a, .returnOf b => a == b
  | _, _ => false

/-- Structural equality of two lists of types. -/
def beqAll : List Ty → List Ty → Bool
  | [], [] => true
  | a :: as, b :: bs => beq a b && beqAll as bs
  | _, _ => false

end

mutual

/-- A type is equal to itself. -/
theorem beq_refl : ∀ t : Ty, beq t t = true
  | .text | .unknown => rfl
  | .literal _ | .marker _ | .ruleRef _ | .returnOf _ => by simp [beq]
  | .union ts => by simp [beq, beqAll_refl ts]
  | .group t | .array t => by simp [beq, beq_refl t]

/-- A list of types is equal to itself. -/
theorem beqAll_refl : ∀ ts : List Ty, beqAll ts ts = true
  | [] => rfl
  | t :: ts => by simp [beqAll, beq_refl t, beqAll_refl ts]

end

mutual

/-- Types that test equal are equal. -/
theorem eq_of_beq : ∀ {a b : Ty}, beq a b = true → a = b
  | .text, b, h => by cases b <;> simp_all [beq]
  | .unknown, b, h => by cases b <;> simp_all [beq]
  | .literal _, b, h => by cases b <;> simp_all [beq]
  | .union as, b, h => by
    cases b with
    | union bs => exact congrArg Ty.union (eq_of_beqAll (by simpa [beq] using h))
    | _ => simp [beq] at h
  | .group a, b, h => by
    cases b with
    | group b => exact congrArg Ty.group (eq_of_beq (by simpa [beq] using h))
    | _ => simp [beq] at h
  | .array a, b, h => by
    cases b with
    | array b => exact congrArg Ty.array (eq_of_beq (by simpa [beq] using h))
    | _ => simp [beq] at h
  | .marker _, b, h => by cases b <;> simp_all [beq]
  | .ruleRef _, b, h => by cases b <;> simp_all [beq]
  | .returnOf _, b, h => by cases b <;> simp_all [beq]

/-- Lists of types that test equal are equal. -/
theorem eq_of_beqAll : ∀ {as bs : List Ty}, beqAll as bs = true → as = bs
  | [], bs, h => by cases bs <;> simp_all [beqAll]
  | a :: as, bs, h => by
    cases bs with
    | nil => simp [beqAll] at h
    | cons b bs =>
      simp only [beqAll, Bool.and_eq_true] at h
      rw [eq_of_beq h.1, eq_of_beqAll h.2]

end

instance : DecidableEq Ty := fun a b =>
  if h : beq a b = true then isTrue (eq_of_beq h)
  else isFalse fun e => h (e ▸ beq_refl a)

/-! ## Unions and groups -/

/-- The members of a type: those of a union, and otherwise the type itself. -/
def members : Ty → List Ty
  | .union ts => ts
  | t => [t]

/-- The number of members that a type shows when it is written out. -/
def arity (t : Ty) : Nat :=
  t.members.length

/-- A type with the given members: `unknown` for none, the member itself for one. -/
def ofMembers : List Ty → Ty
  | [] => .unknown
  | [t] => t
  | ts => .union ts

/-- A number that tells most literals and names apart. -/
def number : Ty → Nat
  | .literal s | .ruleRef s | .returnOf s =>
    s.toList.foldl (fun n c => (31 * n + c.toNat) % 2147483647) 0
  | _ => 0

/-- The union of a list of types: their members in order of first occurrence, each once. -/
def unionOf (ts : List Ty) : Ty :=
  ofMembers (distinct number (ts.flatMap members))

/-- A union has the members of its types without repeats. -/
theorem unionOf_eq (ts : List Ty) : unionOf ts = ofMembers (ts.flatMap members).eraseDups := by
  rw [unionOf, distinct_eq_eraseDups]

/-- A type in parentheses, unless it has them already. -/
def parenthesized : Ty → Ty
  | .group t => .group t
  | t => .group t

/-- The union of a list of types in one pair of parentheses. -/
def groupOf (ts : List Ty) : Ty :=
  (unionOf ts).parenthesized

/-- The item type of a repetition whose occurrences have the given candidate types. An occurrence
without candidates is `unknown`, and then the empty case adds nothing. -/
def itemOf (candidates empty : List Ty) : Ty :=
  if candidates.isEmpty then .unknown else unionOf (candidates ++ empty)

end Ty

end GrammarTypes
