import Std.Data.TreeMap.Lemmas

/-!
# Distinct items

The items of a list in order of first occurrence, each once. An item is looked up by a number among
those before it, so that a long list of items with different numbers takes little more than one
pass. Which numbers the items have makes no difference to the result (`distinct_eq_eraseDups`).
-/

namespace GrammarTypes

variable {α : Type} [BEq α]

/-- Items by their numbers. -/
abbrev Seen (α : Type) := Std.TreeMap Nat (List α)

/-- Whether an item has been seen. -/
def Seen.has (number : α → Nat) (seen : Seen α) (x : α) : Bool :=
  (seen.getD (number x) []).contains x

/-- The items seen, and one more. -/
def Seen.add (number : α → Nat) (seen : Seen α) (x : α) : Seen α :=
  seen.insert (number x) (x :: seen.getD (number x) [])

/-- The distinct items of a list that have not been seen. -/
def distinctFrom (number : α → Nat) (seen : Seen α) : List α → List α
  | [] => []
  | x :: xs =>
    if seen.has number x then distinctFrom number seen xs
    else x :: distinctFrom number (seen.add number x) xs

/-- The distinct items of a list. -/
def distinct (number : α → Nat) (xs : List α) : List α :=
  distinctFrom number ∅ xs

/-- What has been seen after one more item. -/
theorem Seen.has_add [LawfulBEq α] (number : α → Nat) (seen : Seen α) (x y : α) :
    (seen.add number x).has number y = (y == x || seen.has number y) := by
  unfold Seen.has Seen.add
  rw [Std.TreeMap.getD_insert]
  by_cases h : number x = number y
  · simp [h]
  · have hne : (y == x) = false := by
      rw [beq_eq_false_iff_ne]
      exact fun e => h (e ▸ rfl)
    simp [h, hne]

/-- The distinct items are those that stay when each repeat of an earlier one is dropped. -/
theorem distinctFrom_eq_eraseDups [LawfulBEq α] (number : α → Nat) (xs : List α) (seen : Seen α) :
    distinctFrom number seen xs = (xs.filter fun x => !seen.has number x).eraseDups := by
  induction xs generalizing seen with
  | nil => simp [distinctFrom]
  | cons x xs ih =>
    by_cases h : seen.has number x = true
    · simp [distinctFrom, h, ih]
    · simp [distinctFrom, h, ih, List.eraseDups_cons, Seen.has_add, List.filter_filter]

/-- The distinct items of a list do not depend on the numbers that they are looked up by. -/
theorem distinct_eq_eraseDups [LawfulBEq α] (number : α → Nat) (xs : List α) :
    distinct number xs = xs.eraseDups := by
  have h : xs.filter (fun x => !(∅ : Seen α).has number x) = xs :=
    List.filter_eq_self.2 (by simp [Seen.has])
  rw [distinct, distinctFrom_eq_eraseDups, h]

end GrammarTypes
