import GrammarTypes.Yield

/-!
# What operators make of yields

The fields of a yield, operator by operator. A sequence takes over the helpers of its elements in
order, and its value is decided by the action of the last element that has one. A choice takes over
the labels and helpers of its alternatives, and none of their actions: each alternative is a group
(`Yield.foldl_orElse`). What decides the value is all that a parent sees of it.
-/

namespace GrammarTypes

namespace Yield

/-! ## Operators over one part -/

/-- An operator has the one type that it makes of the value. -/
theorem types_wrap (f : List Ty → Ty) (y : Yield) : (y.wrap f).types = [f y.valueTypes] := rfl

/-- An operator takes over the labels of its part. -/
theorem labels_wrap (f : List Ty → Ty) (y : Yield) :
    (y.wrap f).labels = Scope.empty.merge y.labels := rfl

/-- An action has what its helper returns as its one type. -/
theorem types_underAction (name code : String) (s : Scope) (y : Yield) :
    (y.underAction name code s).types = [.returnOf name] := rfl

/-- An action takes over the labels of its part. -/
theorem labels_underAction (name code : String) (s : Scope) (y : Yield) :
    (y.underAction name code s).labels = Scope.empty.merge y.labels := rfl

/-- The helper of an action comes after those of its part. -/
theorem helpers_underAction (name code : String) (s : Scope) (y : Yield) :
    (y.underAction name code s).helpers =
      y.helpers ++ [⟨name, .action, s.merge y.labels, code⟩] := rfl

/-- A capture binds its label alone. -/
theorem labels_capture (label : String) (y : Yield) :
    (y.capture label).labels = Scope.empty.bind label y.valueTypes := rfl

/-! ## Sequences -/

/-- One more element adds its entry. -/
theorem types_append (y z : Yield) : (y.append z).types = y.types ++ entry y.action z := rfl

/-- One more element adds its labels. -/
theorem labels_append (y z : Yield) : (y.append z).labels = y.labels.merge z.labels := rfl

/-- One more element decides the value when it has an action. -/
theorem action_append (y z : Yield) : (y.append z).action = z.action.or y.action :=
  Option.orElse_eq_or ..

/-- One more element adds its helpers. -/
theorem helpers_append (y z : Yield) : (y.append z).helpers = y.helpers ++ z.helpers := rfl

/-- The helpers of the elements follow those of the sequence so far. -/
theorem helpers_foldl_append (y : Yield) (ys : List Yield) :
    (ys.foldl append y).helpers = y.helpers ++ ys.flatMap helpers := by
  induction ys generalizing y with
  | nil => simp
  | cons z zs ih =>
    rw [List.foldl_cons, ih, helpers_append, List.flatMap_cons, List.append_assoc]

/-- A sequence has the helpers of its elements in order. -/
theorem helpers_sequence (ys : List Yield) : (sequence ys).helpers = ys.flatMap helpers := by
  rw [sequence, helpers_foldl_append, List.nil_append]

/-- The last action of the elements replaces that of the sequence so far. -/
theorem action_foldl_append (y : Yield) (ys : List Yield) :
    (ys.foldl append y).action = (ys.reverse.findSome? action).or y.action := by
  induction ys generalizing y with
  | nil => rfl
  | cons z zs ih =>
    rw [List.foldl_cons, ih, action_append, List.reverse_cons, List.findSome?_append,
      List.findSome?_singleton, Option.or_assoc]

/-- A sequence has the action of the last element that has one. -/
theorem action_sequence (ys : List Yield) :
    (sequence ys).action = ys.reverse.findSome? action := by
  rw [sequence, action_foldl_append, Option.or_none]

/-! ## Choices -/

/-- The alternatives add their groups, labels and helpers to the choice so far, whose action they
leave alone. -/
theorem foldl_orElse (y : Yield) (ys : List Yield) :
    ys.foldl orElse y = {
      types := y.types ++ ys.map fun z => Ty.groupOf z.valueTypes
      labels := ys.foldl (fun s z => s.merge z.labels) y.labels
      action := y.action
      helpers := y.helpers ++ ys.flatMap helpers } := by
  induction ys generalizing y with
  | nil => simp
  | cons z zs ih => simp [ih, orElse, absorb]

/-- A choice has one group for each alternative. -/
theorem types_choice (ys : List Yield) :
    (choice ys).types = ys.map fun y => Ty.groupOf y.valueTypes := by
  rw [choice, foldl_orElse]
  exact List.nil_append _

/-- A choice merges the labels of its alternatives. -/
theorem labels_choice (ys : List Yield) :
    (choice ys).labels = ys.foldl (fun s y => s.merge y.labels) .empty := by
  rw [choice, foldl_orElse]

/-- No action decides the value of a choice. -/
theorem action_choice (ys : List Yield) : (choice ys).action = none := by
  rw [choice, foldl_orElse]

/-- A choice has the helpers of its alternatives in order. -/
theorem helpers_choice (ys : List Yield) : (choice ys).helpers = ys.flatMap helpers := by
  rw [choice, foldl_orElse]
  exact List.nil_append _

/-! ## Values -/

/-- A value that an action decides is what its helper returns. -/
theorem valueTypes_of_action {y : Yield} {a : Action} (h : y.action = some a) :
    y.valueTypes = [.returnOf a.helper] := by
  rw [valueTypes, h]

/-- A value that no action decides is the candidates. -/
theorem valueTypes_of_no_action {y : Yield} (h : y.action = none) : y.valueTypes = y.types := by
  rw [valueTypes, h]

/-- An expression whose value an action decides stands for what its helper returns. -/
theorem unionType_of_action {y : Yield} {a : Action} (h : y.action = some a) :
    y.unionType = .returnOf a.helper := by
  rw [unionType, valueTypes_of_action h, Ty.unionOf_eq]
  rfl

end Yield

end GrammarTypes
