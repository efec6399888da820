import GrammarTypes.Decode.Failure

/-!
# Outcomes

When an outcome that is made of others succeeds or fails. Whether it succeeds and with what, without
regard to how a failure is reported, is seen through `Except.toOption`: there steps one after
another become steps of `Option`, and the paths and places of decoding drop out of sight.
-/

namespace GrammarTypes

namespace Except

variable {ε ε' α β : Type}

/-! ## Success and failure -/

/-- A function of an outcome succeeds when the outcome does. -/
theorem map_eq_ok_iff {f : α → β} {x : Except ε α} {b : β} :
    f <$> x = .ok b ↔ ∃ a, x = .ok a ∧ f a = b := by
  cases x with
  | error e => simp [Functor.map, Except.map]
  | ok a => simp [Functor.map, Except.map]

/-- A function of an outcome fails when the outcome does. -/
theorem map_eq_error_iff {f : α → β} {x : Except ε α} {err : ε} :
    f <$> x = .error err ↔ x = .error err := by
  cases x with
  | error e => simp [Functor.map, Except.map]
  | ok a => simp [Functor.map, Except.map]

/-- Two steps succeed when both do. -/
theorem bind_eq_ok_iff {x : Except ε α} {f : α → Except ε β} {b : β} :
    x >>= f = .ok b ↔ ∃ a, x = .ok a ∧ f a = .ok b := by
  cases x with
  | error e => simp [Bind.bind, Except.bind]
  | ok a => simp [Bind.bind, Except.bind]

/-- Two steps fail when the first does, or when the second does after it. -/
theorem bind_eq_error_iff {x : Except ε α} {f : α → Except ε β} {err : ε} :
    x >>= f = .error err ↔ x = .error err ∨ ∃ a, x = .ok a ∧ f a = .error err := by
  cases x with
  | error e => simp [Bind.bind, Except.bind]
  | ok a => simp [Bind.bind, Except.bind]

@[simp] theorem mapError_ok (f : ε → ε') (a : α) :
    (Except.ok a : Except ε α).mapError f = .ok a := rfl

@[simp] theorem mapError_error (f : ε → ε') (e : ε) :
    (Except.error e : Except ε α).mapError f = .error (f e) := rfl

/-- Errors that are put in other words are errors before. -/
theorem mapError_eq_error_iff {f : ε → ε'} {x : Except ε α} {err : ε'} :
    x.mapError f = .error err ↔ ∃ e, x = .error e ∧ f e = err := by
  cases x with
  | error e => simp
  | ok a => simp

/-- Errors that are put in other words leave a success as it is. -/
theorem mapError_eq_ok_iff {f : ε → ε'} {x : Except ε α} {a : α} :
    x.mapError f = .ok a ↔ x = .ok a := by
  cases x with
  | error e => constructor <;> intro h <;> cases h
  | ok b => constructor <;> intro h <;> cases h <;> rfl

/-! ## Values -/

@[simp] theorem toOption_ok (a : α) : (Except.ok a : Except ε α).toOption = some a := rfl

@[simp] theorem toOption_error (e : ε) : (Except.error e : Except ε α).toOption = none := rfl

@[simp] theorem toOption_throw (e : ε) : (throw e : Except ε α).toOption = none := rfl

@[simp] theorem toOption_pure (a : α) : (pure a : Except ε α).toOption = some a := rfl

@[simp] theorem toOption_bind (x : Except ε α) (f : α → Except ε β) :
    (x >>= f).toOption = x.toOption.bind fun a => (f a).toOption := by
  cases x <;> rfl

@[simp] theorem toOption_map (f : α → β) (x : Except ε α) :
    (x.map f).toOption = x.toOption.map f := by
  cases x <;> rfl

@[simp] theorem toOption_mapError (f : ε → ε') (x : Except ε α) :
    (x.mapError f).toOption = x.toOption := by
  cases x <;> rfl

/-- An outcome has a value when it is that value. -/
theorem toOption_eq_some_iff {x : Except ε α} {a : α} : x.toOption = some a ↔ x = .ok a := by
  cases x <;> simp

end Except

namespace Decode

variable {α : Type}

@[simp] theorem toOption_within (step : Segment) (x : Except Failure α) :
    (within step x).toOption = x.toOption :=
  Except.toOption_mapError _ x

@[simp] theorem toOption_raise (place : Place) (x : Except Cause α) :
    (raise place x).toOption = x.toOption :=
  Except.toOption_mapError _ x

end Decode

end GrammarTypes
