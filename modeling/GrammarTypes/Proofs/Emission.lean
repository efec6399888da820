import GrammarTypes.Emission
import GrammarTypes.Proofs.Derivation.Induction
import Mathlib.Data.List.Forall2

/-!
# Declarations as results

A rule is declared with its helpers numbered from 1, whatever was derived before it, and a reference
to a rule that the grammar does not have is noted in the log and nowhere else. So the declaration of
a rule depends on the rule and the class limit only (`Rule.declared`), and the declarations of a
grammar are those of its rules up to the first that fails (`Grammar.runFrom_declarations`).
-/

namespace GrammarTypes

/-- The outcome of a list of derivations is that of the outcomes when none of them depends on the
ledger. -/
theorem Derivation.runFrom_mapM {α β : Type} {f : α → Derivation β}
    {g : α → Except InvalidRange β} (h : ∀ a ledger, ((f a).runFrom ledger).1 = g a) (xs : List α)
    (ledger : Ledger) : ((xs.mapM f).runFrom ledger).1 = xs.mapM g := by
  induction xs generalizing ledger with
  | nil => rfl
  | cons x xs ih =>
    rw [List.mapM_cons, List.mapM_cons, runFrom_bind, ← h x ledger]
    rcases (f x).runFrom ledger with ⟨e | b, ledger'⟩
    · rfl
    · change ((xs.mapM f >>= fun bs => pure (b :: bs)).runFrom ledger').1 = _
      rw [runFrom_bind, ← ih ledger']
      rcases (xs.mapM f).runFrom ledger' with ⟨e | bs, ledger''⟩ <;> rfl

/-- A list of outcomes succeeds when each does. -/
theorem Except.mapM_eq_ok_iff {ε α β : Type} {f : α → Except ε β} {xs : List α} {ys : List β} :
    xs.mapM f = .ok ys ↔ List.Forall₂ (fun x y => f x = .ok y) xs ys := by
  induction xs generalizing ys with
  | nil =>
    rw [List.mapM_nil, List.forall₂_nil_left_iff]
    exact ⟨fun h => (Except.ok.inj h).symm, fun h => h ▸ rfl⟩
  | cons x xs ih =>
    simp only [List.mapM_cons, bind_eq_ok_iff, List.forall₂_cons_left_iff, ih]
    constructor
    · rintro ⟨y, hy, ys', hys, hpure⟩
      exact ⟨y, ys', hy, hys, (Except.ok.inj hpure).symm⟩
    · rintro ⟨y, ys', hy, hys, rfl⟩
      exact ⟨y, hy, ys', hys, rfl⟩

/-- The declaration of a rule under a class limit. -/
def Rule.declared (limit : Nat) (rule : Rule) : Except InvalidRange Declaration :=
  Declaration.mk rule.name <$> rule.expression.ruleResult rule.name limit 1

/-- A rule is declared in the same way from every ledger and among any other rules. -/
theorem Rule.runFrom_declare (options : EmitOptions) (ruleNames : List String) (rule : Rule)
    (ledger : Ledger) :
    ((rule.declare options ruleNames).runFrom ledger).1 = rule.declared options.classLimit := by
  have hcomputes := (Expr.deriveRule_computes ⟨rule.name, ruleNames, options.classLimit⟩
    rule.expression).map (Declaration.mk rule.name)
  exact (hcomputes ⟨1, ledger.log ++ [.ruleBegun rule.name rule.expression.kind]⟩).1

/-- A rule that is declared is declared with the result of its expression. -/
theorem Rule.exists_of_runFrom_declare {options : EmitOptions} {ruleNames : List String}
    {rule : Rule} {ledger ledger' : Ledger} {d : Declaration}
    (hrun : (rule.declare options ruleNames).runFrom ledger = (.ok d, ledger')) :
    ∃ y, rule.expression.ruleResult rule.name options.classLimit 1 = .ok y ∧
      d = ⟨rule.name, y⟩ := by
  have hdeclared := rule.runFrom_declare options ruleNames ledger
  rw [hrun] at hdeclared
  obtain ⟨y, hresult, rfl⟩ := Except.map_eq_ok_iff.1 hdeclared.symm
  exact ⟨y, hresult, rfl⟩

/-- The declarations of a grammar are those of its rules. -/
theorem Grammar.runFrom_declarations (options : EmitOptions) (g : Grammar) (ledger : Ledger) :
    ((g.declarations options).runFrom ledger).1 =
      g.rules.mapM (Rule.declared options.classLimit) :=
  Derivation.runFrom_mapM (fun rule => rule.runFrom_declare options g.ruleNames) g.rules ledger

end GrammarTypes
