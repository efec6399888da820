import GrammarTypes.Proofs.Emission
import GrammarTypes.Proofs.Helper.References

/-!
# Helpers of different rules

The helpers of one rule have different names, but those of two rules of a grammar need not. The
name of a rule can end in a dollar sign and a number, and then the helper of an action at the top of
that rule can be named like a numbered helper of another rule (`Rule.Shadows`). This is the only way
in which two helpers of a grammar come to have one name (`Rule.nodup_helperNames_iff`).
-/

namespace GrammarTypes

namespace Rule

/-- The names of the helpers of a rule, in the order of their nodes. -/
def helperNames (r : Rule) : List String :=
  (List.range r.expression.helperCount).map (r.expression.ruleHelperName r.name)

/-- The helper of the action at the top of the first rule is named like a numbered helper of the
second. -/
def Shadows (r s : Rule) : Prop :=
  r.expression.topAction?.isSome = true ∧
    ∃ n, 1 ≤ n ∧ n ≤ s.expression.numberedCount ∧ r.name = s.name ++ "$" ++ toString n

variable {r s : Rule} {name : String}

/-- A rule has a helper under its own name when an action is at its top, and numbered helpers from 1
on. -/
theorem mem_helperNames_iff : name ∈ r.helperNames ↔
    (r.expression.topAction?.isSome = true ∧ name = Helper.ruleName r.name) ∨
      ∃ n, 1 ≤ n ∧ n ≤ r.expression.numberedCount ∧ name = Helper.numberedName r.name n := by
  unfold helperNames Expr.ruleHelperName Expr.numberedCount
  rw [List.mem_map]
  cases htop : r.expression.topAction? with
  | none =>
    simp only [List.mem_range, Option.isSome_none, Bool.false_eq_true, false_and, false_or]
    constructor
    · rintro ⟨j, hj, rfl⟩
      exact ⟨1 + j, by omega, by omega, rfl⟩
    · rintro ⟨n, hpos, hn, rfl⟩
      exact ⟨n - 1, by omega, by rw [Nat.add_sub_cancel' hpos]⟩
  | some top =>
    obtain ⟨code, inner⟩ := top
    have hcount : r.expression.helperCount = 1 + inner.helperCount := by
      rw [← Expr.helperCount_unnamed, Expr.unnamed_eq_action htop, Expr.helperCount]
    simp only [List.mem_range, hcount, Option.isSome_some, true_and]
    constructor
    · rintro ⟨j, hj, rfl⟩
      split
      · exact .inl rfl
      · exact .inr ⟨j, by omega, by omega, rfl⟩
    · rintro (rfl | ⟨n, hpos, hn, rfl⟩)
      · exact ⟨0, by omega, rfl⟩
      · exact ⟨n, by omega, if_neg (by omega)⟩

/-- A rule does not shadow itself. -/
theorem not_shadows_self (r : Rule) : ¬ r.Shadows r := by
  rintro ⟨-, n, -, -, hname⟩
  exact Helper.ruleName_ne_numberedName r.name n (Helper.ruleName_eq_numberedName_iff.2 hname)

/-- A rule that shadows another has a helper with the name of one of the other's. -/
theorem Shadows.not_disjoint (h : r.Shadows s) : ¬ r.helperNames.Disjoint s.helperNames := by
  obtain ⟨htop, n, hpos, hn, hname⟩ := h
  intro hdisjoint
  refine hdisjoint (mem_helperNames_iff.2 (.inl ⟨htop, rfl⟩)) ?_
  exact mem_helperNames_iff.2
    (.inr ⟨n, hpos, hn, Helper.ruleName_eq_numberedName_iff.2 hname⟩)

/-- Two rules of different names have no helper name in common when neither shadows the other. -/
theorem disjoint_helperNames_iff (hne : r.name ≠ s.name) :
    r.helperNames.Disjoint s.helperNames ↔ ¬ r.Shadows s ∧ ¬ s.Shadows r := by
  constructor
  · intro hdisjoint
    have hsymm := List.disjoint_symm hdisjoint
    exact ⟨fun h => h.not_disjoint hdisjoint, fun h => h.not_disjoint hsymm⟩
  · rintro ⟨hrs, hsr⟩ name hr hs
    -- A name without a number and one with a number can be alike, two of one kind cannot.
    rcases mem_helperNames_iff.1 hr with ⟨hrtop, rfl⟩ | ⟨m, hm, hmr, rfl⟩ <;>
      rcases mem_helperNames_iff.1 hs with ⟨hstop, heq⟩ | ⟨n, hn, hns, heq⟩
    · exact hne (Helper.ruleName_inj.1 heq)
    · exact hrs ⟨hrtop, n, hn, hns, Helper.ruleName_eq_numberedName_iff.1 heq⟩
    · exact hsr ⟨hstop, m, hm, hmr, Helper.ruleName_eq_numberedName_iff.1 heq.symm⟩
    · exact hne (Helper.numberedName_inj.1 heq).1

/-- Rules of different names have helpers of different names when none shadows another. -/
theorem nodup_helperNames_iff {rules : List Rule} (hnames : (rules.map Rule.name).Nodup) :
    (rules.flatMap helperNames).Nodup ↔ ∀ r ∈ rules, ∀ s ∈ rules, ¬ r.Shadows s := by
  have hne : rules.Pairwise fun r s => r.name ≠ s.name := List.pairwise_map.1 hnames
  rw [List.nodup_flatMap]
  constructor
  · rintro ⟨-, hdisjoint⟩ r hr s hs
    have hpairs : rules.Pairwise fun r s => ¬ r.Shadows s ∧ ¬ s.Shadows r :=
      (hne.and hdisjoint).imp fun h => (disjoint_helperNames_iff h.1).1 h.2
    exact List.Pairwise.forall_of_forall_of_flip (fun r _ => r.not_shadows_self)
      (hpairs.imp And.left) (hpairs.imp And.right) hr hs
  · intro h
    refine ⟨fun r _ => List.nodup_range.map (r.expression.ruleHelperName_injective r.name), ?_⟩
    refine hne.imp_of_mem fun {r s} hr hs hrs => ?_
    exact (disjoint_helperNames_iff hrs).2 ⟨h r hr s hs, h s hs r hr⟩

end Rule

namespace Grammar

/-- The helpers of declared rules are named like those of the rules, in some order. -/
theorem helperNames_perm {limit : Nat} {rules : List Rule} {ds : List Declaration}
    (h : List.Forall₂ (fun r d => Rule.declared limit r = .ok d) rules ds) :
    ((ds.flatMap fun d => d.yield.helpers).map Helper.name).Perm
      (rules.flatMap Rule.helperNames) := by
  induction h with
  | nil => exact .nil
  | cons hd _ ih =>
    obtain ⟨y, hy, rfl⟩ := Except.map_eq_ok_iff.1 hd
    rw [List.flatMap_cons, List.flatMap_cons, List.map_append]
    exact (Expr.allocates_ruleResult hy).names_perm.append ih

/-- Declared rules are closed. -/
theorem closed_of_declared {limit : Nat} {rules : List Rule} {ds : List Declaration}
    (h : List.Forall₂ (fun r d => Rule.declared limit r = .ok d) rules ds) :
    ∀ d ∈ ds, d.yield.Closed .empty := by
  induction h with
  | nil => exact fun d hd => nomatch hd
  | cons hd _ ih =>
    obtain ⟨y, hy, rfl⟩ := Except.map_eq_ok_iff.1 hd
    exact List.forall_mem_cons.2 ⟨Expr.closed_ruleResult hy, ih⟩

/-- The helpers of all rules of a grammar whose rules have different names have different names
exactly when no rule shadows another, and then every reference to a helper leads to exactly one
helper of the grammar. -/
theorem helper_names_nodup_iff (g : Grammar) (options : EmitOptions) (ledger ledger' : Ledger)
    (ds : List Declaration) (hnames : (g.rules.map Rule.name).Nodup)
    (hrun : (g.declarations options).runFrom ledger = (.ok ds, ledger')) :
    (((ds.flatMap fun d => d.yield.helpers).map Helper.name).Nodup ↔
      ∀ r ∈ g.rules, ∀ s ∈ g.rules, ¬ r.Shadows s) ∧
    ((∀ r ∈ g.rules, ∀ s ∈ g.rules, ¬ r.Shadows s) → ∀ d ∈ ds, ∀ name,
      (d.yield.Refers name ∨ ∃ h ∈ d.yield.helpers, .returnOf name ∈ h.params.atoms) →
        ∃ i, Helper.ResolvesAt (ds.flatMap fun d => d.yield.helpers) name i) := by
  have hdeclared : List.Forall₂ (fun r d => Rule.declared options.classLimit r = .ok d)
      g.rules ds := by
    rw [← Except.mapM_eq_ok_iff, ← runFrom_declarations, hrun]
  have hiff : ((ds.flatMap fun d => d.yield.helpers).map Helper.name).Nodup ↔
      ∀ r ∈ g.rules, ∀ s ∈ g.rules, ¬ r.Shadows s := by
    rw [(helperNames_perm hdeclared).nodup_iff, Rule.nodup_helperNames_iff hnames]
  refine ⟨hiff, fun hshadows d hd name hname => ?_⟩
  obtain ⟨h, hh, hkind⟩ := (closed_of_declared hdeclared d hd).hasAction_of_empty hname
  have hall : Helper.HasAction (ds.flatMap fun d => d.yield.helpers) name :=
    ⟨h, List.mem_flatMap.2 ⟨d, hd, hh⟩, hkind⟩
  exact hall.exists_resolvesAt (hiff.2 hshadows)

/-- Two rules with an action each, in the rule `A` and at the top of a rule of the given name. -/
def twoActions (name : String) : Grammar :=
  ⟨none, none, [⟨"A", .group (.action "return 1;" .any)⟩, ⟨name, .action "return 2;" .any⟩]⟩

/-- The rule `A$2` does not shadow the rule `A`, which has one numbered helper only. -/
theorem helper_names_nodup_iff_apart : ∃ ds ledger',
    ((twoActions "A$2").rules.map Rule.name).Nodup ∧
    ((twoActions "A$2").declarations {}).runFrom {} = (.ok ds, ledger') ∧
    ((ds.flatMap fun d => d.yield.helpers).map Helper.name).Nodup ∧
    ∀ r ∈ (twoActions "A$2").rules, ∀ s ∈ (twoActions "A$2").rules, ¬ r.Shadows s := by
  refine ⟨_, _, by decide, rfl, ?_, ?_⟩
  · decide +kernel
  · exact (helper_names_nodup_iff (twoActions "A$2") {} {} _ _ (by decide) rfl).1.1
      (by decide +kernel)

/-- The rule `A$1` shadows the rule `A`, though their names are different: two helpers have the one
name. -/
theorem helper_names_not_nodup : ∃ ds ledger',
    ((twoActions "A$1").rules.map Rule.name).Nodup ∧
    ((twoActions "A$1").declarations {}).runFrom {} = (.ok ds, ledger') ∧
    (ds.flatMap fun d => d.yield.helpers).map Helper.identity =
      [("peg$parseA$1", .action, "return 1;"), ("peg$parseA$1", .action, "return 2;")] ∧
    ¬ ((ds.flatMap fun d => d.yield.helpers).map Helper.name).Nodup := by
  refine ⟨_, _, by decide, rfl, ?_, ?_⟩
  · decide +kernel
  · decide +kernel

end Grammar

end GrammarTypes
