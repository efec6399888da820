import GrammarTypes.Proofs.Derivation.Outline
import GrammarTypes.Proofs.Emission.Composition

/-!
# Helpers as they are listed

A declaration finds the helper that decides the value of its rule by name, and lists the others by
leaving that name out. That neither loses a helper nor shows one twice rests on two facts about the
derivation: no two helpers of a rule have the same name, and the action that decides the value is
one of them. With both, the helpers of the yield are those before the deciding one, that one, and
those after it, and the declaration lists the one in the middle first (`Declaration.exists_split`).
-/

namespace GrammarTypes

namespace Declaration

variable {d : Declaration}

/-! ## The helper of the rule -/

/-- Without an action all helpers are listed as they are. -/
theorem listed_of_no_action (h : d.yield.action = none) :
    d.ruleHelper? = none ∧ d.nestedHelpers = d.yield.helpers := by
  constructor
  · rw [ruleHelper?, h, Option.bind_none]
  · rw [nestedHelpers, h]
    exact List.filter_eq_self.2 fun _ _ => rfl

/-- The helper of the action that decides the value stands somewhere among the helpers, and the
others are those before it and those after it. -/
theorem exists_split (hnodup : (d.yield.helpers.map Helper.name).Nodup)
    (howner : d.yield.ActionOfHelper) {a : Action} (ha : d.yield.action = some a) :
    ∃ before h after, d.yield.helpers = before ++ h :: after ∧ h.kind = .action ∧
      a = ⟨h.name, h.code⟩ ∧ d.ruleHelper? = some h ∧ d.nestedHelpers = before ++ after := by
  obtain ⟨h, hmem, hkind, hname, hcode⟩ := howner a ha
  obtain ⟨before, after, hsplit⟩ := List.append_of_mem hmem
  have hothers : ∀ g ∈ before ++ after, g.name ≠ a.helper := by
    intro g hg heq
    rw [hsplit, List.map_append, List.map_cons, List.nodup_middle, ← List.map_append] at hnodup
    have hfresh := (List.nodup_cons.1 hnodup).1
    rw [hname, ← heq] at hfresh
    exact hfresh (List.mem_map_of_mem hg)
  obtain ⟨hbefore, hafter⟩ := List.forall_mem_append.1 hothers
  refine ⟨before, h, after, hsplit, hkind, ?_, ?_, ?_⟩
  · rw [hname, hcode]
  -- The search by name passes over the helpers before it.
  · have hpassed : before.find? (fun g => g.name == a.helper) = none :=
      List.find?_eq_none.2 fun g hg => by simpa using hbefore g hg
    rw [ruleHelper?, ha, Option.bind_some, hsplit, List.find?_append, hpassed, Option.none_or]
    exact List.find?_cons_of_pos (beq_iff_eq.2 hname)
  -- The name is left out, and no other helper has it.
  · have hkept : ∀ gs : List Helper, (∀ g ∈ gs, g.name ≠ a.helper) →
        gs.filter (fun g => some a.helper != some g.name) = gs := by
      intro gs hgs
      refine List.filter_eq_self.2 fun g hg => bne_iff_ne.2 fun heq => ?_
      exact hgs g hg (Option.some.inj heq).symm
    have hleft : (h :: after).filter (fun g => some a.helper != some g.name) =
        after.filter fun g => some a.helper != some g.name :=
      List.filter_cons_of_neg (by simp [hname])
    rw [nestedHelpers, ha, Option.map_some, hsplit, List.filter_append, hleft,
      hkept before hbefore, hkept after hafter]

/-! ## Listings -/

/-- A declaration lists the helpers of its yield, each once, and the one that decides the value
first. -/
structure ListsHelpers (d : Declaration) : Prop where
  /-- The helper of the rule and the others are the helpers of the yield. -/
  perm : (d.ruleHelper?.toList ++ d.nestedHelpers).Perm d.yield.helpers
  /-- The others stand in the order of the yield. -/
  nested_sublist : d.nestedHelpers.Sublist d.yield.helpers
  /-- There is a helper of the rule exactly when an action decides the value. -/
  hasAction_iff : d.hasAction ↔ d.ruleHelper?.isSome
  /-- The helper of the rule is that action, has its code, and returns the exported type. -/
  ruleHelper : ∀ h, d.ruleHelper? = some h →
    h.kind = .action ∧ d.yield.action = some ⟨h.name, h.code⟩ ∧ d.exportedType = .returnOf h.name
  /-- The summary shows the helpers of the yield. -/
  summary_perm : d.summary.helpers.Perm (d.yield.helpers.map Helper.summary)
  /-- The summary shows no name twice. -/
  summary_nodup : (d.summary.helpers.map HelperSummary.name).Nodup
  /-- The summary shows the helper of the rule first. -/
  summary_head : ∀ h, d.ruleHelper? = some h → d.summary.helpers.head? = some h.summary
  /-- The text shows what the summary shows. -/
  text : d.render = d.summary.text

/-- A declaration lists its helpers, each once, when they have different names and the action that
decides the value is one of them. -/
theorem listsHelpers (hnodup : (d.yield.helpers.map Helper.name).Nodup)
    (howner : d.yield.ActionOfHelper) : d.ListsHelpers := by
  have hperm : (d.ruleHelper?.toList ++ d.nestedHelpers).Perm d.yield.helpers := by
    cases ha : d.yield.action with
    | none =>
      obtain ⟨hrule, hnested⟩ := listed_of_no_action ha
      rw [hrule, hnested]
      exact .refl _
    | some a =>
      obtain ⟨before, h, after, hsplit, -, -, hrule, hnested⟩ := exists_split hnodup howner ha
      rw [hrule, hnested, hsplit, Option.toList_some, List.singleton_append]
      exact List.perm_middle.symm
  constructor
  case perm => exact hperm
  case nested_sublist => exact List.filter_sublist
  case hasAction_iff =>
    cases ha : d.yield.action with
    | none => simp [hasAction, ha, (listed_of_no_action ha).1]
    | some a =>
      obtain ⟨_, _, _, -, -, -, hrule, -⟩ := exists_split hnodup howner ha
      simp [hasAction, ha, hrule]
  case ruleHelper =>
    intro h hh
    obtain ⟨a, ha, -⟩ := Option.bind_eq_some_iff.1 hh
    obtain ⟨_, g, _, -, hkind, rfl, hrule, -⟩ := exists_split hnodup howner ha
    obtain rfl : g = h := Option.some.inj (hrule.symm.trans hh)
    exact ⟨hkind, ha, Yield.unionType_of_action ha⟩
  case summary_perm => exact hperm.map Helper.summary
  case summary_nodup =>
    have hnames : d.summary.helpers.map HelperSummary.name =
        (d.ruleHelper?.toList ++ d.nestedHelpers).map Helper.name :=
      List.map_map
    rw [hnames]
    exact (hperm.map Helper.name).nodup_iff.2 hnodup
  case summary_head =>
    intro h hh
    rw [summary, hh]
    rfl
  case text => exact d.render_eq

end Declaration

/-- The declaration of a rule lists every helper that was derived for it, each once and the one that
decides the value first. -/
theorem Rule.declare_listsHelpers (options : EmitOptions) (ruleNames : List String) (rule : Rule)
    (ledger ledger' : Ledger) (d : Declaration)
    (hrun : (rule.declare options ruleNames).runFrom ledger = (.ok d, ledger')) :
    d.ListsHelpers := by
  obtain ⟨y, hresult, rfl⟩ := Rule.exists_of_runFrom_declare hrun
  have hnames := Expr.allocates_ruleResult hresult
  exact Declaration.listsHelpers
    (hnames.names_nodup (rule.expression.ruleHelperName_injective rule.name))
    (Expr.ownsCode_ruleResult hresult).action

/-- The second of two actions in a sequence decides the value: its helper is listed before that of
the first, and the condition after both. -/
theorem Rule.declare_listsHelpers_second : ∃ d ledger',
    (Rule.declare {} [] ⟨"R", .sequence [.action "first" .any, .action "second" .any,
      .semanticAnd "third"]⟩).runFrom {} = (.ok d, ledger') ∧
      d.ListsHelpers ∧
      d.yield.helpers.map Helper.name = ["peg$parseR$1", "peg$parseR$2", "peg$parseR$3"] ∧
      d.summary.helpers.map HelperSummary.name =
        ["peg$parseR$2", "peg$parseR$1", "peg$parseR$3"] := by
  refine ⟨_, _, rfl, ?_, ?_, ?_⟩
  · exact Rule.declare_listsHelpers {} [] ⟨"R", .sequence [.action "first" .any,
      .action "second" .any, .semanticAnd "third"]⟩ {} _ _ rfl
  · decide +kernel
  · decide +kernel

end GrammarTypes
