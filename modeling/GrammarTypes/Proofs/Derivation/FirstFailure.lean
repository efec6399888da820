import GrammarTypes.Proofs.Derivation.Failure

/-!
# The class that a derivation fails at

An expression fails on its own when it fails in every scope and from every ledger. Only classes
introduce failures, and every other expression hands on that of the first of its parts that fails
(`Expr.exists_part_failsAlone`). So a derivation fails exactly when one of its visible classes fails
on its own, and it fails with the error of the leftmost of them (`Expr.FirstFailing`).

The leftmost class is found by the paths of nodes: it is the class at the earliest path. That is
the first one that a listing of the nodes in the order of their paths comes to (`mem_before_iff`),
and the derivation looks at the nodes in that order.
-/

namespace GrammarTypes

namespace Expr

variable {cx : RuleContext} {e : Expr} {s : Scope} {ledger : Ledger} {err : InvalidRange}

/-! ## Failures on their own -/

/-- The expression fails with the error, whatever labels are bound before it and whatever the ledger
has so far. -/
def FailsAlone (cx : RuleContext) (e : Expr) (err : InvalidRange) : Prop :=
  ∀ s ledger, ((e.derive cx s).runFrom ledger).1 = .error err

/-- The expression succeeds, whatever labels are bound before it and whatever the ledger has so
far. -/
def SucceedsAlone (cx : RuleContext) (e : Expr) : Prop :=
  ∀ s ledger, ∃ y, ((e.derive cx s).runFrom ledger).1 = .ok y

/-- A derivation reports the failure of its expression. -/
theorem runFrom_derive_reports (cx : RuleContext) (e : Expr) (s : Scope) (ledger : Ledger) :
    Except.Reports ((e.derive cx s).runFrom ledger).1 (e.failure? cx.rule cx.classLimit) := by
  rw [(derive_computes cx e s ledger).1]
  exact result_reports e s ledger.next

/-- An expression fails on its own with its failure. -/
theorem failsAlone_iff : e.FailsAlone cx err ↔ e.failure? cx.rule cx.classLimit = some err := by
  constructor
  · exact fun h => (runFrom_derive_reports cx e .empty {} err).1 (h .empty {})
  · exact fun h s ledger => (runFrom_derive_reports cx e s ledger err).2 h

/-- An expression that fails somewhere fails on its own with the same error. -/
theorem failsAlone_iff_runFrom :
    e.FailsAlone cx err ↔ ((e.derive cx s).runFrom ledger).1 = .error err :=
  failsAlone_iff.trans (runFrom_derive_reports cx e s ledger err).symm

/-- An expression without a failure succeeds. -/
theorem succeedsAlone_iff : e.SucceedsAlone cx ↔ e.failure? cx.rule cx.classLimit = none := by
  constructor
  · intro h
    obtain ⟨y, hy⟩ := h .empty {}
    have hreports := runFrom_derive_reports cx e .empty {}
    rw [hy] at hreports
    exact Except.reports_ok_iff.1 hreports
  · intro h s ledger
    have hreports := runFrom_derive_reports cx e s ledger
    cases hout : ((e.derive cx s).runFrom ledger).1 with
    | ok y => exact ⟨y, rfl⟩
    | error err =>
      rw [hout, h] at hreports
      exact nomatch Except.reports_error_iff.1 hreports

/-! ## Classes and other expressions -/

/-- A class has no failure but its own. -/
theorem failure?_of_charClass (h : e.kind = .charClass) (rule : String) (limit : Nat) :
    e.failure? rule limit = e.ownFailure? rule limit := by
  have hparts : e.parts = [] := by
    cases e with
    | charClass => rfl
    | _ => exact nomatch h
  rw [failure?_eq, hparts, List.findSome?_nil, Option.or_none]

/-- An expression that is no class has no failure of its own. -/
theorem ownFailure?_of_ne_charClass (h : e.kind ≠ .charClass) (rule : String) (limit : Nat) :
    e.ownFailure? rule limit = none := by
  cases e with
  | charClass => exact absurd rfl h
  | _ => rfl

/-- An expression that is no class fails with the error of a part that fails on its own. -/
theorem exists_part_failsAlone (hkind : e.kind ≠ .charClass) (h : e.FailsAlone cx err) :
    ∃ part ∈ e.parts, part.FailsAlone cx err := by
  rw [failsAlone_iff, failure?_of_parts (ownFailure?_of_ne_charClass hkind _ _)] at h
  obtain ⟨part, hpart, hfailure⟩ := List.exists_of_findSome?_eq_some h
  exact ⟨part, hpart, failsAlone_iff.2 hfailure⟩

/-- A class that fails on its own is neither inverted nor ignores case, and its error names the rule
and the endpoints of its first malformed range. -/
theorem FailsAlone.exists_firstMalformed (hkind : e.kind = .charClass) (h : e.FailsAlone cx err) :
    ∃ parts, e = .charClass parts false false ∧
      CharClass.FirstMalformed parts err.lower err.upper ∧ err.rule = cx.rule := by
  rw [failsAlone_iff, failure?_of_charClass hkind] at h
  obtain ⟨parts, hparts, hreaches, hrule⟩ := ownFailure?_eq_some_iff.1 h
  exact ⟨parts, hparts, hreaches.firstMalformed, hrule⟩

/-! ## The leftmost class that fails -/

/-- The node is the leftmost visible class that fails on its own, and it fails with the error. -/
structure FirstFailing (cx : RuleContext) (e : Expr) (x : Node) (err : InvalidRange) : Prop where
  /-- The node is visible. -/
  visible : e.at? x.path = some x.expr
  /-- The node is a class. -/
  isClass : x.expr.kind = .charClass
  /-- The class fails on its own. -/
  fails : x.expr.FailsAlone cx err
  /-- The visible classes to the left of it succeed on their own. -/
  first : ∀ z : Node, e.at? z.path = some z.expr → z.expr.kind = .charClass → z.path < x.path →
    z.expr.SucceedsAlone cx

/-- A node has a failure of its own when it is a class that fails on its own. -/
theorem ownFailure?_eq_some_iff_failsAlone :
    e.ownFailure? cx.rule cx.classLimit = some err ↔
      e.kind = .charClass ∧ e.FailsAlone cx err := by
  by_cases hkind : e.kind = .charClass
  · rw [and_iff_right hkind, failsAlone_iff, failure?_of_charClass hkind]
  · rw [ownFailure?_of_ne_charClass hkind]
    exact iff_of_false nofun fun h => hkind h.1

/-- A node has no failure of its own when it succeeds on its own, if it is a class. -/
theorem ownFailure?_eq_none_iff :
    e.ownFailure? cx.rule cx.classLimit = none ↔
      (e.kind = .charClass → e.SucceedsAlone cx) := by
  by_cases hkind : e.kind = .charClass
  · rw [imp_iff_right hkind, succeedsAlone_iff, failure?_of_charClass hkind]
  · exact iff_of_true (ownFailure?_of_ne_charClass hkind _ _) fun h => absurd h hkind

/-- An expression fails with the error of the leftmost visible class that fails on its own. -/
theorem failsAlone_iff_firstFailing :
    e.FailsAlone cx err ↔ ∃ x, e.FirstFailing cx x err := by
  rw [failsAlone_iff, failure?, List.findSome?_eq_some_iff]
  constructor
  · rintro ⟨before, x, after, hpreorder, hown, hbefore⟩
    have hx : x ∈ e.preorder := by simp [hpreorder]
    obtain ⟨hkind, hfails⟩ := ownFailure?_eq_some_iff_failsAlone.1 hown
    refine ⟨x, (mem_preorder_iff e x).1 hx, hkind, hfails, fun z hz hclass hlt => ?_⟩
    have hmem : z ∈ before := (mem_before_iff hpreorder).2 ⟨hz, hlt⟩
    exact ownFailure?_eq_none_iff.1 (hbefore z hmem) hclass
  · rintro ⟨x, hx⟩
    obtain ⟨before, after, hpreorder⟩ :=
      List.append_of_mem ((mem_preorder_iff e x).2 hx.visible)
    refine ⟨before, x, after, hpreorder,
      ownFailure?_eq_some_iff_failsAlone.2 ⟨hx.isClass, hx.fails⟩, fun z hz => ?_⟩
    obtain ⟨hvisible, hlt⟩ := (mem_before_iff hpreorder).1 hz
    exact ownFailure?_eq_none_iff.2 fun hclass => hx.first z hvisible hclass hlt

/-- An expression fails when one of its visible classes fails on its own. -/
theorem exists_failsAlone_iff :
    (∃ err, e.FailsAlone cx err) ↔
      e.HasNode fun x => x.kind = .charClass ∧ ∃ err, x.FailsAlone cx err := by
  constructor
  · rintro ⟨err, herr⟩
    obtain ⟨x, hx⟩ := failsAlone_iff_firstFailing.1 herr
    exact ⟨x.path, x.expr, hx.visible, hx.isClass, err, hx.fails⟩
  · rintro ⟨path, x, hat, hkind, err, hfails⟩
    have hsome : e.failure? cx.rule cx.classLimit ≠ none := by
      -- Without a failure no listed node has one of its own.
      intro hnone
      have hown := List.findSome?_eq_none_iff.1 hnone ⟨path, x⟩ ((mem_preorder_iff e _).2 hat)
      rw [ownFailure?_eq_some_iff_failsAlone.2 ⟨hkind, hfails⟩] at hown
      exact nomatch hown
    obtain ⟨err', herr'⟩ := Option.ne_none_iff_exists'.1 hsome
    exact ⟨err', failsAlone_iff.2 herr'⟩

/-- A derivation fails exactly when a visible class of its expression fails on its own, and then
with the error of the leftmost such class: it names the rule and, as they are written, the endpoints
of the first malformed range of that class. An expression of another kind fails only with the error
of one of its parts. -/
theorem derive_fails_iff_class (cx : RuleContext) (e : Expr) (s : Scope) (ledger : Ledger) :
    ((∃ err, ((e.derive cx s).runFrom ledger).1 = .error err) ↔
      e.HasNode fun x => x.kind = .charClass ∧ ∃ err, x.FailsAlone cx err) ∧
    (∀ err, ((e.derive cx s).runFrom ledger).1 = .error err ↔ ∃ x, e.FirstFailing cx x err) ∧
    (∀ x err, e.FirstFailing cx x err → ∃ parts, x.expr = .charClass parts false false ∧
      CharClass.FirstMalformed parts err.lower err.upper ∧ err.rule = cx.rule) ∧
    (e.kind ≠ .charClass → ∀ err, ((e.derive cx s).runFrom ledger).1 = .error err →
      ∃ part ∈ e.parts, part.FailsAlone cx err) := by
  simp only [← failsAlone_iff_runFrom]
  refine ⟨exists_failsAlone_iff, fun err => failsAlone_iff_firstFailing, ?_, ?_⟩
  · exact fun x err hx => hx.fails.exists_firstMalformed hx.isClass
  · exact fun hkind err => exists_part_failsAlone hkind

/-- Classes with malformed ranges beneath a text, in a class that is inverted and at the end of an
action and of an alternative. -/
def malformedAround : Expr :=
  .sequence [.text (.charClass [.range "9" "0"] false false),
    .charClass [.range "8" "0"] true false,
    .action "code" (.optional (.charClass [.char "x", .range "b" "a", .range "d" "c"] false false)),
    .choice [.any, .charClass [.range "" "f"] false false]]

/-- The first malformed range of the third element is reported, and the alternative on its own would
report another. -/
theorem derive_fails_iff_class_around :
    ((malformedAround.derive ⟨"R", [], 256⟩ (Scope.empty.bind "l" [.text])).runFrom {}).1 =
        .error ⟨"R", "b", "a"⟩ ∧
      (∃ x, malformedAround.FirstFailing ⟨"R", [], 256⟩ x ⟨"R", "b", "a"⟩ ∧
        ∃ parts, x.expr = .charClass parts false false ∧
          CharClass.FirstMalformed parts "b" "a") ∧
      (∃ part ∈ malformedAround.parts, part.FailsAlone ⟨"R", [], 256⟩ ⟨"R", "b", "a"⟩) ∧
      (((Expr.charClass [.range "" "f"] false false).derive ⟨"R", [], 256⟩ .empty).runFrom {}).1 =
        .error ⟨"R", "", "f"⟩ := by
  obtain ⟨-, hfirst, hrange, hpart⟩ := derive_fails_iff_class ⟨"R", [], 256⟩ malformedAround
    (Scope.empty.bind "l" [.text]) {}
  have hrun : ((malformedAround.derive ⟨"R", [], 256⟩
      (Scope.empty.bind "l" [.text])).runFrom {}).1 = .error ⟨"R", "b", "a"⟩ := rfl
  obtain ⟨x, hx⟩ := (hfirst ⟨"R", "b", "a"⟩).1 hrun
  obtain ⟨parts, hparts, hmalformed, -⟩ := hrange x _ hx
  exact ⟨hrun, ⟨x, hx, parts, hparts, hmalformed⟩, hpart nofun _ hrun, rfl⟩

end Expr

end GrammarTypes
