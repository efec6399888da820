import GrammarTypes.Proofs.Derivation.Induction
import GrammarTypes.Proofs.Expr.Code
import GrammarTypes.Proofs.Helper.Names
import GrammarTypes.Proofs.Yield
import Mathlib.Data.List.Nodup

/-!
# Allocation of helpers

A derivation makes one helper for each visible node with code. It takes the numbers on the way down,
so that a node has a smaller number than those beneath it, and collects the helpers on the way up,
so that a helper stands after those beneath it. `Expr.Allocates` says both at once: the helpers are
listed as the nodes in post-order, and each is named by the place of its node in pre-order.
-/

namespace GrammarTypes

/-- What a helper takes from its node: its name, what its code is for, and the code. -/
def Helper.identity (h : Helper) : String × Helper.Kind × String := (h.name, h.kind, h.code)

namespace Expr

/-- The helpers are those of the expression when `name` gives the name of the `j`-th node with code
in pre-order. -/
def Allocates (e : Expr) (name : Nat → String) (hs : List Helper) : Prop :=
  hs.map Helper.identity =
    e.codePostorder.map fun x => (name (e.codePreorder.idxOf x), x.kind, x.code)

/-- The helpers are those of parts at consecutive places. -/
def AllocatesAll (i : Nat) (es : List Expr) (name : Nat → String) (hs : List Helper) : Prop :=
  hs.map Helper.identity =
    (codePostorderAll i es).map fun x => (name ((codePreorderAll i es).idxOf x), x.kind, x.code)

/-! ## Places of nodes -/

/-- A node keeps its place when all nodes are seen from the whole. -/
theorem idxOf_map_under (i : Nat) (x : CodeNode) : ∀ xs : List CodeNode,
    (xs.map (CodeNode.under i)).idxOf (x.under i) = xs.idxOf x
  | [] => rfl
  | y :: ys => by
    have hunder : (y.under i == x.under i) = (y == x) := by
      rw [Bool.eq_iff_iff, beq_iff_eq, beq_iff_eq]
      obtain ⟨p, k, c⟩ := x
      obtain ⟨q, l, d⟩ := y
      simp [CodeNode.under]
    rw [List.map_cons, List.idxOf_cons, List.idxOf_cons, hunder, idxOf_map_under i x ys]

/-- The nodes of the first part come first in pre-order. -/
theorem idxOf_codePreorderAll_cons_left {i : Nat} {e : Expr} {es : List Expr} {x : CodeNode}
    (hx : x ∈ e.codePostorder) :
    (codePreorderAll i (e :: es)).idxOf (x.under i) = e.codePreorder.idxOf x := by
  have hmem : x.under i ∈ e.codePreorder.map (CodeNode.under i) :=
    List.mem_map_of_mem (e.codeOrders.perm.mem_iff.1 hx)
  rw [codePreorderAll_cons, List.idxOf_append_of_mem hmem, idxOf_map_under]

/-- The nodes of the other parts come after those of the first in pre-order. -/
theorem idxOf_codePreorderAll_cons_right {i : Nat} {e : Expr} {es : List Expr} {x : CodeNode}
    (hx : x ∈ codePostorderAll (i + 1) es) :
    (codePreorderAll i (e :: es)).idxOf x =
      e.helperCount + (codePreorderAll (i + 1) es).idxOf x := by
  have hnot : x ∉ e.codePreorder.map (CodeNode.under i) := by
    intro hmem
    obtain ⟨y, -, rfl⟩ := List.mem_map.1 hmem
    obtain ⟨j, path, hj, hpath⟩ := path_of_mem_code? hx
    obtain ⟨rfl, -⟩ := List.cons.inj hpath
    omega
  rw [codePreorderAll_cons, List.idxOf_append_of_notMem hnot, List.length_map,
    length_codePreorder]

/-! ## Allocation by the kinds of expression -/

variable {rule : String} {limit : Nat} {name : Nat → String} {hs : List Helper}

/-- The helpers of several parts are those of the first and then those of the rest. -/
theorem AllocatesAll.cons {i : Nat} {e : Expr} {es : List Expr} {hs' : List Helper}
    (he : e.Allocates name hs)
    (hes : AllocatesAll (i + 1) es (fun j => name (e.helperCount + j)) hs') :
    AllocatesAll i (e :: es) name (hs ++ hs') := by
  unfold AllocatesAll
  -- In both orders the nodes of the first part come first, so the places of the others are counted
  -- from the number of its helpers on.
  rw [List.map_append, he, hes, codePostorderAll_cons, List.map_append, List.map_map]
  congr 1
  · refine List.map_congr_left fun x hx => ?_
    rw [Function.comp, idxOf_codePreorderAll_cons_left hx]
    rfl
  · refine List.map_congr_left fun x hx => ?_
    rw [idxOf_codePreorderAll_cons_right hx]

/-- An expression without code of its own has the helpers of its parts. -/
theorem Allocates.of_parts {e : Expr} (hcode : e.code? = none)
    (h : AllocatesAll 0 e.parts name hs) : e.Allocates name hs := by
  have hown : Node.code? ⟨[], e⟩ = none := by simp [Node.code?, hcode]
  unfold Allocates
  rw [h, codePostorder_eq, codePreorder_eq, hown, Option.toList_none, List.append_nil,
    List.nil_append]

/-- An expression without code of its own has the helpers of its only part. -/
theorem Allocates.of_part {e inner : Expr} (hcode : e.code? = none) (hparts : e.parts = [inner])
    (h : inner.Allocates name hs) : e.Allocates name hs := by
  refine .of_parts hcode ?_
  rw [hparts, ← List.append_nil hs]
  exact .cons h rfl

/-- The helper of an action comes last and takes the first name. -/
theorem Allocates.action {code : String} {inner : Expr} {h : Helper}
    (hinner : inner.Allocates (fun j => name (j + 1)) hs)
    (hh : h.identity = (name 0, .action, code)) :
    (Expr.action code inner).Allocates name (hs ++ [h]) := by
  have hparts : AllocatesAll 0 [inner] (fun j => name (j + 1)) (hs ++ []) := .cons hinner rfl
  have hown : Node.code? ⟨[], .action code inner⟩ = some ⟨[], .action, code⟩ := rfl
  unfold Allocates
  rw [codePostorder_eq, codePreorder_eq, hown, Option.toList_some, List.singleton_append,
    List.map_append, List.map_append, List.map_singleton, List.map_singleton, hh,
    List.idxOf_cons_self]
  congr 1
  -- A node beneath the action is not the action, so its place is one more than among the parts.
  rw [List.append_nil] at hparts
  refine hparts.trans (List.map_congr_left fun x hx => ?_)
  obtain ⟨j, path, -, hpath⟩ := path_of_mem_code? hx
  have hne : (⟨[], .action, code⟩ : CodeNode) ≠ x := by
    rintro rfl
    exact nomatch hpath
  rw [List.idxOf_cons_ne _ hne]
  rfl

/-- A condition has a single helper. -/
theorem Allocates.condition {e : Expr} {code : String} {h : Helper} (he : Condition e code)
    (hh : h.identity = (name 0, .predicate, code)) : e.Allocates name [h] := by
  have hlists : e.codePreorder = [⟨[], .predicate, code⟩] ∧
      e.codePostorder = [⟨[], .predicate, code⟩] := by
    cases he <;> exact ⟨rfl, rfl⟩
  unfold Allocates
  rw [hlists.1, hlists.2, List.map_singleton, List.map_singleton, hh, List.idxOf_cons_self]

/-- Helpers numbered along a chain are those of its expressions. -/
theorem allocatesAll_of_chain {after : Scope → Yield → Scope} {es : List Expr} {s : Scope}
    {n : Nat} {ys : List Yield} (h : Chain (fun e _ n y =>
      e.Allocates (fun j => Helper.numberedName rule (n + j)) y.helpers) after es s n ys)
    (i : Nat) :
    AllocatesAll i es (fun j => Helper.numberedName rule (n + j)) (ys.flatMap Yield.helpers) := by
  induction h generalizing i with
  | nil s n => rfl
  | cons hy _ ih =>
    rw [List.flatMap_cons]
    refine .cons hy ?_
    have hrest := ih (i + 1)
    simp only [Nat.add_assoc] at hrest
    exact hrest

/-- Every result has the helpers of its expression, numbered in pre-order from the number that it
is derived at. -/
theorem allocates_preserved : Preserved rule limit fun e _ n y =>
    e.Allocates (fun j => Helper.numberedName rule (n + j)) y.helpers where
  leaf he _ := by cases he <;> rfl
  condition he := .condition he rfl
  passes he h := by cases he <;> exact .of_part rfl rfl h
  wraps he h := by cases he <;> exact .of_part rfl rfl h
  capture h := .of_part rfl rfl h
  action h := by
    rw [Yield.helpers_underAction]
    refine .action ?_ rfl
    simpa only [Nat.add_assoc, Nat.add_comm 1] using h
  sequence h := by
    rw [Yield.helpers_sequence]
    exact .of_parts rfl (allocatesAll_of_chain h 0)
  choice h := by
    rw [Yield.helpers_choice]
    exact .of_parts rfl (allocatesAll_of_chain h 0)

/-! ## Allocation in a rule -/

/-- The name of the helper of a rule for the `j`-th node with code in pre-order. An action at the
top, display names aside, has the rule's own name, and then the others are numbered by their
places. -/
def ruleHelperName (rule : String) (e : Expr) (j : Nat) : String :=
  match e.topAction? with
  | some _ => if j = 0 then Helper.ruleName rule else Helper.numberedName rule j
  | none => Helper.numberedName rule (1 + j)

/-- The action at the top is what stands beneath the display names. -/
theorem unnamed_eq_action {e inner : Expr} {code : String}
    (h : e.topAction? = some (code, inner)) : e.unnamed = .action code inner := by
  unfold topAction? at h
  split at h
  · next heq =>
    cases h
    exact heq
  · exact nomatch h

/-- Different nodes of a rule have helpers with different names. -/
theorem ruleHelperName_injective (rule : String) (e : Expr) :
    Function.Injective (e.ruleHelperName rule) := by
  intro i j hij
  cases htop : e.topAction? with
  | none =>
    simp only [ruleHelperName, htop] at hij
    exact Nat.add_left_cancel (Helper.numberedName_inj.1 hij).2
  | some top =>
    simp only [ruleHelperName, htop] at hij
    split at hij <;> split at hij
    · omega
    · exact absurd hij (Helper.ruleName_ne_numberedName rule j)
    · exact absurd hij.symm (Helper.ruleName_ne_numberedName rule i)
    · exact (Helper.numberedName_inj.1 hij).2

/-- Display names at the top make no difference to the helpers. -/
theorem Allocates.of_unnamed {e : Expr} (h : e.unnamed.Allocates name hs) :
    e.Allocates name hs := by
  fun_induction unnamed e with
  | case1 display e ih => exact .of_part rfl rfl (ih h)
  | case2 e => exact h

/-- The helpers are named by the places of their nodes, in some order. -/
theorem Allocates.names_perm {e : Expr} (h : e.Allocates name hs) :
    (hs.map Helper.name).Perm ((List.range e.helperCount).map name) := by
  have hnames : hs.map Helper.name =
      e.codePostorder.map fun x => name (e.codePreorder.idxOf x) := by
    have hfst := congrArg (List.map Prod.fst) h
    rwa [List.map_map, List.map_map] at hfst
  have hplaces : e.codePreorder.map e.codePreorder.idxOf = List.range e.helperCount := by
    refine List.ext_getElem (by simp [length_codePreorder]) fun j hj _ => ?_
    rw [List.getElem_map, List.getElem_range, e.codePreorder_nodup.idxOf_getElem]
  rw [hnames, ← hplaces, List.map_map]
  exact e.codeOrders.perm.map _

/-- There is a helper for each node with code. -/
theorem Allocates.length_eq {e : Expr} (h : e.Allocates name hs) : hs.length = e.helperCount := by
  have hlength := h.names_perm.length_eq
  rwa [List.length_map, List.length_map, List.length_range] at hlength

/-- Helpers with different names for different nodes have different names. -/
theorem Allocates.names_nodup {e : Expr} (hname : Function.Injective name)
    (h : e.Allocates name hs) : (hs.map Helper.name).Nodup :=
  h.names_perm.nodup_iff.2 (List.nodup_range.map hname)

/-- The result of a rule has the helpers of its expression, under the names of the rule. -/
theorem allocates_ruleResult {e : Expr} {y : Yield} (h : e.ruleResult rule limit 1 = .ok y) :
    e.Allocates (e.ruleHelperName rule) y.helpers := by
  refine .of_unnamed ?_
  unfold ruleHelperName
  cases htop : e.topAction? with
  | none =>
    rw [ruleResult_of_no_topAction htop] at h
    exact allocates_preserved.of_result e.unnamed .empty 1 y h
  | some top =>
    obtain ⟨code, inner⟩ := top
    rw [ruleResult_of_topAction htop] at h
    obtain ⟨z, hz, rfl⟩ := Except.map_eq_ok_iff.1 h
    have hinner := allocates_preserved.of_result inner .empty 1 z hz
    rw [unnamed_eq_action htop, Yield.helpers_underAction]
    refine .action ?_ rfl
    simpa only [Nat.add_comm 1, Nat.add_one_ne_zero, if_false] using hinner

/-- The helpers of a derivation are exactly those of the visible nodes with code. They are listed in
post-order with the kind and code of their nodes; the `j`-th node in pre-order has the number of the
next helper plus `j` in the name of its helper; and the next number grows by the number of nodes. In
a rule, an action at the top has the rule's own name and comes last, and the others are numbered
from 1. No two helpers of one derivation have the same name. -/
theorem helpers_exactly_allocated :
    (∀ e : Expr, e.CodeOrders e.codePreorder e.codePostorder) ∧
    (∀ (cx : RuleContext) (e : Expr) (s : Scope) (ledger ledger' : Ledger) (y : Yield),
      (e.derive cx s).runFrom ledger = (.ok y, ledger') →
        e.Allocates (fun j => Helper.numberedName cx.rule (ledger.next + j)) y.helpers ∧
          ledger'.next = ledger.next + e.codePreorder.length ∧
          (y.helpers.map Helper.name).Nodup) ∧
    ∀ (cx : RuleContext) (e : Expr) (log : List Event) (ledger' : Ledger) (y : Yield),
      (e.deriveRule cx).runFrom ⟨1, log⟩ = (.ok y, ledger') →
        e.Allocates (e.ruleHelperName cx.rule) y.helpers ∧
          (∀ code inner, e.topAction? = some (code, inner) →
            (y.helpers.map Helper.identity).getLast? =
              some (Helper.ruleName cx.rule, .action, code)) ∧
          ledger'.next = 1 + e.numberedCount ∧
          (y.helpers.map Helper.name).Nodup := by
  refine ⟨codeOrders, ?_, ?_⟩
  · intro cx e s ledger ledger' y hrun
    obtain ⟨hresult, hnext⟩ := (derive_computes cx e s).of_runFrom hrun
    have halloc := allocates_preserved.of_result e s ledger.next y hresult
    refine ⟨halloc, by rw [hnext, length_codePreorder], halloc.names_nodup fun i j hij => ?_⟩
    exact Nat.add_left_cancel (Helper.numberedName_inj.1 hij).2
  · intro cx e log ledger' y hrun
    obtain ⟨hresult, hnext⟩ := (deriveRule_computes cx e).of_runFrom hrun
    have halloc := allocates_ruleResult hresult
    refine ⟨halloc, fun code inner htop => ?_, hnext,
      halloc.names_nodup (e.ruleHelperName_injective cx.rule)⟩
    rw [ruleResult_of_topAction htop] at hresult
    obtain ⟨z, -, rfl⟩ := Except.map_eq_ok_iff.1 hresult
    simp [Yield.helpers_underAction, Helper.identity]

/-- An action over an action with a condition and over a text: the action in the text has no helper,
and the condition comes before the inner action and has the larger number. -/
theorem helpers_exactly_allocated_nested : ∃ y ledger',
    ((Expr.named "pair" (.action "top" (.sequence [.action "inner" (.semanticAnd "p"),
      .text (.action "hidden" .any)]))).deriveRule ⟨"R", [], 256⟩).runFrom ⟨1, []⟩ =
        (.ok y, ledger') ∧
      y.helpers.map Helper.identity =
        [("peg$parseR$2", .predicate, "p"), ("peg$parseR$1", .action, "inner"),
          ("peg$parseR", .action, "top")] := by
  refine ⟨_, _, rfl, ?_⟩
  exact (helpers_exactly_allocated.2.2 ⟨"R", [], 256⟩ (.named "pair" (.action "top" (.sequence
    [.action "inner" (.semanticAnd "p"), .text (.action "hidden" .any)]))) [] _ _ rfl).1.trans
      (by decide +kernel)

end Expr

end GrammarTypes
