import GrammarTypes.Yield
import GrammarTypes.Expr

/-!
# The nodes of an expression

A derivation looks into the parts of an expression, but not beneath a text or a lookahead. The nodes
that it reaches that way are the visible ones; a node is known by its path, the places of the parts
on the way to it. `Expr.preorder` lists the visible nodes with each before those beneath it, and
`Expr.postorder` with each after them. Both list the nodes found by `Expr.at?`
(`mem_preorder_iff`, `postorder_perm`) in the orders of paths that their names say
(`preorder_sorted`, `postorder_sorted`).
-/

namespace GrammarTypes

namespace Expr

/-- The parts of an expression that a derivation looks into. -/
def parts : Expr → List Expr
  | .action _ e | .group e | .labeled _ e | .named _ e | .oneOrMore e | .optional e
  | .zeroOrMore e => [e]
  | .choice es | .sequence es => es
  | .any | .charClass .. | .literal .. | .ruleRef _ | .semanticAnd _ | .semanticNot _
  | .simpleAnd _ | .simpleNot _ | .text _ => []

mutual

/-- A property that every expression takes over from its parts holds of all expressions. -/
theorem induction_on_parts {P : Expr → Prop} (h : ∀ e, (∀ part ∈ e.parts, P part) → P e) :
    ∀ e, P e
  | .action _ e | .group e | .labeled _ e | .named _ e | .oneOrMore e | .optional e
  | .zeroOrMore e => h _ fun _ hp => List.mem_singleton.1 hp ▸ induction_on_parts h e
  | .choice es | .sequence es => h _ (induction_on_all_parts h es)
  | .any | .charClass .. | .literal .. | .ruleRef _ | .semanticAnd _ | .semanticNot _
  | .simpleAnd _ | .simpleNot _ | .text _ => h _ fun _ hp => nomatch hp

/-- A property that every expression takes over from its parts holds of all in a list. -/
theorem induction_on_all_parts {P : Expr → Prop} (h : ∀ e, (∀ part ∈ e.parts, P part) → P e) :
    ∀ es : List Expr, ∀ e ∈ es, P e
  | [], _, he => nomatch he
  | e :: es, e', he => by
    rcases List.mem_cons.1 he with heq | he
    · rw [heq]
      exact induction_on_parts h e
    · exact induction_on_all_parts h es e' he

end

/-! ## Listings -/

/-- A visible node of an expression. -/
structure Node where
  /-- The places of the parts on the way to the node. -/
  path : List Nat
  /-- What stands there. -/
  expr : Expr

/-- A node of the part at a place, as a node of the whole. -/
def Node.under (i : Nat) (x : Node) : Node := ⟨i :: x.path, x.expr⟩

mutual

/-- The visible nodes beneath an expression, each put by `place` among those beneath it. -/
def beneath (place : Node → List Node → List Node) : Expr → List Node
  | .action _ e | .group e | .labeled _ e | .named _ e | .oneOrMore e | .optional e
  | .zeroOrMore e => (place ⟨[], e⟩ (beneath place e)).map (Node.under 0)
  | .choice es | .sequence es => beneathAll place 0 es
  | .any | .charClass .. | .literal .. | .ruleRef _ | .semanticAnd _ | .semanticNot _
  | .simpleAnd _ | .simpleNot _ | .text _ => []

/-- The visible nodes of parts that stand at consecutive places. -/
def beneathAll (place : Node → List Node → List Node) : Nat → List Expr → List Node
  | _, [] => []
  | i, e :: es =>
    (place ⟨[], e⟩ (beneath place e)).map (Node.under i) ++ beneathAll place (i + 1) es

end

/-- The visible nodes of an expression, each before those beneath it. -/
def preorder (e : Expr) : List Node := ⟨[], e⟩ :: beneath List.cons e

/-- The visible nodes of an expression, each after those beneath it. -/
def postorder (e : Expr) : List Node := beneath (fun x xs => xs ++ [x]) e ++ [⟨[], e⟩]

/-- The nodes beneath an expression are those of its parts. -/
theorem beneath_eq (place : Node → List Node → List Node) (e : Expr) :
    beneath place e = beneathAll place 0 e.parts := by
  cases e <;> simp [beneath, beneathAll, parts]

/-- The expression at a path of visible nodes. -/
def at? : Expr → List Nat → Option Expr
  | e, [] => some e
  | e, i :: path => e.parts[i]?.bind fun part => at? part path

/-- The nodes of parts at consecutive places are the nodes of the parts, found by their place. -/
theorem mem_beneathAll_iff (x : Node) : ∀ (i : Nat) (es : List Expr),
    (∀ e ∈ es, ∀ x : Node, x ∈ e.preorder ↔ e.at? x.path = some x.expr) →
      (x ∈ beneathAll List.cons i es ↔
        ∃ j path, x.path = (i + j) :: path ∧ es[j]?.bind (at? · path) = some x.expr)
  | i, [], _ => by simp [beneathAll]
  | i, e :: es, h => by
    have hrest := mem_beneathAll_iff x (i + 1) es fun e' he' => h e' (List.mem_cons_of_mem _ he')
    -- The nodes of the first part have its place at the beginning of their paths.
    have hfirst : x ∈ (preorder e).map (Node.under i) ↔
        ∃ path, x.path = i :: path ∧ e.at? path = some x.expr := by
      obtain ⟨path, expr⟩ := x
      simp only [List.mem_map, h e List.mem_cons_self, Node.under, Node.mk.injEq]
      constructor
      · rintro ⟨y, hy, rfl, rfl⟩
        exact ⟨y.path, rfl, hy⟩
      · rintro ⟨path', rfl, hat⟩
        exact ⟨⟨path', expr⟩, hat, rfl, rfl⟩
    rw [beneathAll, List.mem_append, hrest]
    constructor
    · rintro (hx | ⟨j, path, hpath, hat⟩)
      · obtain ⟨path, hpath, hat⟩ := hfirst.1 hx
        exact ⟨0, path, hpath, hat⟩
      · exact ⟨j + 1, path, by rw [hpath, Nat.add_right_comm, Nat.add_assoc], hat⟩
    · rintro ⟨j, path, hpath, hat⟩
      cases j with
      | zero => exact .inl (hfirst.2 ⟨path, hpath, hat⟩)
      | succ j => exact .inr ⟨j, path, by rw [hpath, Nat.add_right_comm, Nat.add_assoc], hat⟩

/-- The nodes listed are those that their paths lead to. -/
theorem mem_preorder_iff (e : Expr) : ∀ x : Node, x ∈ e.preorder ↔ e.at? x.path = some x.expr := by
  induction e using induction_on_parts with
  | h e ih =>
    rintro ⟨path, expr⟩
    rw [preorder, beneath_eq, List.mem_cons, mem_beneathAll_iff _ 0 _ ih, Node.mk.injEq]
    cases path with
    | nil => simp [at?, eq_comm]
    | cons i path =>
      constructor
      · rintro (⟨hpath, -⟩ | ⟨j, path', hpath, hat⟩)
        · exact nomatch hpath
        · obtain ⟨rfl, rfl⟩ := List.cons.inj hpath
          rwa [Nat.zero_add]
      · exact fun hat => .inr ⟨i, path, by rw [Nat.zero_add], hat⟩

/-- The nodes of parts do not depend on the order that they are listed in. -/
theorem beneathAll_perm : ∀ (i : Nat) (es : List Expr), (∀ e ∈ es, e.postorder.Perm e.preorder) →
    (beneathAll (fun x xs => xs ++ [x]) i es).Perm (beneathAll List.cons i es)
  | _, [], _ => .nil
  | i, e :: es, h =>
    ((h e List.mem_cons_self).map (Node.under i)).append
      (beneathAll_perm (i + 1) es fun e' he' => h e' (List.mem_cons_of_mem _ he'))

/-- The two listings have the same nodes. -/
theorem postorder_perm (e : Expr) : e.postorder.Perm e.preorder := by
  induction e using induction_on_parts with
  | h e ih =>
    rw [postorder, preorder, beneath_eq, beneath_eq]
    exact (List.perm_append_singleton _ _).trans ((beneathAll_perm 0 e.parts ih).cons _)

/-! ## Orders of paths -/

/-- The order in which a path comes after those that it is the beginning of, and otherwise the path
through the earlier part comes first. -/
def EndsBefore : List Nat → List Nat → Prop
  | [], _ => False
  | _ :: _, [] => True
  | i :: p, j :: q => i < j ∨ i = j ∧ EndsBefore p q

/-- An order of paths that compares the first places at which they differ. -/
def ByPlace (R : List Nat → List Nat → Prop) : Prop :=
  ∀ i j p q, R (i :: p) (j :: q) ↔ i < j ∨ i = j ∧ R p q

/-- The path to a node of parts at consecutive places begins with one of these places. -/
theorem path_of_mem_beneathAll {place : Node → List Node → List Node} {x : Node} :
    ∀ {i : Nat} {es : List Expr}, x ∈ beneathAll place i es → ∃ j path, i ≤ j ∧ x.path = j :: path
  | _, [], hx => nomatch hx
  | i, e :: es, hx => by
    rcases List.mem_append.1 hx with hx | hx
    · obtain ⟨z, -, rfl⟩ := List.mem_map.1 hx
      exact ⟨i, z.path, Nat.le_refl i, rfl⟩
    · obtain ⟨j, path, hj, hpath⟩ := path_of_mem_beneathAll hx
      exact ⟨j, path, Nat.le_of_succ_le hj, hpath⟩

/-- The nodes of parts stand in the order of their paths when those of each part do. -/
theorem beneathAll_sorted {R : List Nat → List Nat → Prop} (hR : ByPlace R)
    (place : Node → List Node → List Node) : ∀ (i : Nat) (es : List Expr),
    (∀ e ∈ es, (place ⟨[], e⟩ (beneath place e)).Pairwise fun x y => R x.path y.path) →
      (beneathAll place i es).Pairwise fun x y => R x.path y.path
  | _, [], _ => .nil
  | i, e :: es, h => by
    have hrest :=
      beneathAll_sorted hR place (i + 1) es fun e' he' => h e' (List.mem_cons_of_mem _ he')
    refine List.pairwise_append.2 ⟨?_, hrest, fun x hx y hy => ?_⟩
    · exact List.pairwise_map.2
        ((h e List.mem_cons_self).imp fun hxy => (hR i i _ _).2 (.inr ⟨rfl, hxy⟩))
    -- A node of the first part and a node of a later one differ in the first place of their paths.
    · obtain ⟨z, -, rfl⟩ := List.mem_map.1 hx
      obtain ⟨j, path, hj, hpath⟩ := path_of_mem_beneathAll hy
      rw [hpath]
      exact (hR i j _ _).2 (.inl hj)

/-- Each node stands before those beneath it, and otherwise the node of the earlier part first. -/
theorem preorder_sorted (e : Expr) : e.preorder.Pairwise fun x y => x.path < y.path := by
  have hlex : ByPlace (· < ·) := fun i j p q => List.cons_lt_cons_iff
  induction e using induction_on_parts with
  | h e ih =>
    rw [preorder, beneath_eq]
    refine List.pairwise_cons.2 ⟨fun x hx => ?_, beneathAll_sorted hlex List.cons 0 e.parts ih⟩
    obtain ⟨j, path, -, hpath⟩ := path_of_mem_beneathAll hx
    rw [hpath]
    exact List.nil_lt_cons j path

/-- Each node stands after those beneath it, and otherwise the node of the earlier part first. -/
theorem postorder_sorted (e : Expr) :
    e.postorder.Pairwise fun x y => EndsBefore x.path y.path := by
  have hends : ByPlace EndsBefore := fun i j p q => Iff.rfl
  induction e using induction_on_parts with
  | h e ih =>
    rw [postorder, beneath_eq]
    refine List.pairwise_append.2 ⟨beneathAll_sorted hends (fun x xs => xs ++ [x]) 0 e.parts ih,
      List.pairwise_singleton _ _, fun x hx y hy => ?_⟩
    obtain rfl := List.mem_singleton.1 hy
    obtain ⟨j, path, -, hpath⟩ := path_of_mem_beneathAll hx
    rw [hpath]
    exact trivial

/-- The nodes listed before a node are those with an earlier path. -/
theorem mem_before_iff {e : Expr} {before after : List Node} {x z : Node}
    (h : e.preorder = before ++ x :: after) :
    z ∈ before ↔ e.at? z.path = some z.expr ∧ z.path < x.path := by
  have hsorted := e.preorder_sorted
  rw [h, List.pairwise_append] at hsorted
  obtain ⟨-, hafter, hbefore⟩ := hsorted
  rw [← mem_preorder_iff, h]
  constructor
  · exact fun hz => ⟨List.mem_append_left _ hz, hbefore z hz x List.mem_cons_self⟩
  · rintro ⟨hz, hlt⟩
    refine (List.mem_append.1 hz).resolve_right fun hz => ?_
    rcases List.mem_cons.1 hz with rfl | hz
    · exact List.lt_irrefl z.path hlt
    · exact List.lt_asymm hlt ((List.pairwise_cons.1 hafter).1 z hz)

/-! ## Properties of some node -/

/-- Some visible node of the expression has the property. -/
def HasNode (e : Expr) (p : Expr → Prop) : Prop := ∃ path x, e.at? path = some x ∧ p x

/-- A property of some node is a property of one of the nodes listed. -/
theorem hasNode_iff_exists_mem {e : Expr} {p : Expr → Prop} :
    e.HasNode p ↔ ∃ x ∈ e.preorder, p x.expr := by
  constructor
  · rintro ⟨path, x, hat, hx⟩
    exact ⟨⟨path, x⟩, (e.mem_preorder_iff ⟨path, x⟩).2 hat, hx⟩
  · rintro ⟨x, hmem, hx⟩
    exact ⟨x.path, x.expr, (e.mem_preorder_iff x).1 hmem, hx⟩

/-- A node with a property is the expression itself or a node of one of its parts. -/
theorem hasNode_iff {e : Expr} {p : Expr → Prop} :
    e.HasNode p ↔ p e ∨ ∃ part ∈ e.parts, part.HasNode p := by
  constructor
  · rintro ⟨_ | ⟨i, path⟩, x, hat, hx⟩
    · obtain rfl := Option.some.inj hat
      exact .inl hx
    · obtain ⟨part, hpart, hat⟩ := Option.bind_eq_some_iff.1 hat
      exact .inr ⟨part, List.mem_of_getElem? hpart, path, x, hat, hx⟩
  · rintro (he | ⟨part, hpart, path, x, hat, hx⟩)
    · exact ⟨[], e, rfl, he⟩
    · obtain ⟨i, hi⟩ := List.mem_iff_getElem?.1 hpart
      refine ⟨i :: path, x, ?_, hx⟩
      rw [at?, hi, Option.bind_some, hat]

/-- A property that no node has is one that no node of a part has. -/
theorem not_hasNode_part {e part : Expr} {p : Expr → Prop} (h : ¬ e.HasNode p)
    (hpart : part ∈ e.parts) : ¬ part.HasNode p :=
  fun hp => h (hasNode_iff.2 (.inr ⟨part, hpart, hp⟩))

end Expr

end GrammarTypes
