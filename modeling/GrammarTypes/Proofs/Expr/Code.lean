import GrammarTypes.Proofs.Derivation.Result
import GrammarTypes.Proofs.Expr.Nodes

/-!
# The code of an expression

The visible nodes that have code are the actions and the conditions. They are listed in two orders,
before and after those beneath them (`Expr.codeOrders`). A node with code may stand beneath a
choice, whose alternatives do not see the labels bound outside; `Expr.choiceMarks` says of each node
whether it does.
-/

namespace GrammarTypes

namespace Expr

/-- The code of an expression of its own, with what it is for. -/
def code? : Expr → Option (Helper.Kind × String)
  | .action code _ => some (.action, code)
  | .semanticAnd code | .semanticNot code => some (.predicate, code)
  | .any | .charClass .. | .choice _ | .group _ | .labeled .. | .literal .. | .named ..
  | .oneOrMore _ | .optional _ | .ruleRef _ | .sequence _ | .simpleAnd _ | .simpleNot _ | .text _
  | .zeroOrMore _ => none

/-- A visible node that has code. -/
structure CodeNode where
  /-- The places of the parts on the way to the node. -/
  path : List Nat
  /-- What the code is for. -/
  kind : Helper.Kind
  /-- The code, verbatim. -/
  code : String
  deriving DecidableEq, Repr

/-- A node with code of the part at a place, as a node of the whole. -/
def CodeNode.under (i : Nat) (x : CodeNode) : CodeNode := { x with path := i :: x.path }

/-- A node as a node with code, if it has any. -/
def Node.code? (x : Node) : Option CodeNode :=
  x.expr.code?.map fun c => ⟨x.path, c.1, c.2⟩

/-- The visible nodes with code, each before those beneath it. -/
def codePreorder (e : Expr) : List CodeNode := e.preorder.filterMap Node.code?

/-- The visible nodes with code, each after those beneath it. -/
def codePostorder (e : Expr) : List CodeNode := e.postorder.filterMap Node.code?

/-- The nodes with code of parts at consecutive places, each before those beneath it. -/
def codePreorderAll (i : Nat) (es : List Expr) : List CodeNode :=
  (beneathAll List.cons i es).filterMap Node.code?

/-- The nodes with code of parts at consecutive places, each after those beneath it. -/
def codePostorderAll (i : Nat) (es : List Expr) : List CodeNode :=
  (beneathAll (fun x xs => xs ++ [x]) i es).filterMap Node.code?

/-! ## The listings by recursion -/

/-- The code of a node does not depend on where it stands. -/
theorem filterMap_code?_under (i : Nat) (xs : List Node) :
    (xs.map (Node.under i)).filterMap Node.code? =
      (xs.filterMap Node.code?).map (CodeNode.under i) := by
  rw [List.filterMap_map, List.map_filterMap]
  congr 1
  funext x
  simp only [Function.comp, Node.code?, Node.under, Option.map_map]
  rfl

/-- Own code comes before that of the parts in the one order. -/
theorem codePreorder_eq (e : Expr) :
    e.codePreorder = (Node.code? ⟨[], e⟩).toList ++ codePreorderAll 0 e.parts := by
  rw [codePreorder, preorder, beneath_eq, codePreorderAll, List.filterMap_cons]
  cases Node.code? ⟨[], e⟩ <;> rfl

/-- Own code comes after that of the parts in the other order. -/
theorem codePostorder_eq (e : Expr) :
    e.codePostorder = codePostorderAll 0 e.parts ++ (Node.code? ⟨[], e⟩).toList := by
  rw [codePostorder, postorder, beneath_eq, codePostorderAll, List.filterMap_append]
  cases h : Node.code? ⟨[], e⟩ <;> simp [h]

/-- The code of several parts is that of the first and then that of the rest. -/
theorem codePreorderAll_cons (i : Nat) (e : Expr) (es : List Expr) :
    codePreorderAll i (e :: es) =
      e.codePreorder.map (CodeNode.under i) ++ codePreorderAll (i + 1) es := by
  rw [codePreorderAll, beneathAll, List.filterMap_append, filterMap_code?_under]
  rfl

/-- The code of several parts is that of the first and then that of the rest. -/
theorem codePostorderAll_cons (i : Nat) (e : Expr) (es : List Expr) :
    codePostorderAll i (e :: es) =
      e.codePostorder.map (CodeNode.under i) ++ codePostorderAll (i + 1) es := by
  rw [codePostorderAll, beneathAll, List.filterMap_append, filterMap_code?_under]
  rfl

/-- An expression with code has one node with code more than its parts. -/
theorem helperCount_eq (e : Expr) :
    e.helperCount = (Node.code? ⟨[], e⟩).toList.length + helperCountAll e.parts := by
  cases e <;> simp [helperCount, helperCountAll, parts, Node.code?, code?]

/-- The nodes with code of parts are counted one part after the other. -/
theorem length_codePreorderAll : ∀ (i : Nat) (es : List Expr),
    (∀ e ∈ es, e.codePreorder.length = e.helperCount) →
      (codePreorderAll i es).length = helperCountAll es
  | _, [], _ => rfl
  | i, e :: es, h => by
    have hrest := length_codePreorderAll (i + 1) es fun e' he' => h e' (List.mem_cons_of_mem _ he')
    rw [codePreorderAll_cons, List.length_append, List.length_map, hrest,
      h e List.mem_cons_self, helperCountAll]

/-- An expression has a helper for each visible node with code. -/
theorem length_codePreorder (e : Expr) : e.codePreorder.length = e.helperCount := by
  induction e using induction_on_parts with
  | h e ih =>
    rw [codePreorder_eq, List.length_append, length_codePreorderAll 0 e.parts ih, helperCount_eq]

/-! ## What the listings hold -/

/-- The path to a node with code of parts at consecutive places begins with one of these places. -/
theorem path_of_mem_code? {place : Node → List Node → List Node} {i : Nat} {es : List Expr}
    {x : CodeNode} (hx : x ∈ (beneathAll place i es).filterMap Node.code?) :
    ∃ j path, i ≤ j ∧ x.path = j :: path := by
  obtain ⟨y, hy, hcode⟩ := List.mem_filterMap.1 hx
  obtain ⟨c, -, rfl⟩ := Option.map_eq_some_iff.1 hcode
  exact path_of_mem_beneathAll hy

/-- The expression has the code of a node at its path. -/
def HasCode (e : Expr) (x : CodeNode) : Prop :=
  (e.at? x.path).bind code? = some (x.kind, x.code)

/-- Two lists hold the visible nodes with code of an expression, each once, the one with each node
before those beneath it and the other with each after them, the parts of a node from left to
right. -/
structure CodeOrders (e : Expr) (pre post : List CodeNode) : Prop where
  /-- The first list holds the nodes with code. -/
  mem_iff : ∀ x, x ∈ pre ↔ e.HasCode x
  /-- The second list holds the same nodes as the first. -/
  perm : post.Perm pre
  /-- In the first list a node stands before those beneath it. -/
  pre_sorted : pre.Pairwise fun x y => x.path < y.path
  /-- In the second list a node stands after those beneath it. -/
  post_sorted : post.Pairwise fun x y => EndsBefore x.path y.path

/-- An order of nodes is an order of those with code. -/
theorem pairwise_code? {R : List Nat → List Nat → Prop} {xs : List Node}
    (h : xs.Pairwise fun x y => R x.path y.path) :
    (xs.filterMap Node.code?).Pairwise fun x y => R x.path y.path := by
  refine List.pairwise_filterMap.2 (h.imp fun {x y} hxy x' hx y' hy => ?_)
  obtain ⟨_, -, rfl⟩ := Option.map_eq_some_iff.1 hx
  obtain ⟨_, -, rfl⟩ := Option.map_eq_some_iff.1 hy
  exact hxy

/-- The listings are the nodes with code in the two orders. -/
theorem codeOrders (e : Expr) : e.CodeOrders e.codePreorder e.codePostorder where
  mem_iff x := by
    obtain ⟨path, kind, code⟩ := x
    rw [codePreorder, List.mem_filterMap, HasCode, Option.bind_eq_some_iff]
    constructor
    · rintro ⟨y, hy, hcode⟩
      obtain ⟨c, hc, heq⟩ := Option.map_eq_some_iff.1 hcode
      cases heq
      exact ⟨y.expr, (mem_preorder_iff e y).1 hy, hc⟩
    · rintro ⟨expr, hat, hcode⟩
      refine ⟨⟨path, expr⟩, (mem_preorder_iff e _).2 hat, ?_⟩
      simp only [Node.code?, hcode, Option.map_some]
  perm := e.postorder_perm.filterMap Node.code?
  pre_sorted := pairwise_code? e.preorder_sorted
  post_sorted := pairwise_code? e.postorder_sorted

/-- No node with code is listed twice. -/
theorem codePreorder_nodup (e : Expr) : e.codePreorder.Nodup := by
  refine e.codeOrders.pre_sorted.imp fun {x y} hlt heq => ?_
  rw [heq] at hlt
  exact List.lt_irrefl y.path hlt

/-! ## Code beneath a choice -/

/-- Whether a choice stands above the node at a path. -/
def underChoice : Expr → List Nat → Bool
  | _, [] => false
  | .choice _, _ :: _ => true
  | e, i :: path => e.parts[i]?.any fun part => underChoice part path

/-- For each node with code, each after those beneath it, whether a choice stands above it. -/
def choiceMarks (e : Expr) : List Bool := e.codePostorder.map fun x => e.underChoice x.path

/-- There is a mark for each helper. -/
theorem length_choiceMarks (e : Expr) : e.choiceMarks.length = e.helperCount := by
  rw [choiceMarks, List.length_map, e.codeOrders.perm.length_eq, length_codePreorder]

/-- The nodes of parts are marked as in the parts when the whole is no choice. -/
theorem map_underChoice_codePostorderAll {e : Expr} (hstep : ∀ i path,
    e.underChoice (i :: path) = e.parts[i]?.any fun part => part.underChoice path) :
    ∀ (i : Nat) (es : List Expr), (∀ j, e.parts[i + j]? = es[j]?) →
      (codePostorderAll i es).map (fun x => e.underChoice x.path) = es.flatMap choiceMarks
  | _, [], _ => rfl
  | i, part :: es, hparts => by
    have hrest := map_underChoice_codePostorderAll hstep (i + 1) es fun j => by
      rw [Nat.add_assoc, Nat.add_comm 1, hparts]
      rfl
    have hpart : e.parts[i]? = some part := hparts 0
    rw [codePostorderAll_cons, List.map_append, hrest, List.map_map, List.flatMap_cons]
    congr 1
    refine List.map_congr_left fun x _ => ?_
    simp [CodeNode.under, hstep, hpart]

/-- An expression that is no choice and has no code of its own has the marks of its parts. -/
theorem choiceMarks_of_parts {e : Expr} (hcode : e.code? = none) (hstep : ∀ i path,
    e.underChoice (i :: path) = e.parts[i]?.any fun part => part.underChoice path) :
    e.choiceMarks = e.parts.flatMap choiceMarks := by
  have hown : Node.code? ⟨[], e⟩ = none := by simp [Node.code?, hcode]
  rw [choiceMarks, codePostorder_eq, hown, Option.toList_none, List.append_nil]
  exact map_underChoice_codePostorderAll hstep 0 e.parts fun j => by rw [Nat.zero_add]

/-- An expression that is no choice and has no code of its own has the marks of its only part. -/
theorem choiceMarks_of_part {e inner : Expr} (hcode : e.code? = none)
    (hparts : e.parts = [inner]) (hstep : ∀ i path,
      e.underChoice (i :: path) = e.parts[i]?.any fun part => part.underChoice path) :
    e.choiceMarks = inner.choiceMarks := by
  rw [choiceMarks_of_parts hcode hstep, hparts, List.flatMap_singleton]

/-- An action is marked after its part, and no choice stands above it. -/
theorem choiceMarks_action (code : String) (e : Expr) :
    (Expr.action code e).choiceMarks = e.choiceMarks ++ [false] := by
  have hown : Node.code? ⟨[], .action code e⟩ = some ⟨[], .action, code⟩ := rfl
  have hparts := map_underChoice_codePostorderAll (e := .action code e) (fun _ _ => rfl) 0 [e]
    fun j => by rw [Nat.zero_add]; rfl
  rw [choiceMarks, codePostorder_eq, hown, List.map_append]
  exact congrArg (· ++ [false]) (hparts.trans (List.append_nil _))

/-- A choice stands above all nodes of its alternatives. -/
theorem choiceMarks_choice (es : List Expr) :
    (Expr.choice es).choiceMarks = List.replicate (helperCountAll es) true := by
  refine List.eq_replicate_iff.2 ⟨length_choiceMarks (.choice es), fun mark hmark => ?_⟩
  obtain ⟨x, hx, rfl⟩ := List.mem_map.1 hmark
  rw [codePostorder_eq] at hx
  obtain ⟨j, path, -, hpath⟩ := path_of_mem_code?
    ((List.mem_append.1 hx).resolve_right List.not_mem_nil)
  rw [hpath]
  rfl

end Expr

end GrammarTypes
