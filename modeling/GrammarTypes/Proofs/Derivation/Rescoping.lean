import GrammarTypes.Proofs.Helper.Allocation
import GrammarTypes.Proofs.Scope.Merge

/-!
# Results in a larger scope

The labels bound before an expression reach nothing but the parameters of its helpers: those of a
helper beneath a choice not at all, and those of any other as a scope that its own labels are merged
into. So the result in the scope `s.merge t` is the result in `t` with `s` put before the parameters
(`Expr.result_merge`). The scope grows along a sequence, and merges associate, so that `s` stays in
front.
-/

namespace GrammarTypes

/-- A helper that sees the labels of a scope before its own, unless it is marked. -/
def Helper.rescoped (s : Scope) (mark : Bool) (h : Helper) : Helper :=
  { h with params := if mark then h.params else s.merge h.params }

namespace Yield

/-- A yield whose helpers without a mark see the labels of a scope before their own. -/
def rescoped (s : Scope) (marks : List Bool) (y : Yield) : Yield :=
  { y with helpers := List.zipWith (Helper.rescoped s) marks y.helpers }

variable {s t : Scope} {marks marks' : List Bool} {y z : Yield}

/-- Without helpers there is nothing to rescope. -/
theorem rescoped_of_helpers_nil (h : y.helpers = []) : y.rescoped s marks = y := by
  obtain ⟨types, labels, action, helpers⟩ := y
  subst h
  simp [rescoped]

/-- Helpers that are all marked stay as they are. -/
theorem rescoped_replicate (s : Scope) (y : Yield) :
    y.rescoped s (List.replicate y.helpers.length true) = y := by
  have hhelpers : ∀ hs : List Helper,
      List.zipWith (Helper.rescoped s) (List.replicate hs.length true) hs = hs := by
    intro hs
    induction hs with
    | nil => rfl
    | cons h hs ih => exact congrArg (h :: ·) ih
  rw [rescoped, hhelpers]

/-- The helper of an action sees what the scope puts before its own labels. -/
theorem rescoped_underAction (ht : t.WellFormed) (hlength : marks.length = y.helpers.length)
    (name code : String) :
    (y.rescoped s marks).underAction name code (s.merge t) =
      (y.underAction name code t).rescoped s (marks ++ [false]) := by
  simp [rescoped, underAction, addHelper, absorb, Yield.of, List.zipWith_append hlength,
    Helper.rescoped, Scope.merge_assoc s ht]

/-- The elements of a sequence are rescoped one by one. -/
theorem rescoped_append (hlength : marks.length = y.helpers.length) :
    (y.rescoped s marks).append (z.rescoped s marks') =
      (y.append z).rescoped s (marks ++ marks') := by
  simp [rescoped, append, absorb, entry, List.zipWith_append hlength]

end Yield

namespace Expr

variable {rule : String} {limit : Nat}

/-- A result has a helper for each mark. -/
theorem length_helpers_of_result {e : Expr} {t : Scope} {n : Nat} {y : Yield}
    (h : result rule limit e t n = .ok y) : e.choiceMarks.length = y.helpers.length := by
  rw [length_choiceMarks, (allocates_preserved.of_result e t n y h).length_eq]

/-- A sequence is rescoped by rescoping what it has so far and each further element. -/
theorem foldl_append_rescoped {es : List Expr} {t : Scope} {n : Nat} {ys : List Yield}
    (h : Chain (fun e _ _ y => e.choiceMarks.length = y.helpers.length) bound es t n ys)
    (s : Scope) (marks : List Bool) (acc : Yield) (hacc : marks.length = acc.helpers.length) :
    (List.zipWith (fun e y => y.rescoped s e.choiceMarks) es ys).foldl Yield.append
        (acc.rescoped s marks) =
      (ys.foldl Yield.append acc).rescoped s (marks ++ es.flatMap choiceMarks) := by
  induction h generalizing marks acc with
  | nil => simp
  | cons hy _ ih =>
    rw [List.zipWith_cons_cons, List.foldl_cons, List.foldl_cons, Yield.rescoped_append hacc,
      List.flatMap_cons, ← List.append_assoc]
    refine ih _ _ ?_
    rw [List.length_append, hacc, hy, Yield.helpers_append, List.length_append]

/-- An expression without parts and code yields the same in every scope. -/
theorem Leaf.result_merge {e : Expr} (he : Leaf e) (s t : Scope) (n : Nat) :
    result rule limit e (s.merge t) n =
      Yield.rescoped s e.choiceMarks <$> result rule limit e t n := by
  have hsame : result rule limit e (s.merge t) n = result rule limit e t n := by
    cases he <;> rfl
  rw [hsame]
  cases hy : result rule limit e t n with
  | error err => rfl
  | ok y =>
    obtain ⟨u, rfl⟩ := he.result_eq_of hy
    exact congrArg Except.ok (Yield.rescoped_of_helpers_nil rfl).symm

/-- An expression that yields what its part yields is rescoped with it. -/
theorem Passes.result_merge {e inner : Expr} (he : Passes e inner) {s t : Scope} {n : Nat}
    (h : result rule limit inner (s.merge t) n =
      Yield.rescoped s inner.choiceMarks <$> result rule limit inner t n) :
    result rule limit e (s.merge t) n =
      Yield.rescoped s e.choiceMarks <$> result rule limit e t n := by
  have hmarks : e.choiceMarks = inner.choiceMarks := by
    cases he <;> exact choiceMarks_of_part rfl rfl fun _ _ => rfl
  rw [hmarks]
  cases he <;> exact h

/-- An expression that makes one type of the candidates of its part is rescoped with it. -/
theorem Wraps.result_merge {e inner : Expr} {f : List Ty → Ty} (he : Wraps e inner f)
    {s t : Scope} {n : Nat} (h : result rule limit inner (s.merge t) n =
      Yield.rescoped s inner.choiceMarks <$> result rule limit inner t n) :
    result rule limit e (s.merge t) n =
      Yield.rescoped s e.choiceMarks <$> result rule limit e t n := by
  have hmarks : e.choiceMarks = inner.choiceMarks := by
    cases he <;> exact choiceMarks_of_part rfl rfl fun _ _ => rfl
  have hresult : ∀ u, result rule limit e u n = Yield.wrap f <$> result rule limit inner u n := by
    intro u
    cases he <;> rfl
  rw [hmarks, hresult, hresult, h]
  cases result rule limit inner t n <;> rfl

/-- A choice yields the same in every scope. -/
theorem result_choice_merge (es : List Expr) (s t : Scope) (n : Nat) :
    result rule limit (.choice es) (s.merge t) n =
      Yield.rescoped s (Expr.choice es).choiceMarks <$> result rule limit (.choice es) t n := by
  -- The alternatives are derived in the empty scope, whatever the scope of the choice is.
  have hsame : result rule limit (.choice es) (s.merge t) n = result rule limit (.choice es) t n :=
    rfl
  rw [hsame, choiceMarks_choice]
  cases hy : result rule limit (.choice es) t n with
  | error err => rfl
  | ok y =>
    have hlength : y.helpers.length = helperCountAll es :=
      (allocates_preserved.of_result _ t n y hy).length_eq
    rw [← hlength]
    exact congrArg Except.ok (Yield.rescoped_replicate s y).symm

section

variable (s : Scope)

mutual

/-- The result in `s.merge t` is the result in `t` with `s` put before the parameters of the helpers
that stand beneath no choice. -/
theorem result_merge : ∀ (e : Expr) (t : Scope) (n : Nat), t.WellFormed →
    result rule limit e (s.merge t) n =
      Yield.rescoped s e.choiceMarks <$> result rule limit e t n
  | .any, t, n, _ => Leaf.any.result_merge s t n
  | .text e, t, n, _ => (Leaf.text e).result_merge s t n
  | .literal v i, t, n, _ => (Leaf.literal v i).result_merge s t n
  | .charClass ps v i, t, n, _ => (Leaf.charClass ps v i).result_merge s t n
  | .ruleRef name, t, n, _ => (Leaf.ruleRef name).result_merge s t n
  | .simpleAnd e, t, n, _ => (Leaf.simpleAnd e).result_merge s t n
  | .simpleNot e, t, n, _ => (Leaf.simpleNot e).result_merge s t n
  | .semanticAnd code, t, n, _ => rfl
  | .semanticNot code, t, n, _ => rfl
  | .named name e, t, n, ht => (Passes.named name e).result_merge (result_merge e t n ht)
  | .labeled none e, t, n, ht => (Passes.unlabeled e).result_merge (result_merge e t n ht)
  | .group e, t, n, ht => (Wraps.group e).result_merge (result_merge e t n ht)
  | .zeroOrMore e, t, n, ht => (Wraps.zeroOrMore e).result_merge (result_merge e t n ht)
  | .oneOrMore e, t, n, ht => (Wraps.oneOrMore e).result_merge (result_merge e t n ht)
  | .optional e, t, n, ht => (Wraps.optional e).result_merge (result_merge e t n ht)
  | .labeled (some label) e, t, n, ht => by
    rw [choiceMarks_of_part rfl rfl fun _ _ => rfl, result, result, result_merge e t n ht]
    cases result rule limit e t n <;> rfl
  | .action code e, t, n, ht => by
    rw [choiceMarks_action, result, result, result_merge e t (n + 1) ht]
    cases hy : result rule limit e t (n + 1) with
    | error err => rfl
    | ok y =>
      exact congrArg Except.ok
        (Yield.rescoped_underAction ht (length_helpers_of_result hy) _ code)
  | .choice es, t, n, _ => result_choice_merge es s t n
  | .sequence es, t, n, ht => by
    rw [choiceMarks_of_parts rfl fun _ _ => rfl, result, result, elementResults_merge es t n ht]
    cases hys : elementResults rule limit es t n with
    | error err => rfl
    | ok ys =>
      have hchain := (allocates_preserved.of_elementResults es t n ys hys).imp fun {e _ _ _} h =>
        (length_choiceMarks e).trans h.length_eq.symm
      exact congrArg Except.ok (foldl_append_rescoped hchain s [] {} rfl)

/-- The results of elements from `s.merge t` on are their results from `t` on, each rescoped. -/
theorem elementResults_merge : ∀ (es : List Expr) (t : Scope) (n : Nat), t.WellFormed →
    elementResults rule limit es (s.merge t) n =
      List.zipWith (fun e y => y.rescoped s e.choiceMarks) es <$> elementResults rule limit es t n
  | [], _, _, _ => rfl
  | e :: es, t, n, ht => by
    have hfirst := result_merge e t n ht
    cases hy : result rule limit e t n with
    | error err =>
      rw [hy] at hfirst
      rw [elementResults, elementResults, hfirst, hy]
      rfl
    | ok y =>
      rw [hy] at hfirst
      have hrest := elementResults_merge es (t.merge y.labels) (n + e.helperCount)
        (ht.merge y.labels)
      -- What stands before the scope stays before it when the labels of the element are bound.
      rw [← Scope.merge_assoc s ht] at hrest
      rw [elementResults_cons hfirst, elementResults_cons hy]
      refine (congrArg _ hrest).trans ?_
      cases elementResults rule limit es (t.merge y.labels) (n + e.helperCount) <;> rfl

end

end

/-- Rescoping keeps what a helper takes from its node, and puts the scope before the parameters of
each helper whose node stands beneath no choice. -/
theorem getElem?_rescoped {e : Expr} {s : Scope} {z : Yield} {i : Nat} {x : CodeNode}
    {g h : Helper} (hx : e.codePostorder[i]? = some x) (hz : z.helpers[i]? = some h)
    (hg : (z.rescoped s e.choiceMarks).helpers[i]? = some g) :
    g.identity = h.identity ∧
      g.params = if e.underChoice x.path then h.params else s.merge h.params := by
  have hmark : e.choiceMarks[i]? = some (e.underChoice x.path) := by
    rw [choiceMarks, List.getElem?_map, hx, Option.map_some]
  simp only [Yield.rescoped, List.getElem?_zipWith, hmark, hz, Option.some.injEq] at hg
  subst hg
  exact ⟨rfl, rfl⟩

/-- A derivation in a scope and one in the empty scope, from the same number, fail alike, or yield
the same types, labels and action, leave the same number and have helpers that agree one by one in
name, kind and code. The parameters of a helper in the scope are those in the empty scope merged
into the scope, or the same when a choice stands above the node of the helper. -/
theorem derive_scope_factors (cx : RuleContext) (e : Expr) (s : Scope) (n : Nat)
    (log log₀ : List Event) :
    (∃ err, ((e.derive cx s).runFrom ⟨n, log⟩).1 = .error err ∧
      ((e.derive cx .empty).runFrom ⟨n, log₀⟩).1 = .error err) ∨
    ∃ (y z : Yield) (ledger ledger₀ : Ledger), (e.derive cx s).runFrom ⟨n, log⟩ = (.ok y, ledger) ∧
      (e.derive cx .empty).runFrom ⟨n, log₀⟩ = (.ok z, ledger₀) ∧
      ledger.next = ledger₀.next ∧ y.types = z.types ∧ y.labels = z.labels ∧
      y.action = z.action ∧ y.helpers.length = z.helpers.length ∧
      e.Allocates (fun j => Helper.numberedName cx.rule (n + j)) z.helpers ∧
      ∀ (i : Nat) (x : CodeNode) (g h : Helper), e.codePostorder[i]? = some x →
        y.helpers[i]? = some g → z.helpers[i]? = some h →
          g.identity = h.identity ∧
            g.params = if e.underChoice x.path then h.params else s.merge h.params := by
  obtain ⟨hout, hnext⟩ := derive_computes cx e s ⟨n, log⟩
  obtain ⟨hout₀, hnext₀⟩ := derive_computes cx e .empty ⟨n, log₀⟩
  have hmerge : result cx.rule cx.classLimit e s n =
      Yield.rescoped s e.choiceMarks <$> result cx.rule cx.classLimit e .empty n :=
    result_merge s e .empty n .empty
  rw [hmerge] at hout
  cases hz : result cx.rule cx.classLimit e .empty n with
  | error err =>
    rw [hz] at hout hout₀
    exact .inl ⟨err, hout, hout₀⟩
  | ok z =>
    rw [hz] at hout hout₀
    have halloc := allocates_preserved.of_result e .empty n z hz
    have hlength : (z.rescoped s e.choiceMarks).helpers.length = z.helpers.length := by
      rw [Yield.rescoped, List.length_zipWith, length_helpers_of_result hz, Nat.min_self]
    refine .inr ⟨z.rescoped s e.choiceMarks, z, _, _, Prod.ext hout rfl, Prod.ext hout₀ rfl, ?_,
      rfl, rfl, rfl, hlength, halloc, fun i x g h hx hg hz => getElem?_rescoped hx hz hg⟩
    rw [hnext _ hout, hnext₀ _ hout₀]

end Expr

end GrammarTypes
