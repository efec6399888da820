import GrammarTypes.Derivation.Expr

/-!
# The result of a derivation

A derivation keeps a ledger, but what it returns depends on the ledger only through the number of
the next helper, and a derivation that succeeds moves that number on by as many helpers as the
expression has. `Expr.result` gives the outcome as a plain function of the scope and of that
number: it has no log and does not know the other rules. `Expr.derive_computes` shows that
`Expr.derive` computes it, so that everything but the log can be proved of `Expr.result`.
-/

namespace GrammarTypes

variable {α β : Type}

/-! ## Runs -/

namespace Derivation

/-- A derivation runs from the ledger that the one before it leaves, unless that one fails. -/
theorem runFrom_bind (d : Derivation α) (f : α → Derivation β) (ledger : Ledger) :
    (d >>= f).runFrom ledger =
      match d.runFrom ledger with
      | (.ok a, ledger') => (f a).runFrom ledger'
      | (.error e, ledger') => (.error e, ledger') := by
  simp only [runFrom, ExceptT.run_bind, StateT.run_bind]
  rcases d.run.run ledger with ⟨_ | _, _⟩ <;> rfl

/-- A function of the outcome leaves the ledger as it is. -/
theorem runFrom_map (f : α → β) (d : Derivation α) (ledger : Ledger) :
    (f <$> d).runFrom ledger = ((d.runFrom ledger).1.map f, (d.runFrom ledger).2) := by
  simp only [runFrom, ExceptT.run_map, StateT.run_map]
  rcases d.run.run ledger with ⟨_ | _, _⟩ <;> rfl

/-- A derivation computes `f` and takes `k` numbers: from any ledger its outcome is that of `f` at
the number of the next helper, and when it succeeds the number has grown by `k`. -/
def Computes (d : Derivation α) (f : Nat → Except InvalidRange α) (k : Nat) : Prop :=
  ∀ ledger : Ledger, (d.runFrom ledger).1 = f ledger.next ∧
    ∀ a, (d.runFrom ledger).1 = .ok a → (d.runFrom ledger).2.next = ledger.next + k

namespace Computes

/-- A value takes no number. -/
theorem pure (a : α) : (Pure.pure a : Derivation α).Computes (fun _ => .ok a) 0 :=
  fun _ => ⟨rfl, fun _ _ => rfl⟩

/-- A failure takes no number. -/
theorem throw (e : InvalidRange) (k : Nat) :
    (MonadExcept.throw e : Derivation α).Computes (fun _ => .error e) k :=
  fun _ => ⟨rfl, fun _ h => nomatch h⟩

/-- A name takes one number. -/
theorem takeName (rule : String) :
    (Derivation.takeName rule).Computes (fun n => .ok (Helper.numberedName rule n)) 1 :=
  fun _ => ⟨rfl, fun _ _ => rfl⟩

/-- A function of the outcome takes no number. -/
theorem map {d : Derivation α} {g : Nat → Except InvalidRange α} {k : Nat} (f : α → β)
    (h : d.Computes g k) : (f <$> d).Computes (fun n => f <$> g n) k := by
  intro ledger
  obtain ⟨hout, hnext⟩ := h ledger
  rw [runFrom_map]
  refine ⟨by rw [hout]; rfl, fun b hb => ?_⟩
  rcases ho : (d.runFrom ledger).1 with e | a
  · rw [ho] at hb
    exact nomatch hb
  · exact hnext a ho

/-- One derivation after another takes the numbers of both. -/
theorem bind {d : Derivation α} {f : α → Derivation β} {g : Nat → Except InvalidRange α}
    {h : α → Nat → Except InvalidRange β} {j k : Nat} (hd : d.Computes g j)
    (hf : ∀ a, (f a).Computes (h a) k) :
    (d >>= f).Computes (fun n => g n >>= fun a => h a (n + j)) (j + k) := by
  intro ledger
  obtain ⟨hout, hnext⟩ := hd ledger
  rw [runFrom_bind]
  rcases hr : d.runFrom ledger with ⟨e | a, ledger'⟩
  -- A failure is handed on, and the ledger is left where it was met.
  · have hg : g ledger.next = .error e := by rw [← hout, hr]
    simp only [hg]
    exact ⟨rfl, fun _ hb => nomatch hb⟩
  · have hg : g ledger.next = .ok a := by rw [← hout, hr]
    -- The second derivation begins with the number that the first leaves.
    have hmid : ledger'.next = ledger.next + j := by
      rw [hr] at hnext
      exact hnext a rfl
    obtain ⟨hout', hnext'⟩ := hf a ledger'
    rw [hmid] at hout' hnext'
    simp only [hg]
    refine ⟨hout', fun b hb => ?_⟩
    rw [hnext' b hb, Nat.add_assoc]

/-- Events noted before a derivation make no difference to what it computes. -/
theorem after_note {d : Derivation α} {g : Nat → Except InvalidRange α} {k : Nat}
    (events : List Event) (h : d.Computes g k) :
    (note events >>= fun _ => d).Computes g k := by
  intro ledger
  rw [runFrom_bind]
  exact h ⟨ledger.next, ledger.log ++ events⟩

/-- What a run that succeeds tells of the computed function and of the number it leaves. -/
theorem of_runFrom {d : Derivation α} {g : Nat → Except InvalidRange α} {k : Nat}
    (h : d.Computes g k) {ledger ledger' : Ledger} {a : α}
    (hrun : d.runFrom ledger = (.ok a, ledger')) :
    g ledger.next = .ok a ∧ ledger'.next = ledger.next + k := by
  obtain ⟨hout, hnext⟩ := h ledger
  rw [hrun] at hout hnext
  exact ⟨hout.symm, hnext a rfl⟩

end Computes

end Derivation

/-! ## Results -/

namespace Expr

/-- The action at the top of an expression, display names aside: its code and its part. -/
def topAction? (e : Expr) : Option (String × Expr) :=
  match e.unnamed with
  | .action code inner => some (code, inner)
  | _ => none

mutual

/-- The number of helpers that an expression has. -/
def helperCount : Expr → Nat
  | .action _ e => 1 + helperCount e
  | .semanticAnd _ | .semanticNot _ => 1
  | .group e | .labeled _ e | .named _ e | .oneOrMore e | .optional e | .zeroOrMore e =>
    helperCount e
  | .choice es | .sequence es => helperCountAll es
  | .any | .charClass .. | .literal .. | .ruleRef _ | .simpleAnd _ | .simpleNot _ | .text _ => 0

/-- The number of helpers that several expressions have. -/
def helperCountAll : List Expr → Nat
  | [] => 0
  | e :: es => helperCount e + helperCountAll es

end

section Results

variable (rule : String) (limit : Nat)

mutual

/-- What an expression of a rule yields when the given labels were bound before it and the next
helper has the given number. -/
def result : Expr → Scope → Nat → Except InvalidRange Yield
  | .any, _, _ => return .of .text
  | .text _, _, _ => return .of .text
  | .literal value ignoreCase, _, _ => return .of (if ignoreCase then .text else .literal value)
  | .charClass parts inverted ignoreCase, _, _ =>
    Yield.of <$> (CharClass.type limit parts inverted ignoreCase).mapError
      fun range => ⟨rule, range.1, range.2⟩
  | .sequence es, s, n => Yield.sequence <$> elementResults es s n
  | .choice es, _, n => Yield.choice <$> alternativeResults es n
  | .group e, s, n => Yield.wrap Ty.groupOf <$> result e s n
  | .labeled none e, s, n => result e s n
  | .labeled (some label) e, s, n => Yield.capture label <$> result e s n
  | .named _ e, s, n => result e s n
  | .zeroOrMore e, s, n =>
    Yield.wrap (fun ts => .array (Ty.itemOf ts [.marker .never])) <$> result e s n
  | .oneOrMore e, s, n => Yield.wrap (fun ts => .array (Ty.itemOf ts [])) <$> result e s n
  | .optional e, s, n =>
    Yield.wrap (fun ts => Ty.unionOf [Ty.groupOf ts, .marker .null]) <$> result e s n
  | .ruleRef name, _, _ => return .of (.ruleRef name)
  | .semanticAnd code, s, n => return .ofPredicate (Helper.numberedName rule n) code s
  | .semanticNot code, s, n => return .ofPredicate (Helper.numberedName rule n) code s
  | .simpleAnd _, _, _ => return .of (.marker .void)
  | .simpleNot _, _, _ => return .of (.marker .void)
  | .action code e, s, n =>
    Yield.underAction (Helper.numberedName rule n) code s <$> result e s (n + 1)

/-- What the elements of a sequence yield, each in the scope that those before it leave. -/
def elementResults : List Expr → Scope → Nat → Except InvalidRange (List Yield)
  | [], _, _ => return []
  | e :: es, s, n => do
    let y ← result e s n
    let ys ← elementResults es (s.merge y.labels) (n + e.helperCount)
    return y :: ys

/-- What the alternatives of a choice yield, each in the empty scope. -/
def alternativeResults : List Expr → Nat → Except InvalidRange (List Yield)
  | [], _ => return []
  | e :: es, n => do
    let y ← result e .empty n
    let ys ← alternativeResults es (n + e.helperCount)
    return y :: ys

end

/-- What the expression of a rule yields from the given number on. -/
def ruleResult (e : Expr) (n : Nat) : Except InvalidRange Yield :=
  match e.topAction? with
  | some (code, inner) =>
    Yield.underAction (Helper.ruleName rule) code .empty <$> result rule limit inner .empty n
  | none => result rule limit e.unnamed .empty n

end Results

/-- After an element that succeeds, the others are derived with its labels bound. -/
theorem elementResults_cons {rule : String} {limit : Nat} {e : Expr} {es : List Expr} {t : Scope}
    {n : Nat} {y : Yield} (h : result rule limit e t n = .ok y) :
    elementResults rule limit (e :: es) t n =
      (y :: ·) <$> elementResults rule limit es (t.merge y.labels) (n + e.helperCount) := by
  rw [elementResults, h]
  rfl

/-- The number of helpers of a rule's expression that have a number in their name: all but that of
an action at its top. -/
def numberedCount (e : Expr) : Nat :=
  match e.topAction? with
  | some (_, inner) => inner.helperCount
  | none => e.helperCount

/-- Display names at the top have no helper. -/
theorem helperCount_unnamed (e : Expr) : e.unnamed.helperCount = e.helperCount := by
  fun_induction unnamed e with
  | case1 display e ih => exact ih
  | case2 e => rfl

/-- The result of a rule with an action at its top is that of the action under the rule's name. -/
theorem ruleResult_of_topAction {rule : String} {limit : Nat} {e inner : Expr} {code : String}
    (h : e.topAction? = some (code, inner)) (n : Nat) :
    e.ruleResult rule limit n =
      Yield.underAction (Helper.ruleName rule) code .empty <$>
        result rule limit inner .empty n := by
  rw [ruleResult, h]

/-- The result of a rule without an action at its top is that of its expression. -/
theorem ruleResult_of_no_topAction {rule : String} {limit : Nat} {e : Expr}
    (h : e.topAction? = none) (n : Nat) :
    e.ruleResult rule limit n = result rule limit e.unnamed .empty n := by
  rw [ruleResult, h]

/-! ## Derivations compute results -/

open GrammarTypes.Derivation (Computes)

/-- A condition in code takes one number. -/
theorem predicate_computes (cx : RuleContext) (code : String) (s : Scope) :
    (cx.predicate code s).Computes
      (fun n => .ok (.ofPredicate (Helper.numberedName cx.rule n) code s)) 1 :=
  .bind (.takeName _) fun _ => .pure _

/-- An action takes no number once it has a name. -/
theorem action_computes (cx : RuleContext) (name code : String) (s : Scope) (y : Yield) :
    (cx.action name code s y).Computes (fun _ => .ok (y.underAction name code s)) 0 :=
  .after_note _ (.after_note _ (.pure _))

/-- A character class takes no number and fails at its own malformed ranges only. -/
theorem classType_computes (cx : RuleContext) (parts : List ClassPart)
    (inverted ignoreCase : Bool) :
    (cx.classType parts inverted ignoreCase).Computes
      (fun _ => (CharClass.type cx.classLimit parts inverted ignoreCase).mapError
        fun range => ⟨cx.rule, range.1, range.2⟩) 0 := by
  unfold RuleContext.classType
  rcases CharClass.type cx.classLimit parts inverted ignoreCase with range | t
  · exact .throw _ 0
  · exact .pure t

/-- A reference takes no number, whether or not it is warned of. -/
theorem checkReference_computes (cx : RuleContext) (name : String) :
    (cx.checkReference name).Computes (fun _ => .ok ()) 0 := by
  unfold RuleContext.checkReference
  split
  · exact .pure ()
  · exact .after_note _ (.pure ())

mutual

/-- The derivation of an expression computes its result and takes a number for each helper. -/
theorem derive_computes (cx : RuleContext) : ∀ (e : Expr) (s : Scope),
    (derive cx e s).Computes (result cx.rule cx.classLimit e s) e.helperCount
  | .any, _ | .text _, _ | .literal _ _, _ | .simpleAnd _, _ | .simpleNot _, _ => .pure _
  | .charClass _ _ _, _ => .map _ (classType_computes cx _ _ _)
  | .sequence es, s => .map _ (deriveElements_computes cx es s .empty)
  | .choice es, _ => .map _ (deriveAlternatives_computes cx es .empty)
  | .group e, s | .zeroOrMore e, s | .oneOrMore e, s | .optional e, s
  | .labeled (some _) e, s => .map _ (derive_computes cx e s)
  | .labeled none e, s | .named _ e, s => derive_computes cx e s
  | .ruleRef name, _ => .bind (checkReference_computes cx name) fun _ => .pure _
  | .semanticAnd code, s | .semanticNot code, s => predicate_computes cx code s
  | .action code e, s =>
    .bind (.takeName cx.rule) fun _ => .bind (derive_computes cx e s) fun _ =>
      action_computes cx _ code s _

/-- The derivation of the elements of a sequence computes their results. -/
theorem deriveElements_computes (cx : RuleContext) : ∀ (es : List Expr) (s collected : Scope),
    (deriveElements cx es s collected).Computes (elementResults cx.rule cx.classLimit es s)
      (helperCountAll es)
  | [], _, _ => .pure _
  | e :: es, s, _ =>
    .bind (derive_computes cx e s) fun _ => .after_note _ (.after_note _
      (.bind (deriveElements_computes cx es _ _) fun _ => .pure _))

/-- The derivation of the alternatives of a choice computes their results. -/
theorem deriveAlternatives_computes (cx : RuleContext) : ∀ (es : List Expr) (collected : Scope),
    (deriveAlternatives cx es collected).Computes (alternativeResults cx.rule cx.classLimit es)
      (helperCountAll es)
  | [], _ => .pure _
  | e :: es, _ =>
    .bind (derive_computes cx e .empty) fun _ => .after_note _
      (.bind (deriveAlternatives_computes cx es _) fun _ => .pure _)

end

/-- The derivation of a rule computes its result and takes a number for each numbered helper. -/
theorem deriveRule_computes (cx : RuleContext) (e : Expr) :
    (e.deriveRule cx).Computes (e.ruleResult cx.rule cx.classLimit) e.numberedCount := by
  unfold deriveRule ruleResult numberedCount topAction?
  rw [← helperCount_unnamed]
  cases e.unnamed with
  | action code inner =>
    exact .bind (derive_computes cx inner .empty) fun _ => action_computes cx _ code .empty _
  | _ => exact derive_computes cx _ .empty

end Expr

end GrammarTypes
