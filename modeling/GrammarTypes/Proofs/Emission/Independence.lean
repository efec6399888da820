import GrammarTypes.Proofs.Emission.Composition

/-!
# Rules on their own

A derivation looks at the names of the other rules only to warn of a reference to none of them. So
two derivations of a rule that are given different names differ in their warnings and in nothing
else (`Derivation.Alike`, carried through the expression by `Expr.derive_alike`), and what a rule
becomes in the text of a grammar does not depend on the grammar around it. `EmitOptions.RulesApart`
says what follows for the texts of whole grammars: other rules can be permuted, added and taken
away, and only their own texts move, come and go.
-/

namespace GrammarTypes

variable {α β : Type}

/-! ## Runs that differ in warnings -/

/-- The events of a log that are no warnings. -/
def Ledger.quietLog (ledger : Ledger) : List Event :=
  ledger.log.filter fun e => e.level ≠ .warn

/-- Two ledgers that differ at most in warnings. -/
structure Ledger.SameButWarnings (ledger ledger' : Ledger) : Prop where
  /-- The next helper has the same number. -/
  next : ledger.next = ledger'.next
  /-- The logs have the same other events. -/
  log : ledger.quietLog = ledger'.quietLog

/-- A ledger differs from itself in nothing. -/
theorem Ledger.SameButWarnings.refl (ledger : Ledger) : ledger.SameButWarnings ledger :=
  ⟨rfl, rfl⟩

namespace Derivation

/-- Two derivations that return the same from ledgers that differ at most in warnings, and leave
such ledgers. -/
def Alike (d d' : Derivation α) : Prop :=
  ∀ ledger ledger' : Ledger, ledger.SameButWarnings ledger' →
    (d.runFrom ledger).1 = (d'.runFrom ledger').1 ∧
      (d.runFrom ledger).2.SameButWarnings (d'.runFrom ledger').2

namespace Alike

/-- A value is returned alike. -/
theorem pure (a : α) : Alike (Pure.pure a) (Pure.pure a : Derivation α) :=
  fun _ _ h => ⟨rfl, h⟩

/-- A failure is met alike. -/
theorem throw (e : InvalidRange) :
    Alike (MonadExcept.throw e) (MonadExcept.throw e : Derivation α) :=
  fun _ _ h => ⟨rfl, h⟩

/-- Equal numbers make equal names. -/
theorem takeName (rule : String) : Alike (Derivation.takeName rule) (Derivation.takeName rule) := by
  rintro ⟨next, log⟩ ⟨next', log'⟩ ⟨hnext, hlog⟩
  obtain rfl : next = next' := hnext
  exact ⟨rfl, rfl, hlog⟩

/-- Numbers begin again at the same number. -/
theorem restart : Alike Derivation.restart Derivation.restart :=
  fun _ _ h => ⟨rfl, rfl, h.log⟩

/-- Events that differ in warnings only are noted alike. -/
theorem note {events events' : List Event}
    (h : events.filter (fun e => e.level ≠ .warn) = events'.filter fun e => e.level ≠ .warn) :
    Alike (Derivation.note events) (Derivation.note events') := by
  rintro ledger ledger' ⟨hnext, hlog⟩
  refine ⟨rfl, hnext, ?_⟩
  have happend : (ledger.log ++ events).filter (fun e => e.level ≠ .warn) =
      (ledger'.log ++ events').filter fun e => e.level ≠ .warn := by
    rw [List.filter_append, List.filter_append, h]
    exact congrArg (· ++ _) hlog
  exact happend

/-- A function of the outcome is returned alike. -/
theorem map {d d' : Derivation α} (f : α → β) (h : Alike d d') : Alike (f <$> d) (f <$> d') := by
  intro ledger ledger' hsame
  obtain ⟨hout, hleft⟩ := h ledger ledger' hsame
  rw [runFrom_map, runFrom_map]
  exact ⟨congrArg (Except.map f) hout, hleft⟩

/-- Derivations one after another are alike when both are. -/
theorem bind {d d' : Derivation α} {f f' : α → Derivation β} (hd : Alike d d')
    (hf : ∀ a, Alike (f a) (f' a)) : Alike (d >>= f) (d' >>= f') := by
  intro ledger ledger' hsame
  have h := hd ledger ledger' hsame
  rw [runFrom_bind, runFrom_bind]
  generalize d.runFrom ledger = run at h ⊢
  generalize d'.runFrom ledger' = run' at h ⊢
  obtain ⟨out, left⟩ := run
  obtain ⟨out', left'⟩ := run'
  obtain ⟨hout, hleft⟩ := h
  obtain rfl : out = out' := hout
  cases out with
  | error e => exact ⟨rfl, hleft⟩
  -- The second derivations begin with the ledgers that the first ones left.
  | ok a => exact hf a left left' hleft

end Alike

end Derivation

/-! ## Derivations under two tables -/

/-- A reference that is checked is warned of or not, and nothing else comes of it. -/
theorem RuleContext.checkReference_eq_note (cx : RuleContext) (name : String) :
    cx.checkReference name = Derivation.note
      (if cx.ruleNames.contains name then [] else [.danglingReference cx.rule name]) := by
  unfold checkReference
  split
  · funext ledger
    exact congrArg (fun log => (Except.ok (), (⟨ledger.next, log⟩ : Ledger)))
      (List.append_nil ledger.log).symm
  · rfl

namespace Expr

open GrammarTypes.Derivation (Alike)

/-- A reference is checked alike under any two tables. -/
theorem checkReference_alike (rule : String) (limit : Nat) (names names' : List String)
    (name : String) :
    Alike (RuleContext.checkReference ⟨rule, names, limit⟩ name)
      (RuleContext.checkReference ⟨rule, names', limit⟩ name) := by
  have hquiet : ∀ table : List String,
      (if table.contains name then [] else [Event.danglingReference rule name]).filter
        (fun e => e.level ≠ .warn) = [] := by
    intro table
    split <;> rfl
  rw [RuleContext.checkReference_eq_note, RuleContext.checkReference_eq_note]
  exact .note ((hquiet names).trans (hquiet names').symm)

/-- A character class has the same type, or fails alike, under any two tables. -/
theorem classType_alike (rule : String) (limit : Nat) (names names' : List String)
    (parts : List ClassPart) (inverted ignoreCase : Bool) :
    Alike (RuleContext.classType ⟨rule, names, limit⟩ parts inverted ignoreCase)
      (RuleContext.classType ⟨rule, names', limit⟩ parts inverted ignoreCase) := by
  unfold RuleContext.classType
  rcases CharClass.type limit parts inverted ignoreCase with range | t
  · exact .throw _
  · exact .pure t

section

variable (rule : String) (limit : Nat) (names names' : List String)

/-- An action becomes the same helper under any two tables. -/
theorem action_alike (name code : String) (s : Scope) (y : Yield) :
    Alike (RuleContext.action ⟨rule, names, limit⟩ name code s y)
      (RuleContext.action ⟨rule, names', limit⟩ name code s y) :=
  .bind (.note rfl) fun _ => .bind (.note rfl) fun _ => .pure _

/-- A condition becomes the same helper under any two tables. -/
theorem predicate_alike (code : String) (s : Scope) :
    Alike (RuleContext.predicate ⟨rule, names, limit⟩ code s)
      (RuleContext.predicate ⟨rule, names', limit⟩ code s) :=
  .bind (.takeName rule) fun _ => .pure _

mutual

/-- An expression is derived alike under any two tables. -/
theorem derive_alike : ∀ (e : Expr) (s : Scope),
    Alike (derive ⟨rule, names, limit⟩ e s) (derive ⟨rule, names', limit⟩ e s)
  | .any, _ | .text _, _ | .literal _ _, _ | .simpleAnd _, _ | .simpleNot _, _ => .pure _
  | .charClass _ _ _, _ => .map _ (classType_alike rule limit names names' _ _ _)
  | .sequence es, s => .map _ (deriveElements_alike es s .empty)
  | .choice es, _ => .map _ (deriveAlternatives_alike es .empty)
  | .group e, s | .zeroOrMore e, s | .oneOrMore e, s | .optional e, s
  | .labeled (some _) e, s => .map _ (derive_alike e s)
  | .labeled none e, s | .named _ e, s => derive_alike e s
  | .ruleRef name, _ => .bind (checkReference_alike rule limit names names' name) fun _ => .pure _
  | .semanticAnd code, s | .semanticNot code, s => predicate_alike rule limit names names' code s
  | .action code e, s =>
    .bind (.takeName rule) fun name => .bind (derive_alike e s) fun y =>
      action_alike rule limit names names' name code s y

/-- The elements of a sequence are derived alike under any two tables. -/
theorem deriveElements_alike : ∀ (es : List Expr) (s collected : Scope),
    Alike (deriveElements ⟨rule, names, limit⟩ es s collected)
      (deriveElements ⟨rule, names', limit⟩ es s collected)
  | [], _, _ => .pure _
  | e :: es, s, _ =>
    .bind (derive_alike e s) fun _ => .bind (.note rfl) fun _ => .bind (.note rfl) fun _ =>
      .bind (deriveElements_alike es _ _) fun _ => .pure _

/-- The alternatives of a choice are derived alike under any two tables. -/
theorem deriveAlternatives_alike : ∀ (es : List Expr) (collected : Scope),
    Alike (deriveAlternatives ⟨rule, names, limit⟩ es collected)
      (deriveAlternatives ⟨rule, names', limit⟩ es collected)
  | [], _ => .pure _
  | e :: es, _ =>
    .bind (derive_alike e .empty) fun _ => .bind (.note rfl) fun _ =>
      .bind (deriveAlternatives_alike es _) fun _ => .pure _

end

/-- The expression of a rule is derived alike under any two tables. -/
theorem deriveRule_alike (e : Expr) :
    Alike (e.deriveRule ⟨rule, names, limit⟩) (e.deriveRule ⟨rule, names', limit⟩) := by
  unfold deriveRule
  cases e.unnamed with
  | action code inner =>
    exact .bind (derive_alike rule limit names names' inner .empty) fun y =>
      action_alike rule limit names names' (Helper.ruleName rule) code .empty y
  | _ => exact derive_alike rule limit names names' _ .empty

end

end Expr

/-- A rule is emitted alike under any two tables. -/
theorem Rule.emit_alike (options : EmitOptions) (names names' : List String) (rule : Rule) :
    (rule.emit options names).Alike (rule.emit options names') :=
  .map _ (.bind (.note rfl) fun _ => .bind .restart fun _ =>
    .bind (Expr.deriveRule_alike rule.name options.classLimit names names' rule.expression)
      fun _ => .pure _)

/-! ## Rules among other rules -/

namespace Except

variable {ε γ : Type}

/-- A function of the outcomes of a list is a function of the list of values. -/
theorem mapM_map_eq {f : α → Except ε β} {h : β → γ} (xs : List α) :
    xs.mapM (fun x => h <$> f x) = List.map h <$> xs.mapM f := by
  induction xs with
  | nil => rfl
  | cons x xs ih =>
    rw [List.mapM_cons, List.mapM_cons, ih]
    cases f x with
    | error e => rfl
    | ok y => cases xs.mapM f <;> rfl

/-- The value of an outcome, or another one when it has none. -/
def valueOr (default : α) : Except ε α → α
  | .ok a => a
  | .error _ => default

/-- The values of a list of outcomes that all have one. -/
theorem eq_map_of_mapM_eq_ok {f : α → Except ε β} (default : β) {xs : List α} {ys : List β}
    (h : xs.mapM f = .ok ys) : ys = xs.map fun x => valueOr default (f x) := by
  have hvalues := mapM_eq_ok_iff.1 h
  clear h
  induction hvalues with
  | nil => rfl
  | cons hy _ ih => rw [List.map_cons, hy, ← ih]; rfl

/-- The value at a place of a list of outcomes that all have one is that of the outcome there. -/
theorem getElem?_of_mapM_eq_ok {f : α → Except ε β} {xs : List α} {ys : List β}
    (h : xs.mapM f = .ok ys) {i : Nat} {x : α} (hx : xs[i]? = some x) :
    ∃ y, ys[i]? = some y ∧ f x = .ok y := by
  have hvalues := mapM_eq_ok_iff.1 h
  clear h
  induction hvalues generalizing i with
  | nil => exact nomatch hx
  | @cons z y zs ys hy _ ih =>
    cases i with
    | zero =>
      obtain rfl : z = x := Option.some.inj hx
      exact ⟨y, rfl, hy⟩
    | succ i => exact ih hx

end Except

/-- The text that a rule becomes wherever it is emitted. -/
def Rule.text (options : EmitOptions) (rule : Rule) : Except InvalidRange String :=
  Declaration.render <$> rule.declared options.classLimit

namespace Grammar

/-- The texts of the rules of a grammar, in order, as they stand in its text. -/
def ruleTexts (options : EmitOptions) (g : Grammar) : Derivation (List String) :=
  List.map Declaration.render <$> g.declarations options

variable {options : EmitOptions} {g g' : Grammar} {ledger : Ledger} {texts : List String}

/-- The texts of the rules of a grammar are those of the rules alone. -/
theorem runFrom_ruleTexts (options : EmitOptions) (g : Grammar) (ledger : Ledger) :
    ((g.ruleTexts options).runFrom ledger).1 = g.rules.mapM (Rule.text options) := by
  calc ((g.ruleTexts options).runFrom ledger).1
      = List.map Declaration.render <$> ((g.declarations options).runFrom ledger).1 :=
        congrArg Prod.fst (Derivation.runFrom_map _ (g.declarations options) ledger)
    _ = List.map Declaration.render <$> g.rules.mapM (Rule.declared options.classLimit) := by
        rw [runFrom_declarations]
    _ = g.rules.mapM (Rule.text options) := (Except.mapM_map_eq g.rules).symm

/-- A rule with the text it becomes. -/
def withText (options : EmitOptions) (rule : Rule) : Rule × String :=
  (rule, Except.valueOr "" (rule.text options))

/-- The rules of a grammar that is emitted, each with its text. -/
theorem zip_ruleTexts (h : ((g.ruleTexts options).runFrom ledger).1 = .ok texts) :
    g.rules.zip texts = g.rules.map (withText options) := by
  rw [runFrom_ruleTexts] at h
  rw [Except.eq_map_of_mapM_eq_ok "" h]
  have hzip : (g.rules.map id).zip (g.rules.map fun rule => Except.valueOr "" (rule.text options)) =
      g.rules.map (withText options) := List.zip_map'
  rwa [List.map_id] at hzip

/-- A grammar is emitted when all of its rules are rules of one that is. -/
theorem ruleTexts_of_subset (h : ((g.ruleTexts options).runFrom ledger).1 = .ok texts)
    (hsubset : g'.rules ⊆ g.rules) (ledger' : Ledger) :
    ∃ texts', ((g'.ruleTexts options).runFrom ledger').1 = .ok texts' := by
  rw [runFrom_ruleTexts] at h ⊢
  have hall := Except.exists_mapM_eq_ok_iff.1 ⟨texts, h⟩
  exact Except.exists_mapM_eq_ok_iff.2 fun rule hrule => hall rule (hsubset hrule)

end Grammar

/-- Under given options, the rules of grammars are emitted on their own. -/
structure EmitOptions.RulesApart (options : EmitOptions) : Prop where
  /-- A rule becomes the same text, or fails with the same error, under any two tables of names and
  after whatever was derived before it. -/
  outcome : ∀ (rule : Rule) (names names' : List String) (ledger ledger' : Ledger),
    ((rule.emit options names).runFrom ledger).1 = ((rule.emit options names').runFrom ledger').1
  /-- Two tables make a difference to the warnings only. -/
  warnings : ∀ (rule : Rule) (names names' : List String) (ledger : Ledger),
    ((rule.emit options names).runFrom ledger).2.SameButWarnings
      ((rule.emit options names').runFrom ledger).2
  /-- The text of a grammar is what stands before the rules and the texts of the rules in order. -/
  layout : ∀ (g : Grammar) (ledger : Ledger),
    ((g.emit options).runFrom ledger).1 =
      (fun texts => g.header options ++ String.join texts) <$>
        ((g.ruleTexts options).runFrom ledger).1
  /-- A rule of two grammars that are emitted has the same text in both: the one it has alone. -/
  same : ∀ (g g' : Grammar) (ledger ledger' : Ledger) (texts texts' : List String),
    ((g.ruleTexts options).runFrom ledger).1 = .ok texts →
    ((g'.ruleTexts options).runFrom ledger').1 = .ok texts' →
    ∀ (i j : Nat) (rule : Rule), g.rules[i]? = some rule → g'.rules[j]? = some rule →
      ∃ text, texts[i]? = some text ∧ texts'[j]? = some text ∧
        ∀ names ledger, ((rule.emit options names).runFrom ledger).1 = .ok text
  /-- When the rules are permuted, their texts are permuted with them. -/
  permuted : ∀ (g g' : Grammar) (ledger ledger' : Ledger) (texts : List String),
    ((g.ruleTexts options).runFrom ledger).1 = .ok texts → g.rules.Perm g'.rules →
    ∃ texts', ((g'.ruleTexts options).runFrom ledger').1 = .ok texts' ∧
      (g.rules.zip texts).Perm (g'.rules.zip texts')
  /-- When rules are taken away, or in reverse are added, their texts are and no others. -/
  removed : ∀ (g g' : Grammar) (ledger ledger' : Ledger) (texts : List String),
    ((g.ruleTexts options).runFrom ledger).1 = .ok texts → g'.rules.Sublist g.rules →
    ∃ texts', ((g'.ruleTexts options).runFrom ledger').1 = .ok texts' ∧
      (g'.rules.zip texts').Sublist (g.rules.zip texts)

/-- Rules are independent of each other: a rule is emitted in the same way under every table of
names and in every grammar. -/
theorem EmitOptions.rules_apart (options : EmitOptions) : options.RulesApart := by
  have htext : ∀ (rule : Rule) (names : List String) (ledger : Ledger),
      ((rule.emit options names).runFrom ledger).1 = rule.text options :=
    fun rule names ledger => rule.runFrom_emit options names ledger
  constructor
  case outcome =>
    intro rule names names' ledger ledger'
    rw [htext, htext]
  case warnings =>
    intro rule names names' ledger
    exact (rule.emit_alike options names names' ledger ledger (.refl ledger)).2
  case layout =>
    intro g ledger
    rw [Grammar.runFrom_emit, Grammar.runFrom_ruleTexts]
    unfold Rule.text
    rw [Except.mapM_map_eq]
    cases g.rules.mapM (Rule.declared options.classLimit) <;> rfl
  case same =>
    intro g g' ledger ledger' texts texts' h h' i j rule hi hj
    rw [Grammar.runFrom_ruleTexts] at h h'
    obtain ⟨text, htexts, hrule⟩ := Except.getElem?_of_mapM_eq_ok h hi
    obtain ⟨text', htexts', hrule'⟩ := Except.getElem?_of_mapM_eq_ok h' hj
    obtain rfl : text = text' := Except.ok.inj (hrule.symm.trans hrule')
    exact ⟨text, htexts, htexts', fun names ledger => (htext rule names ledger).trans hrule⟩
  case permuted =>
    intro g g' ledger ledger' texts h hperm
    obtain ⟨texts', h'⟩ := Grammar.ruleTexts_of_subset h hperm.symm.subset ledger'
    refine ⟨texts', h', ?_⟩
    rw [Grammar.zip_ruleTexts h, Grammar.zip_ruleTexts h']
    exact hperm.map _
  case removed =>
    intro g g' ledger ledger' texts h hsublist
    obtain ⟨texts', h'⟩ := Grammar.ruleTexts_of_subset h hsublist.subset ledger'
    refine ⟨texts', h', ?_⟩
    rw [Grammar.zip_ruleTexts h, Grammar.zip_ruleTexts h']
    exact hsublist.map _

end GrammarTypes
