import GrammarTypes.Proofs.CharClass.Expansion
import GrammarTypes.Proofs.Expr.Nodes

/-!
# The failure of a derivation

Only character classes fail, and a derivation stops at the first class that does. So it fails as the
leftmost of its visible classes that fails on its own (`Expr.result_reports`), whatever the scope
and the numbers are.

A class fails at its first malformed range if the expansion gets that far. A part without room ends
the expansion with success, and what follows it is not looked at: then the class hides its malformed
range (`CharClass.Hides`). More room hides less, but it can bring out another failure than before.
The limit makes no difference to the failure of a rule when no class hides anything
(`Expr.firstClass_reaches_iff`).
-/

namespace GrammarTypes

/-- What is found first in a list is found at its head or else in the rest. -/
theorem findSome?_cons_eq_or {α β : Type} (f : α → Option β) (x : α) (xs : List α) :
    (x :: xs).findSome? f = (f x).or (xs.findSome? f) := by
  rw [List.findSome?_cons]
  cases f x <;> rfl

/-! ## Reports -/

namespace Except

variable {ε ε' α β : Type}

/-- The outcome fails with the given failure, or succeeds if there is none. -/
def Reports (x : Except ε α) (failure : Option ε) : Prop :=
  ∀ err, x = .error err ↔ failure = some err

/-- A success reports nothing. -/
theorem reports_ok_iff {a : α} {failure : Option ε} :
    Reports (.ok a) failure ↔ failure = none := by
  rw [Option.eq_none_iff_forall_ne_some]
  constructor
  · intro h err hsome
    exact nomatch (h err).2 hsome
  · exact fun h err => iff_of_false nofun (h err)

/-- A failure reports itself. -/
theorem reports_error_iff {e : ε} {failure : Option ε} :
    Reports (.error e : Except ε α) failure ↔ failure = some e := by
  constructor
  · exact fun h => (h e).1 rfl
  · rintro rfl err
    rw [Except.error.injEq, Option.some.injEq]

/-- A function of an outcome reports what the outcome reports. -/
theorem Reports.map {x : Except ε α} {failure : Option ε} (h : Reports x failure) (f : α → β) :
    Reports (f <$> x) failure :=
  fun err => map_eq_error_iff.trans (h err)

/-- Two steps report the failure of the first, or else that of the second. -/
theorem Reports.bind {x : Except ε α} {f : α → Except ε β} {failure failure' : Option ε}
    (hx : Reports x failure) (hf : ∀ a, Reports (f a) failure') :
    Reports (x >>= f) (failure.or failure') := by
  cases x with
  | error e =>
    obtain rfl := reports_error_iff.1 hx
    exact reports_error_iff.2 rfl
  | ok a =>
    obtain rfl := reports_ok_iff.1 hx
    exact hf a

end Except

/-! ## Classes that fail -/

namespace CharClass

variable {room room' : Nat} {parts : List ClassPart} {lower upper : String}

/-- The first malformed range of a class. -/
def FirstMalformed (parts : List ClassPart) (lower upper : String) : Prop :=
  ∃ before after, parts = before ++ .range lower upper :: after ∧ Malformed lower upper ∧
    ∀ part ∈ before, ∃ texts, Lists part texts

/-- The first malformed range of a class comes after parts that fit. -/
def Reaches (room : Nat) (parts : List ClassPart) (lower upper : String) : Prop :=
  ∃ before after texts, parts = before ++ .range lower upper :: after ∧ Malformed lower upper ∧
    Fits room before texts

/-- The class has a malformed range, but not all parts before the first one fit. -/
def Hides (room : Nat) (parts : List ClassPart) : Prop :=
  ∃ lower upper, FirstMalformed parts lower upper ∧ ¬ Reaches room parts lower upper

/-- What is reached is the first malformed range. -/
theorem Reaches.firstMalformed (h : Reaches room parts lower upper) :
    FirstMalformed parts lower upper := by
  obtain ⟨before, after, texts, hparts, hmalformed, hfits⟩ := h
  exact ⟨before, after, hparts, hmalformed, hfits.lists⟩

/-- What is reached is still reached when there is more room. -/
theorem Reaches.mono (h : Reaches room parts lower upper) (hroom : room ≤ room') :
    Reaches room' parts lower upper := by
  obtain ⟨before, after, texts, hparts, hmalformed, hfits⟩ := h
  exact ⟨before, after, texts, hparts, hmalformed, hfits.mono hroom⟩

/-- A class that hides nothing reaches its first malformed range. -/
theorem reaches_iff_of_not_hides (h : ¬ Hides room parts) :
    Reaches room parts lower upper ↔ FirstMalformed parts lower upper := by
  refine ⟨Reaches.firstMalformed, fun hfirst => ?_⟩
  by_contra hreaches
  exact h ⟨lower, upper, hfirst, hreaches⟩

/-- The first malformed range is at the head, or in the rest when the head lists something. -/
theorem firstMalformed_cons {part : ClassPart} :
    FirstMalformed (part :: parts) lower upper ↔
      (part = .range lower upper ∧ Malformed lower upper) ∨
        (∃ texts, Lists part texts) ∧ FirstMalformed parts lower upper := by
  constructor
  · rintro ⟨_ | ⟨first, before⟩, after, hparts, hmalformed, hbefore⟩
    · obtain ⟨rfl, -⟩ := List.cons.inj hparts
      exact .inl ⟨rfl, hmalformed⟩
    · obtain ⟨rfl, rfl⟩ := List.cons.inj hparts
      obtain ⟨hpart, hbefore⟩ := List.forall_mem_cons.1 hbefore
      exact .inr ⟨hpart, before, after, rfl, hmalformed, hbefore⟩
  · rintro (⟨rfl, hmalformed⟩ | ⟨hpart, before, after, rfl, hmalformed, hbefore⟩)
    · exact ⟨[], parts, rfl, hmalformed, fun _ hp => nomatch hp⟩
    · exact ⟨part :: before, after, rfl, hmalformed, List.forall_mem_cons.2 ⟨hpart, hbefore⟩⟩

/-- A class has one first malformed range. -/
theorem FirstMalformed.unique {lower' upper' : String} (h : FirstMalformed parts lower upper)
    (h' : FirstMalformed parts lower' upper') : lower = lower' ∧ upper = upper' := by
  induction parts with
  | nil =>
    obtain ⟨before, after, hparts, -⟩ := h
    simp at hparts
  | cons part parts ih =>
    rcases firstMalformed_cons.1 h with ⟨rfl, hmalformed⟩ | ⟨⟨texts, hlists⟩, hrest⟩
    · rcases firstMalformed_cons.1 h' with ⟨hpart, -⟩ | ⟨⟨texts, hlists⟩, -⟩
      · exact ClassPart.range.inj hpart
      · exact absurd hlists (hmalformed.not_lists texts)
    · rcases firstMalformed_cons.1 h' with ⟨rfl, hmalformed⟩ | ⟨-, hrest'⟩
      · exact absurd hlists (hmalformed.not_lists texts)
      · exact ih hrest hrest'

/-- A class that reaches a malformed range hides nothing. -/
theorem Reaches.not_hides (h : Reaches room parts lower upper) : ¬ Hides room parts := by
  rintro ⟨lower', upper', hfirst, hreaches⟩
  obtain ⟨rfl, rfl⟩ := hfirst.unique h.firstMalformed
  exact hreaches h

/-- A class reaches the same under two limits exactly when it hides its malformed range under both
or under neither. -/
theorem reaches_iff_iff_hides_iff :
    (∀ lower upper, Reaches room parts lower upper ↔ Reaches room' parts lower upper) ↔
      (Hides room parts ↔ Hides room' parts) := by
  constructor
  · intro h
    simp only [Hides, h]
  · intro h lower upper
    constructor
    · intro hreaches
      have hhides : ¬ Hides room' parts := mt h.2 hreaches.not_hides
      exact (reaches_iff_of_not_hides hhides).2 hreaches.firstMalformed
    · intro hreaches
      have hhides : ¬ Hides room parts := mt h.1 hreaches.not_hides
      exact (reaches_iff_of_not_hides hhides).2 hreaches.firstMalformed

/-- A class fails when it is neither inverted nor ignores case and reaches a malformed range. -/
theorem type_eq_error_iff {inverted ignoreCase : Bool} :
    type room parts inverted ignoreCase = .error (lower, upper) ↔
      (inverted = false ∧ ignoreCase = false) ∧ Reaches room parts lower upper := by
  unfold type Reaches
  rw [← expand_eq_error_iff]
  cases inverted with
  | true => exact iff_of_false nofun fun h => nomatch h.1.1
  | false =>
    cases ignoreCase with
    | true => exact iff_of_false nofun fun h => nomatch h.1.2
    | false =>
      cases parts with
      | nil => exact iff_of_false nofun fun h => nomatch h.2
      | cons part parts =>
        rw [and_iff_right ⟨rfl, rfl⟩]
        exact Except.map_eq_error_iff

end CharClass

/-! ## The leftmost class that fails -/

namespace Expr

section

variable (rule : String) (limit : Nat)

/-- The failure of an expression that is a class. -/
def ownFailure? : Expr → Option InvalidRange
  | .charClass parts inverted ignoreCase =>
    match CharClass.type limit parts inverted ignoreCase with
    | .ok _ => none
    | .error (lower, upper) => some ⟨rule, lower, upper⟩
  | .action .. | .any | .choice _ | .group _ | .labeled .. | .literal .. | .named .. | .oneOrMore _
  | .optional _ | .ruleRef _ | .semanticAnd _ | .semanticNot _ | .sequence _ | .simpleAnd _
  | .simpleNot _ | .text _ | .zeroOrMore _ => none

/-- The failure of the leftmost visible class that fails. -/
def failure? (e : Expr) : Option InvalidRange :=
  e.preorder.findSome? fun x => x.expr.ownFailure? rule limit

end

variable {rule : String} {limit : Nat}

/-- The failure of parts at consecutive places is that of the first that has one. -/
theorem findSome?_beneathAll : ∀ (i : Nat) (es : List Expr),
    ((beneathAll List.cons i es).findSome? fun x => x.expr.ownFailure? rule limit) =
      es.findSome? (failure? rule limit)
  | _, [] => rfl
  | i, e :: es => by
    have hfirst : ((preorder e).map (Node.under i)).findSome?
        (fun x => x.expr.ownFailure? rule limit) = e.failure? rule limit := by
      rw [List.findSome?_map]
      rfl
    rw [beneathAll, List.findSome?_append, findSome?_cons_eq_or, ← hfirst,
      findSome?_beneathAll (i + 1) es]
    rfl

/-- The failure of an expression is its own or else that of the first part that has one. -/
theorem failure?_eq (e : Expr) :
    e.failure? rule limit =
      (e.ownFailure? rule limit).or (e.parts.findSome? (failure? rule limit)) := by
  rw [failure?, preorder, beneath_eq, findSome?_cons_eq_or, findSome?_beneathAll]

/-- An expression that is no class and has a single part has the failure of the part. -/
theorem failure?_of_part {e inner : Expr} (hown : e.ownFailure? rule limit = none)
    (hparts : e.parts = [inner]) : e.failure? rule limit = inner.failure? rule limit := by
  rw [failure?_eq, hown, Option.none_or, hparts, List.findSome?_singleton]

/-- An expression that is no class has the failure of its first part that has one. -/
theorem failure?_of_parts {e : Expr} (hown : e.ownFailure? rule limit = none) :
    e.failure? rule limit = e.parts.findSome? (failure? rule limit) := by
  rw [failure?_eq, hown, Option.none_or]

/-- A class reports its own failure. -/
theorem charClass_reports (parts : List ClassPart) (inverted ignoreCase : Bool) (s : Scope)
    (n : Nat) :
    Except.Reports (result rule limit (.charClass parts inverted ignoreCase) s n)
      ((Expr.charClass parts inverted ignoreCase).failure? rule limit) := by
  rw [failure?_eq, Expr.parts, List.findSome?_nil, Option.or_none, result, ownFailure?]
  rcases CharClass.type limit parts inverted ignoreCase with ⟨lower, upper⟩ | t
  · exact Except.reports_error_iff.2 rfl
  · exact Except.reports_ok_iff.2 rfl

mutual

/-- A derivation reports the failure of the leftmost visible class that fails. -/
theorem result_reports : ∀ (e : Expr) (s : Scope) (n : Nat),
    Except.Reports (result rule limit e s n) (e.failure? rule limit)
  | .any, _, _ | .text _, _, _ | .literal _ _, _, _ | .ruleRef _, _, _ | .simpleAnd _, _, _
  | .simpleNot _, _, _ | .semanticAnd _, _, _ | .semanticNot _, _, _ =>
    Except.reports_ok_iff.2 rfl
  | .charClass parts inverted ignoreCase, s, n => charClass_reports parts inverted ignoreCase s n
  | .named _ e, s, n | .labeled none e, s, n => by
    rw [failure?_of_part rfl rfl]
    exact result_reports e s n
  | .group e, s, n | .zeroOrMore e, s, n | .oneOrMore e, s, n | .optional e, s, n
  | .labeled (some _) e, s, n => by
    rw [failure?_of_part rfl rfl]
    exact (result_reports e s n).map _
  | .action _ e, s, n => by
    rw [failure?_of_part rfl rfl]
    exact (result_reports e s (n + 1)).map _
  | .sequence es, s, n => by
    rw [failure?_of_parts rfl]
    exact (elementResults_reports es s n).map _
  | .choice es, _, n => by
    rw [failure?_of_parts rfl]
    exact (alternativeResults_reports es n).map _

/-- The elements of a sequence report the failure of the first that fails. -/
theorem elementResults_reports : ∀ (es : List Expr) (s : Scope) (n : Nat),
    Except.Reports (elementResults rule limit es s n) (es.findSome? (failure? rule limit))
  | [], _, _ => Except.reports_ok_iff.2 rfl
  | e :: es, s, n => by
    rw [findSome?_cons_eq_or]
    exact (result_reports e s n).bind fun y => (elementResults_reports es _ _).map (y :: ·)

/-- The alternatives of a choice report the failure of the first that fails. -/
theorem alternativeResults_reports : ∀ (es : List Expr) (n : Nat),
    Except.Reports (alternativeResults rule limit es n) (es.findSome? (failure? rule limit))
  | [], _ => Except.reports_ok_iff.2 rfl
  | e :: es, n => by
    rw [findSome?_cons_eq_or]
    exact (result_reports e .empty n).bind fun y => (alternativeResults_reports es _).map (y :: ·)

end

/-- Display names at the top do not fail. -/
theorem failure?_unnamed (e : Expr) :
    e.unnamed.failure? rule limit = e.failure? rule limit := by
  fun_induction unnamed e with
  | case1 display e ih => exact ih.trans (failure?_of_part rfl rfl).symm
  | case2 e => rfl

/-- A rule reports the failure of its expression. -/
theorem ruleResult_reports (e : Expr) (n : Nat) :
    Except.Reports (e.ruleResult rule limit n) (e.failure? rule limit) := by
  rw [← failure?_unnamed]
  unfold ruleResult topAction?
  cases e.unnamed with
  | action code inner =>
    rw [failure?_of_part rfl rfl]
    exact (result_reports inner .empty n).map _
  | _ => exact result_reports _ .empty n

/-! ## Failures and limits -/

/-- The visible classes that are neither inverted nor ignore case. -/
def HasClass (e : Expr) (parts : List ClassPart) : Prop :=
  ∃ x ∈ e.preorder, x.expr = .charClass parts false false

/-- The range of the leftmost visible class for which there is one, where `found` says which range
there is for a class that is neither inverted nor ignores case. -/
def FirstClass (e : Expr) (found : List ClassPart → String → String → Prop)
    (lower upper : String) : Prop :=
  ∃ before x after parts, e.preorder = before ++ x :: after ∧
    x.expr = .charClass parts false false ∧ found parts lower upper ∧
    ∀ z ∈ before, ∀ parts, z.expr = .charClass parts false false →
      ∀ lower upper, ¬ found parts lower upper

/-- The expression has a class that hides a malformed range. -/
def HidesRange (limit : Nat) (e : Expr) : Prop :=
  ∃ parts, e.HasClass parts ∧ CharClass.Hides limit parts

/-- A rule fails under two limits with the same errors. -/
def FailsAlike (cx : RuleContext) (limit : Nat) (e : Expr) (ledger : Ledger) : Prop :=
  ∀ err, ((e.deriveRule cx).runFrom ledger).1 = .error err ↔
    ((e.deriveRule { cx with classLimit := limit }).runFrom ledger).1 = .error err

open CharClass (Reaches FirstMalformed Hides)

/-- A class has a failure of its own when it reaches a malformed range. -/
theorem ownFailure?_eq_some_iff {e : Expr} {err : InvalidRange} :
    e.ownFailure? rule limit = some err ↔
      ∃ parts, e = .charClass parts false false ∧
        Reaches limit parts err.lower err.upper ∧ err.rule = rule := by
  cases e with
  | charClass parts inverted ignoreCase =>
    rw [ownFailure?]
    constructor
    · intro h
      split at h
      · exact nomatch h
      · next lower upper htype =>
        obtain rfl := Option.some.inj h
        obtain ⟨⟨rfl, rfl⟩, hreaches⟩ := CharClass.type_eq_error_iff.1 htype
        exact ⟨parts, rfl, hreaches, rfl⟩
    · rintro ⟨parts', heq, hreaches, rfl⟩
      obtain ⟨rfl, rfl, rfl⟩ := Expr.charClass.inj heq
      rw [CharClass.type_eq_error_iff.2 ⟨⟨rfl, rfl⟩, hreaches⟩]
  | _ => exact iff_of_false nofun fun ⟨_, heq, _⟩ => nomatch heq

/-- An expression fails with the range that its leftmost class reaches of those that reach one. -/
theorem failure?_eq_some_iff {e : Expr} {err : InvalidRange} :
    e.failure? rule limit = some err ↔
      e.FirstClass (Reaches limit) err.lower err.upper ∧ err.rule = rule := by
  have hnone : ∀ z : Node, z.expr.ownFailure? rule limit = none ↔
      ∀ parts, z.expr = .charClass parts false false →
        ∀ lower upper, ¬ Reaches limit parts lower upper := by
    intro z
    rw [Option.eq_none_iff_forall_ne_some]
    constructor
    · intro h parts hparts lower upper hreaches
      exact h ⟨rule, lower, upper⟩ (ownFailure?_eq_some_iff.2 ⟨parts, hparts, hreaches, rfl⟩)
    · intro h err herr
      obtain ⟨parts, hparts, hreaches, -⟩ := ownFailure?_eq_some_iff.1 herr
      exact h parts hparts err.lower err.upper hreaches
  rw [failure?, List.findSome?_eq_some_iff]
  simp only [ownFailure?_eq_some_iff, hnone]
  constructor
  · rintro ⟨before, x, after, hpreorder, ⟨parts, hparts, hreaches, hrule⟩, hbefore⟩
    exact ⟨⟨before, x, after, parts, hpreorder, hparts, hreaches, hbefore⟩, hrule⟩
  · rintro ⟨⟨before, x, after, parts, hpreorder, hparts, hreaches, hbefore⟩, hrule⟩
    exact ⟨before, x, after, hpreorder, ⟨parts, hparts, hreaches, hrule⟩, hbefore⟩

/-- A rule fails with the range that the leftmost of its classes reaches. -/
theorem runFrom_deriveRule_eq_error_iff {cx : RuleContext} {e : Expr} {ledger : Ledger}
    {err : InvalidRange} :
    ((e.deriveRule cx).runFrom ledger).1 = .error err ↔
      e.FirstClass (Reaches cx.classLimit) err.lower err.upper ∧ err.rule = cx.rule := by
  rw [(deriveRule_computes cx e ledger).1, ruleResult_reports e ledger.next err,
    failure?_eq_some_iff]

/-- Which class is the first depends on the classes of the expression only. -/
theorem FirstClass.congr {e : Expr} {found found' : List ClassPart → String → String → Prop}
    (h : ∀ parts, e.HasClass parts →
      ∀ lower upper, found parts lower upper ↔ found' parts lower upper) {lower upper : String}
    (hfirst : e.FirstClass found lower upper) : e.FirstClass found' lower upper := by
  obtain ⟨before, x, after, parts, hpreorder, hparts, hfound, hbefore⟩ := hfirst
  have hx : x ∈ e.preorder := by simp [hpreorder]
  refine ⟨before, x, after, parts, hpreorder, hparts, (h parts ⟨x, hx, hparts⟩ _ _).1 hfound, ?_⟩
  intro z hz parts' hparts' lower' upper' hfound'
  have hz' : z ∈ e.preorder := hpreorder ▸ List.mem_append_left _ hz
  exact hbefore z hz parts' hparts' lower' upper'
    ((h parts' ⟨z, hz', hparts'⟩ lower' upper').2 hfound')

/-- When no class hides anything, the leftmost class with a malformed range decides the failure. -/
theorem firstClass_reaches_iff {e : Expr} (h : ¬ e.HidesRange limit) {lower upper : String} :
    e.FirstClass (Reaches limit) lower upper ↔ e.FirstClass FirstMalformed lower upper := by
  have hreaches : ∀ parts, e.HasClass parts → ∀ lower upper,
      Reaches limit parts lower upper ↔ FirstMalformed parts lower upper := by
    intro parts hparts lower upper
    exact CharClass.reaches_iff_of_not_hides fun hhides => h ⟨parts, hparts, hhides⟩
  exact ⟨.congr hreaches, .congr fun parts hparts lower upper =>
    (hreaches parts hparts lower upper).symm⟩

/-- The range of an expression that is a class is its own. -/
theorem firstClass_charClass {found : List ClassPart → String → String → Prop}
    {parts : List ClassPart} {lower upper : String} :
    (Expr.charClass parts false false).FirstClass found lower upper ↔
      found parts lower upper := by
  constructor
  · rintro ⟨before, x, after, parts', hpreorder, hparts, hfound, -⟩
    have hx : x ∈ (Expr.charClass parts false false).preorder := by simp [hpreorder]
    obtain rfl := List.mem_singleton.1 hx
    obtain ⟨rfl, -⟩ := Expr.charClass.inj hparts
    exact hfound
  · exact fun hfound => ⟨[], _, [], parts, rfl, rfl, hfound, fun _ hz => nomatch hz⟩

/-- A rule that fails fails under every larger limit. -/
theorem exists_failure?_of_le {e : Expr} {limit' : Nat} {err : InvalidRange}
    (hlimit : limit ≤ limit') (h : e.failure? rule limit = some err) :
    ∃ err', e.failure? rule limit' = some err' := by
  obtain ⟨x, hx, hown⟩ := List.exists_of_findSome?_eq_some h
  obtain ⟨parts, hparts, hreaches, hrule⟩ := ownFailure?_eq_some_iff.1 hown
  have hown' : x.expr.ownFailure? rule limit' = some err :=
    ownFailure?_eq_some_iff.2 ⟨parts, hparts, hreaches.mono hlimit, hrule⟩
  refine Option.ne_none_iff_exists'.1 fun hnone => ?_
  have hx' := List.findSome?_eq_none_iff.1 hnone x hx
  rw [hown'] at hx'
  exact nomatch hx'

/-- A rule fails with the range that the leftmost of its classes reaches, and so it fails under
every limit that is larger than one under which it fails. When no class hides a malformed range, the
leftmost class with such a range decides the failure; so a rule fails alike under two limits if no
class hides one under either. A rule that is a class fails alike under two limits exactly when the
class hides a malformed range under both or under neither. -/
theorem deriveRule_fails_iff (cx : RuleContext) (e : Expr) (ledger : Ledger) :
    (∀ err, ((e.deriveRule cx).runFrom ledger).1 = .error err ↔
      e.FirstClass (Reaches cx.classLimit) err.lower err.upper ∧ err.rule = cx.rule) ∧
    (∀ limit err, cx.classLimit ≤ limit → ((e.deriveRule cx).runFrom ledger).1 = .error err →
      ∃ err', ((e.deriveRule { cx with classLimit := limit }).runFrom ledger).1 = .error err') ∧
    (¬ e.HidesRange cx.classLimit → ∀ err, ((e.deriveRule cx).runFrom ledger).1 = .error err ↔
      e.FirstClass FirstMalformed err.lower err.upper ∧ err.rule = cx.rule) ∧
    (∀ limit, ¬ e.HidesRange cx.classLimit → ¬ e.HidesRange limit →
      e.FailsAlike cx limit ledger) ∧
    ∀ limit parts, e = .charClass parts false false →
      (e.FailsAlike cx limit ledger ↔ (Hides cx.classLimit parts ↔ Hides limit parts)) := by
  have hfirst : ¬ e.HidesRange cx.classLimit →
      ∀ err, ((e.deriveRule cx).runFrom ledger).1 = .error err ↔
        e.FirstClass FirstMalformed err.lower err.upper ∧ err.rule = cx.rule := by
    intro hhides err
    rw [runFrom_deriveRule_eq_error_iff, firstClass_reaches_iff hhides]
  refine ⟨fun err => runFrom_deriveRule_eq_error_iff, ?_, hfirst, ?_, ?_⟩
  · intro limit err hlimit herr
    rw [(deriveRule_computes cx e ledger).1, ruleResult_reports e ledger.next err] at herr
    obtain ⟨err', herr'⟩ := exists_failure?_of_le hlimit herr
    refine ⟨err', ?_⟩
    rw [(deriveRule_computes _ e ledger).1, ruleResult_reports e ledger.next err']
    exact herr'
  · intro limit hhides hhides' err
    rw [hfirst hhides, runFrom_deriveRule_eq_error_iff, firstClass_reaches_iff hhides']
  · rintro limit parts rfl
    rw [← CharClass.reaches_iff_iff_hides_iff]
    simp only [FailsAlike, runFrom_deriveRule_eq_error_iff, firstClass_charClass]
    constructor
    · intro h lower upper
      simpa using h ⟨cx.rule, lower, upper⟩
    · exact fun h err => and_congr_left fun _ => h err.lower err.upper

/-- A class that lists a letter before a malformed range. -/
def malformedAfterLetter : Expr :=
  .charClass [.char "a", .range "z" "a"] false false

/-- The least limit that leaves room for the letter is enough for the malformed range to be reported
as under any other. -/
theorem deriveRule_fails_iff_after_letter :
    malformedAfterLetter.FailsAlike ⟨"R", [], 1⟩ 256 {} ∧
      ((malformedAfterLetter.deriveRule ⟨"R", [], 256⟩).runFrom {}).1 =
        .error ⟨"R", "z", "a"⟩ := by
  have hhides : ∀ limit, 1 ≤ limit → ¬ malformedAfterLetter.HidesRange limit := by
    rintro limit hlimit ⟨parts, ⟨x, hx, hparts⟩, hhides⟩
    obtain rfl := List.mem_singleton.1 hx
    obtain ⟨rfl, -⟩ := Expr.charClass.inj hparts
    have hreaches : Reaches limit [.char "a", .range "z" "a"] "z" "a" :=
      ⟨[.char "a"], [], ["a"], rfl, CharClass.endpoints?_eq_none_iff.1 rfl,
        .cons (.char "a") hlimit (.nil _)⟩
    exact hreaches.not_hides hhides
  obtain ⟨-, -, -, halike, -⟩ := deriveRule_fails_iff ⟨"R", [], 1⟩ malformedAfterLetter {}
  exact ⟨halike 256 (hhides 1 (by decide)) (hhides 256 (by decide)), rfl⟩

/-- A range of 257 characters before a malformed range. -/
def malformedAfterRange : Expr :=
  .charClass [.range "\x00" "\u0100", .range "z" "a"] false false

/-- Under a limit of 256 the malformed range is hidden and the rule succeeds, and under a limit of
257 it fails. -/
theorem deriveRule_hides_malformed :
    ((malformedAfterRange.deriveRule ⟨"R", [], 256⟩).runFrom {}).1 = .ok (.of .text) ∧
      ((malformedAfterRange.deriveRule ⟨"R", [], 257⟩).runFrom {}).1 = .error ⟨"R", "z", "a"⟩ ∧
      ¬ malformedAfterRange.FailsAlike ⟨"R", [], 256⟩ 257 {} := by
  have htext : ((malformedAfterRange.deriveRule ⟨"R", [], 256⟩).runFrom {}).1 = .ok (.of .text) :=
    rfl
  have herror : ((malformedAfterRange.deriveRule ⟨"R", [], 257⟩).runFrom {}).1 =
      .error ⟨"R", "z", "a"⟩ := rfl
  refine ⟨htext, herror, fun halike => ?_⟩
  have hfails := (halike ⟨"R", "z", "a"⟩).2 herror
  rw [htext] at hfails
  exact nomatch hfails

end Expr

end GrammarTypes
