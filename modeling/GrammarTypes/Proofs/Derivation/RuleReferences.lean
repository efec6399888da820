import GrammarTypes.Proofs.Derivation.Decider
import GrammarTypes.Proofs.Derivation.Labels
import GrammarTypes.Proofs.Helper.References

/-!
# References to rules

A reference to a rule is a type of its own, which stands for the rule by its name. On the way up
types are joined, put into groups and bound to labels, and repeats are dropped; none of this makes a
reference or loses one. So the rules that a yield mentions are among those that the expression
refers to at a visible node (`Expr.Traced`), and the labels that helpers see add only what the
scope mentions.

References are lost in two places. An action replaces the value of its part, and a capture with a
label leaves the labels inside it behind. The lemmas on `Yield.Mentions` say of each operation what
becomes of the mentions of its parts: a parent sees those in the value and in the labels
(`Yield.Shows`), which are all of them when there is no action. An expression without actions and
without captures inside captures therefore mentions every rule that it refers to
(`Expr.mentions_preserved`).
-/

namespace GrammarTypes

/-! ## What yields mention -/

namespace Yield

/-- The rule stands in one of the types or in a candidate of one of the labels, at any depth. -/
def Mentions (y : Yield) (name : String) : Prop :=
  .ruleRef name ∈ Ty.atomsAll y.types ∨ .ruleRef name ∈ y.labels.atoms

/-- The rule stands in the value or in a candidate of one of the labels: a parent sees it. -/
def Shows (y : Yield) (name : String) : Prop :=
  .ruleRef name ∈ Ty.atomsAll y.valueTypes ∨ .ruleRef name ∈ y.labels.atoms

variable {y acc : Yield} {ys : List Yield} {name : String}

/-- A rule stands in the value when it stands in the types and no action decides the value. -/
theorem ruleRef_mem_valueTypes : .ruleRef name ∈ Ty.atomsAll y.valueTypes ↔
    y.action = none ∧ .ruleRef name ∈ Ty.atomsAll y.types := by
  cases h : y.action with
  | none => rw [valueTypes_of_no_action h, and_iff_right rfl]
  | some a =>
    rw [valueTypes_of_action h, Ty.atomsAll_singleton]
    simp [Ty.atoms]

/-- What a parent sees is mentioned. -/
theorem Shows.mentions (h : y.Shows name) : y.Mentions name :=
  h.imp_left fun hvalue => (ruleRef_mem_valueTypes.1 hvalue).2

/-- What is mentioned is seen by a parent when no action decides the value. -/
theorem Mentions.shows (h : y.Mentions name) (haction : y.action = none) : y.Shows name :=
  h.imp_left fun htypes => ruleRef_mem_valueTypes.2 ⟨haction, htypes⟩

/-- A single type mentions what stands in it. -/
theorem mentions_of {t : Ty} : (Yield.of t).Mentions name ↔ .ruleRef name ∈ t.atoms := by
  have hlabels : Ty.ruleRef name ∉ (Yield.of t).labels.atoms := List.not_mem_nil
  rw [Mentions, or_iff_left hlabels, Yield.of, Ty.atomsAll_singleton]

/-- Groups, repetitions and options mention what their part shows. -/
theorem mentions_wrap {e inner : Expr} {f : List Ty → Ty} (he : Expr.Wraps e inner f) :
    (y.wrap f).Mentions name ↔ y.Shows name := by
  rw [Mentions, Shows, types_wrap, labels_wrap, Ty.atomsAll_singleton,
    he.mem_atoms (.ruleRef name), Scope.mem_atoms_empty_merge Ty.noConfusion]

/-- A capture mentions what stands in the value that it captures. -/
theorem mentions_capture {label : String} :
    (y.capture label).Mentions name ↔ .ruleRef name ∈ Ty.atomsAll y.valueTypes := by
  have htypes : Ty.ruleRef name ∉ Ty.atomsAll (y.capture label).types := List.not_mem_nil
  have hempty : Ty.ruleRef name ∉ Scope.empty.atoms := List.not_mem_nil
  rw [Mentions, or_iff_right htypes, labels_capture, Scope.mem_atoms_bind Ty.noConfusion,
    or_iff_right hempty]

/-- An action mentions what stands in the labels of its part. -/
theorem mentions_underAction {helper code : String} {s : Scope} :
    (y.underAction helper code s).Mentions name ↔ .ruleRef name ∈ y.labels.atoms := by
  have htypes : Ty.ruleRef name ∉ Ty.atomsAll (y.underAction helper code s).types := by
    simp [types_underAction, Ty.atomsAll, Ty.atoms]
  rw [Mentions, or_iff_right htypes, labels_underAction,
    Scope.mem_atoms_empty_merge Ty.noConfusion]

/-- The entry that an element adds to a sequence mentions what stands in its value, for an earlier
action is entered as what its helper returns. -/
theorem ruleRef_mem_entry {decided : Option Action} :
    .ruleRef name ∈ Ty.atomsAll (entry decided y) ↔ .ruleRef name ∈ Ty.atomsAll y.valueTypes := by
  have hne : Ty.ruleRef name ≠ .unknown := Ty.noConfusion
  rw [ruleRef_mem_valueTypes]
  -- An element with an action enters no rule, and its value mentions none either.
  unfold entry
  split
  · next haction =>
    rw [Ty.atomsAll_singleton, Ty.mem_atoms_groupOf hne, Ty.atomsAll_singleton, haction]
    simp [Ty.atoms]
  · next haction =>
    rw [haction]
    simp [Ty.atomsAll]
  · next haction =>
    rw [haction, and_iff_right rfl]
    split
    · next hempty => rw [List.isEmpty_iff.1 hempty]
    · rw [Ty.atomsAll_singleton, Ty.mem_atoms_groupOf hne]

/-- One more element adds what it shows. -/
theorem mentions_append :
    (acc.append y).Mentions name ↔ acc.Mentions name ∨ y.Shows name := by
  rw [Mentions, types_append, labels_append, Ty.atomsAll_append, List.mem_append,
    ruleRef_mem_entry, Scope.mem_atoms_merge Ty.noConfusion, or_or_or_comm]
  rfl

/-- The elements add what each of them shows. -/
theorem mentions_foldl_append :
    (ys.foldl append acc).Mentions name ↔ acc.Mentions name ∨ ∃ y ∈ ys, y.Shows name := by
  induction ys generalizing acc with
  | nil => simp
  | cons y ys ih => rw [List.foldl_cons, ih, mentions_append, List.exists_mem_cons_iff, or_assoc]

/-- A sequence mentions what one of its elements shows. -/
theorem mentions_sequence : (sequence ys).Mentions name ↔ ∃ y ∈ ys, y.Shows name := by
  have hempty : ¬ ({} : Yield).Mentions name := by
    rintro (htypes | hlabels)
    · exact absurd htypes List.not_mem_nil
    · exact absurd hlabels List.not_mem_nil
  rw [sequence, mentions_foldl_append, or_iff_right hempty]

/-- A choice mentions what one of its alternatives shows. -/
theorem mentions_choice : (choice ys).Mentions name ↔ ∃ y ∈ ys, y.Shows name := by
  have htypes : .ruleRef name ∈ Ty.atomsAll (choice ys).types ↔
      ∃ y ∈ ys, .ruleRef name ∈ Ty.atomsAll y.valueTypes := by
    simp [types_choice, Ty.mem_atomsAll, Ty.mem_atoms_groupOf]
  have hempty : Ty.ruleRef name ∉ Scope.empty.atoms := List.not_mem_nil
  have hlabels : .ruleRef name ∈ (choice ys).labels.atoms ↔
      ∃ y ∈ ys, .ruleRef name ∈ y.labels.atoms := by
    rw [labels_choice, mem_atoms_foldl_merge Ty.noConfusion, or_iff_right hempty]
  rw [Mentions, htypes, hlabels]
  simp only [Shows, and_or_left, exists_or]

end Yield

namespace Expr

variable {cx : RuleContext} {rule : String} {limit : Nat} {e inner : Expr} {es : List Expr}
  {s : Scope} {n : Nat} {y : Yield} {ys : List Yield} {name : String}

/-! ## What expressions refer to -/

/-- A visible node of the expression is a reference to the rule. -/
def RefersTo (e : Expr) (name : String) : Prop := e.HasNode (· = .ruleRef name)

/-- An expression refers to what its parts refer to. -/
theorem RefersTo.of_part {part : Expr} (h : part.RefersTo name) (hpart : part ∈ e.parts) :
    e.RefersTo name :=
  hasNode_iff.2 (.inr ⟨part, hpart, h⟩)

/-- An expression that is no reference refers to nothing else. -/
theorem RefersTo.exists_part (h : e.RefersTo name) (hkind : e.kind ≠ .ruleRef) :
    ∃ part ∈ e.parts, part.RefersTo name := by
  refine (hasNode_iff.1 h).resolve_left ?_
  rintro rfl
  exact hkind rfl

/-- An expression without parts and code mentions the rule that it is a reference to, and nothing
else. -/
theorem Leaf.mentions_iff {t : Ty} (he : Leaf e) (ht : result rule limit e s n = .ok (.of t)) :
    (Yield.of t).Mentions name ↔ e.RefersTo name := by
  have hyield : ∀ u, Yield.of u = Yield.of t → u = t := by
    intro u hu
    exact (List.cons.inj (congrArg Yield.types hu)).1
  have href : e.RefersTo name ↔ e = .ruleRef name := by
    have hparts : e.parts = [] := by cases he <;> rfl
    rw [RefersTo, hasNode_iff, hparts]
    simp
  rw [Yield.mentions_of, href]
  cases he with
  | charClass parts inverted ignoreCase =>
    obtain ⟨u, hu, hut⟩ := Except.map_eq_ok_iff.1 ht
    obtain rfl := hyield u hut
    refine iff_of_false ?_ Expr.noConfusion
    exact CharClass.notMem_atoms_type (.ruleRef name) (Except.mapError_eq_ok_iff.1 hu)
  | literal value ignoreCase =>
    obtain rfl := hyield _ (Except.ok.inj ht)
    cases ignoreCase <;> simp [Ty.atoms]
  | ruleRef rule =>
    obtain rfl := hyield _ (Except.ok.inj ht)
    simp [Ty.atoms, eq_comm]
  | _ =>
    obtain rfl := hyield _ (Except.ok.inj ht)
    simp [Ty.atoms]

/-! ## No reference is made -/

/-- The rules that a yield mentions come from the expression, and those that its helpers see come
from the expression or from the scope. -/
structure Traced (e : Expr) (s : Scope) (y : Yield) : Prop where
  /-- The expression refers to every rule that is mentioned. -/
  mentions : ∀ name, y.Mentions name → e.RefersTo name
  /-- The scope mentions, or the expression refers to, every rule in what a helper sees. -/
  params : ∀ h ∈ y.helpers, ∀ name, .ruleRef name ∈ h.params.atoms →
    .ruleRef name ∈ s.atoms ∨ e.RefersTo name

/-- What comes from a part of an expression comes from the expression, when the yield mentions no
more and has the helpers of the part. -/
theorem Traced.of_part {z : Yield} (h : inner.Traced s y) (hpart : inner ∈ e.parts)
    (hmentions : ∀ name, z.Mentions name → y.Mentions name) (hhelpers : z.helpers = y.helpers) :
    e.Traced s z where
  mentions name hname := (h.mentions name (hmentions name hname)).of_part hpart
  params f hf name hname := (h.params f (hhelpers ▸ hf) name hname).imp_right (·.of_part hpart)

/-- A condition mentions nothing and sees what is in the scope. -/
theorem traced_ofPredicate (e : Expr) (helper code : String) :
    e.Traced s (.ofPredicate helper code s) where
  mentions name := by
    rintro (htypes | hlabels)
    · simp [Yield.ofPredicate, Yield.addHelper, Yield.of, Ty.atomsAll, Ty.atoms] at htypes
    · exact absurd hlabels List.not_mem_nil
  params f hf name hname := by
    obtain rfl := List.mem_singleton.1 hf
    exact .inl hname

/-- An action mentions what is in the labels of its part, and sees them and the scope. -/
theorem Traced.underAction (h : inner.Traced s y) (code helper : String) :
    (Expr.action code inner).Traced s (y.underAction helper code s) := by
  have hpart : inner ∈ (Expr.action code inner).parts := List.mem_singleton_self inner
  constructor
  case mentions =>
    intro name hname
    exact (h.mentions name (.inr (Yield.mentions_underAction.1 hname))).of_part hpart
  case params =>
    intro f hf name hname
    rcases List.mem_append.1 hf with hf | hf
    · exact (h.params f hf name hname).imp_right (·.of_part hpart)
    · obtain rfl := List.mem_singleton.1 hf
      rcases (Scope.mem_atoms_merge Ty.noConfusion _ _).1 hname with hscope | hlabels
      · exact .inl hscope
      · exact .inr ((h.mentions name (.inr hlabels)).of_part hpart)

/-- Along a sequence the helpers see rules that are in the scope at its beginning or that an element
refers to, for the labels bound on the way mention only such rules. -/
theorem params_of_chain {known : String → Prop}
    (h : Chain (fun e s _ y => e.Traced s y) bound es s n ys)
    (hscope : ∀ name, .ruleRef name ∈ s.atoms → known name)
    (hparts : ∀ e ∈ es, ∀ name, e.RefersTo name → known name) :
    ∀ y ∈ ys, ∀ f ∈ y.helpers, ∀ name, .ruleRef name ∈ f.params.atoms → known name := by
  -- Along the chain the scope grows by labels, which mention what the elements before refer to.
  induction h with
  | nil => exact fun y hy => nomatch hy
  | cons hy _ ih =>
    obtain ⟨hfirst, hrest⟩ := List.forall_mem_cons.1 hparts
    refine List.forall_mem_cons.2 ⟨fun f hf name hname => ?_, ih (fun name hname => ?_) hrest⟩
    · exact (hy.params f hf name hname).elim (hscope name) (hfirst name)
    · rcases (Scope.mem_atoms_merge Ty.noConfusion _ _).1 hname with hscoped | hlabels
      · exact hscope name hscoped
      · exact hfirst name (hy.mentions name (.inr hlabels))

/-- No result mentions a rule that its expression does not refer to. -/
theorem traced_preserved : Preserved rule limit fun e s _ y => e.Traced s y where
  leaf he ht := ⟨fun _ => (he.mentions_iff ht).1, fun _ hf => nomatch hf⟩
  condition _ := traced_ofPredicate _ _ _
  passes {e inner _ _ _} he h := by
    have hpart : inner ∈ e.parts := by cases he <;> exact List.mem_singleton_self inner
    exact h.of_part hpart (fun _ => id) rfl
  wraps {e inner _ _ _ _} he h := by
    have hpart : inner ∈ e.parts := by cases he <;> exact List.mem_singleton_self inner
    exact h.of_part hpart (fun _ hname => ((Yield.mentions_wrap he).1 hname).mentions) rfl
  capture {_ inner _ _ _} h := by
    refine h.of_part (List.mem_singleton_self inner) (fun name hname => .inl ?_) rfl
    exact (Yield.ruleRef_mem_valueTypes.1 (Yield.mentions_capture.1 hname)).2
  action h := h.underAction _ _
  sequence {es s _ _} h := by
    constructor
    case mentions =>
      intro name hname
      obtain ⟨y, hy, hshows⟩ := Yield.mentions_sequence.1 hname
      obtain ⟨part, hpart, _, _, htraced⟩ := h.exists_of_mem y hy
      exact (htraced.mentions name hshows.mentions).of_part hpart
    case params =>
      intro f hf
      rw [Yield.helpers_sequence] at hf
      obtain ⟨y, hy, hfy⟩ := List.mem_flatMap.1 hf
      have hscope : ∀ name, Ty.ruleRef name ∈ s.atoms →
          Ty.ruleRef name ∈ s.atoms ∨ (Expr.sequence es).RefersTo name := fun _ => .inl
      exact params_of_chain h hscope (fun _ hpart _ hname => .inr (hname.of_part hpart)) y hy f hfy
  choice h := by
    constructor
    case mentions =>
      intro name hname
      obtain ⟨y, hy, hshows⟩ := Yield.mentions_choice.1 hname
      obtain ⟨part, hpart, _, htraced⟩ := h.of_unbound y hy
      exact (htraced.mentions name hshows.mentions).of_part hpart
    case params =>
      intro f hf name hname
      rw [Yield.helpers_choice] at hf
      obtain ⟨y, hy, hfy⟩ := List.mem_flatMap.1 hf
      obtain ⟨part, hpart, _, htraced⟩ := h.of_unbound y hy
      -- An alternative is derived in the empty scope, which mentions nothing.
      have hrefers := (htraced.params f hfy name hname).resolve_left List.not_mem_nil
      exact .inr (hrefers.of_part hpart)

/-! ## No reference is lost -/

/-- The expression is a capture with a label. -/
def IsCapture (e : Expr) : Prop := ∃ label inner, e = .labeled (some label) inner

/-- The expression is a capture with a label that has another one inside. -/
def NestsCapture (e : Expr) : Prop :=
  ∃ label inner, e = .labeled (some label) inner ∧ inner.HasNode IsCapture

/-- Without actions no action decides the value. -/
theorem action_eq_none (h : result rule limit e s n = .ok y)
    (hno : ¬ e.HasNode (·.kind = .action)) : y.action = none := by
  have hdecided := decidedBy_preserved.of_result e s n y h
  cases hdecider : e.decider? with
  | none => rw [hdecided, hdecider, Option.map_none]
  | some x =>
    -- The decider is a visible node with the code of an action.
    obtain ⟨hmem, hkind⟩ := decider?_mem e x hdecider
    have hcode := (e.codeOrders.mem_iff x).1 (e.codeOrders.perm.mem_iff.1 hmem)
    obtain ⟨expr, hat, hexpr⟩ := Option.bind_eq_some_iff.1 hcode
    rw [hkind] at hexpr
    refine absurd ⟨x.path, expr, hat, ?_⟩ hno
    cases expr with
    | action => rfl
    | _ => simp [code?] at hexpr

/-- Without captures there are no labels. -/
theorem labels_eq_empty (h : result cx.rule cx.classLimit e s n = .ok y)
    (hno : ¬ e.HasNode IsCapture) : y.labels = .empty := by
  have hcaptures : e.captures = [] := by
    refine List.eq_nil_iff_forall_not_mem.2 fun c hc => hno ?_
    obtain ⟨hexposes, -⟩ := (e.mem_captures_iff c).1 hc
    exact ⟨c.path, _, hexposes.leads, c.label, c.inner, rfl⟩
  obtain ⟨-, bs, hbs, hlabels⟩ := labelsFrom_preserved.of_result e s n y h
  rw [hcaptures] at hbs
  cases hbs
  exact hlabels

/-- Every rule that the expression refers to is mentioned, unless the expression has an action or a
capture inside a capture. -/
def Mentioned (e : Expr) (y : Yield) : Prop :=
  ¬ e.HasNode (·.kind = .action) → ¬ e.HasNode NestsCapture →
    ∀ name, e.RefersTo name → y.Mentions name

/-- An expression that is no reference mentions what it refers to, when its parts do and it mentions
all that they show. -/
theorem Mentioned.of_parts (cx : RuleContext) {z : Yield} (hkind : e.kind ≠ .ruleRef)
    (h : ∀ part ∈ e.parts, ∃ s n y, result cx.rule cx.classLimit part s n = .ok y ∧
      part.Mentioned y ∧ ∀ name, y.Shows name → z.Mentions name) : e.Mentioned z := by
  intro haction hnests name hname
  obtain ⟨part, hpart, hrefers⟩ := hname.exists_part hkind
  obtain ⟨_, _, y, hresult, hmentioned, hshows⟩ := h part hpart
  -- The part has no action either, so that all that it mentions is shown.
  have haction' := not_hasNode_part haction hpart
  have hmentions := hmentioned haction' (not_hasNode_part hnests hpart) name hrefers
  exact hshows name (hmentions.shows (action_eq_none hresult haction'))

/-- An expression that is no reference and has a single part mentions what it refers to, when its
part does and it mentions all that the part shows. -/
theorem Mentioned.of_part {z : Yield} (h : inner.Mentioned y)
    (hy : result cx.rule cx.classLimit inner s n = .ok y) (hkind : e.kind ≠ .ruleRef)
    (hparts : e.parts = [inner]) (hshows : ∀ name, y.Shows name → z.Mentions name) :
    e.Mentioned z := by
  refine Mentioned.of_parts cx hkind fun part hpart => ⟨s, n, y, ?_⟩
  rw [hparts] at hpart
  obtain rfl := List.mem_singleton.1 hpart
  exact ⟨hy, h, hshows⟩

/-- A capture mentions what stands in the value that it captures, and its part mentions nothing else
when it has no capture inside. -/
theorem Mentioned.capture {label : String} (h : inner.Mentioned y)
    (hy : result cx.rule cx.classLimit inner s n = .ok y) :
    (Expr.labeled (some label) inner).Mentioned (y.capture label) := by
  intro haction hnests
  have hlabels : y.labels = .empty := by
    refine labels_eq_empty hy fun hcapture => hnests ?_
    exact hasNode_iff.2 (.inl ⟨label, inner, rfl, hcapture⟩)
  have hshows : ∀ name, y.Shows name → (y.capture label).Mentions name := by
    rintro name (hvalue | hname)
    · exact Yield.mentions_capture.2 hvalue
    · rw [hlabels] at hname
      exact absurd hname List.not_mem_nil
  exact h.of_part hy nofun rfl hshows haction hnests

/-- Every result mentions the rules that its expression refers to, unless an action or a capture
inside a capture hides them. -/
theorem mentions_preserved : Preserved cx.rule cx.classLimit fun e s n y =>
    result cx.rule cx.classLimit e s n = .ok y ∧ e.Mentioned y where
  leaf he h := ⟨h, fun _ _ _ => (he.mentions_iff h).2⟩
  condition he := by
    refine ⟨result_preserved.condition he, fun _ _ name hname => ?_⟩
    cases he <;> exact absurd hname fun h => nomatch h.exists_part nofun
  passes he h := by
    refine ⟨result_preserved.passes he h.1, ?_⟩
    cases he <;> exact h.2.of_part h.1 nofun rfl fun _ => Yield.Shows.mentions
  wraps {_ _ f _ _ y} he h := by
    have hshows : ∀ name, y.Shows name → (y.wrap f).Mentions name :=
      fun _ => (Yield.mentions_wrap he).2
    refine ⟨result_preserved.wraps he h.1, ?_⟩
    cases he <;> exact h.2.of_part h.1 nofun rfl hshows
  capture h := ⟨result_preserved.capture h.1, h.2.capture h.1⟩
  action h := by
    refine ⟨result_preserved.action h.1, fun hno => absurd ?_ hno⟩
    exact hasNode_iff.2 (.inl rfl)
  sequence h := by
    refine ⟨result_preserved.sequence (h.imp And.left), ?_⟩
    refine Mentioned.of_parts cx nofun fun part hpart => ?_
    obtain ⟨y, hy, s, n, hresult, hmentioned⟩ := h.exists_yield_of_mem part hpart
    exact ⟨s, n, y, hresult, hmentioned, fun _ hshows =>
      Yield.mentions_sequence.2 ⟨y, hy, hshows⟩⟩
  choice h := by
    refine ⟨result_preserved.choice (h.imp And.left), ?_⟩
    refine Mentioned.of_parts cx nofun fun part hpart => ?_
    obtain ⟨y, hy, s, n, hresult, hmentioned⟩ := h.exists_yield_of_mem part hpart
    exact ⟨s, n, y, hresult, hmentioned, fun _ hshows =>
      Yield.mentions_choice.2 ⟨y, hy, hshows⟩⟩

/-- What an expression yields in the empty scope, and what its helpers see, mentions only rules that
a visible node of the expression refers to. All of these are mentioned when the expression has no
action and no capture with a label inside another. The rules themselves are not looked at: with
other rules the expression yields the same. -/
theorem rule_references_traced (cx : RuleContext) (e : Expr) (ledger ledger' : Ledger) (y : Yield)
    (hrun : (e.derive cx .empty).runFrom ledger = (.ok y, ledger')) :
    (∀ name, (y.Mentions name ∨ ∃ h ∈ y.helpers, .ruleRef name ∈ h.params.atoms) →
      e.RefersTo name) ∧
    (¬ e.HasNode (·.kind = .action) → ¬ e.HasNode NestsCapture →
      ∀ name, e.RefersTo name → y.Mentions name) ∧
    ∀ ruleNames log,
      ((e.derive { cx with ruleNames } .empty).runFrom ⟨ledger.next, log⟩).1 = .ok y := by
  obtain ⟨hresult, -⟩ := (derive_computes cx e .empty).of_runFrom hrun
  have htraced := traced_preserved.of_result e .empty ledger.next y hresult
  refine ⟨?_, (mentions_preserved.of_result e .empty ledger.next y hresult).2, ?_⟩
  · rintro name (hmentions | ⟨f, hf, hname⟩)
    · exact htraced.mentions name hmentions
    · exact (htraced.params f hf name hname).resolve_left List.not_mem_nil
  · intro ruleNames log
    exact (derive_computes _ e .empty ⟨ledger.next, log⟩).1.trans hresult

/-- References to the rule itself and to others: bound to a label, repeated, and beneath a text. -/
def referencesAround : Expr :=
  .sequence [.labeled (some "first") (.ruleRef "S"),
    .zeroOrMore (.choice [.ruleRef "T", .group (.sequence [.literal "(" false, .ruleRef "R"])]),
    .text (.ruleRef "Hidden")]

/-- The rules mentioned are those referred to outside of the text, whichever rules there are. -/
theorem rule_references_traced_around : ∃ y ledger',
    (referencesAround.derive ⟨"R", ["R", "S", "T"], 256⟩ .empty).runFrom ⟨1, []⟩ =
        (.ok y, ledger') ∧
      y.labels.bindings = [("first", [.ruleRef "S"])] ∧
      (∀ name, y.Mentions name ↔ name ∈ ["S", "T", "R"]) ∧
      ((referencesAround.derive ⟨"R", [], 256⟩ .empty).runFrom ⟨1, []⟩).1 = .ok y := by
  obtain ⟨htraced, hmentioned, hsame⟩ := rule_references_traced ⟨"R", ["R", "S", "T"], 256⟩
    referencesAround ⟨1, []⟩ _ _ rfl
  have haction : ¬ referencesAround.HasNode (·.kind = .action) := by
    simp [referencesAround, hasNode_iff_exists_mem, preorder, beneath, beneathAll, Node.under, kind]
  have hnests : ¬ referencesAround.HasNode NestsCapture := by
    simp [referencesAround, hasNode_iff_exists_mem, preorder, beneath, beneathAll, Node.under,
      NestsCapture, IsCapture]
  have hrefers : ∀ name, referencesAround.RefersTo name ↔ name ∈ ["S", "T", "R"] := by
    intro name
    simp [referencesAround, hasNode_iff_exists_mem, preorder, beneath, beneathAll, Node.under,
      RefersTo, eq_comm]
  refine ⟨_, _, rfl, rfl, fun name => ⟨fun hname => ?_, fun hname => ?_⟩, hsame [] []⟩
  · exact (hrefers name).1 (htraced name (.inl hname))
  · exact hmentioned haction hnests name ((hrefers name).2 hname)

end Expr

end GrammarTypes
