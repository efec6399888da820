import GrammarTypes.Proofs.Derivation.Rescoping
import GrammarTypes.Proofs.Expr.Captures
import GrammarTypes.Proofs.Scope.Bindings

/-!
# The labels of an expression

The labels that an expression yields are made of one binding for each exposed capture, in the order
of the captures: the label is bound to the value of what is captured (`Expr.LabelsFrom`). A capture
beneath another one makes a binding that is left behind, and sequences and choices merge the labels
of their parts, which is making the bindings of all parts one after another. So no label is lost and
none comes from elsewhere (`Expr.labelsFrom_preserved`).

The value of what is captured does not depend on the labels bound before it, but it does on the
number of the next helper, because an action in it is known by the name of its helper. That number
is known from the nodes with code that come before the capture.
-/

namespace GrammarTypes

namespace Yield

/-- A sequence binds the labels of its elements one after another. -/
theorem labels_foldl_append (acc : Yield) (ys : List Yield) :
    (ys.foldl append acc).labels = ys.foldl (fun s y => s.merge y.labels) acc.labels := by
  induction ys generalizing acc with
  | nil => rfl
  | cons y ys ih => exact ih (acc.append y)

end Yield

namespace Expr

variable {cx : RuleContext} {e : Expr} {es : List Expr} {s : Scope} {n : Nat} {y : Yield}
  {ys : List Yield} {ts us : List Ty}

/-! ## Values -/

/-- In every scope the expression has a value of the given types, when the next helper has the given
number. -/
def HasValue (cx : RuleContext) (e : Expr) (n : Nat) (ts : List Ty) : Prop :=
  ∀ s, ∃ y, e.Yields cx s n y ∧ y.valueTypes = ts

/-- An expression has only one value. -/
theorem HasValue.unique (h : e.HasValue cx n ts) (h' : e.HasValue cx n us) : ts = us := by
  obtain ⟨y, hy, rfl⟩ := h .empty
  obtain ⟨z, hz, rfl⟩ := h' .empty
  have heq : Except.ok y = Except.ok z := (hy []).symm.trans (hz [])
  rw [Except.ok.inj heq]

/-- In another scope a result has other parameters of helpers only. -/
theorem exists_result_of_result (h : result cx.rule cx.classLimit e s n = .ok y) (t : Scope) :
    ∃ z, result cx.rule cx.classLimit e t n = .ok z ∧ z.labels = y.labels ∧
      z.valueTypes = y.valueTypes := by
  have hmerge : ∀ t, result cx.rule cx.classLimit e t n =
      Yield.rescoped t e.choiceMarks <$> result cx.rule cx.classLimit e .empty n :=
    fun t => result_merge t e .empty n .empty
  rw [hmerge] at h
  obtain ⟨x, hx, rfl⟩ := Except.map_eq_ok_iff.1 h
  exact ⟨x.rescoped t e.choiceMarks, by rw [hmerge, hx]; rfl, rfl, rfl⟩

/-- The value of a result is the value in every scope. -/
theorem hasValue_of_result (h : result cx.rule cx.classLimit e s n = .ok y) :
    e.HasValue cx n y.valueTypes := by
  intro t
  obtain ⟨z, hz, -, hvalue⟩ := exists_result_of_result h t
  exact ⟨z, yields_of_result hz, hvalue⟩

/-! ## One binding for each capture -/

/-- The binding that a capture makes of its label and of the value of what it captures, in an
expression whose first helper has the given number. -/
def Capture.Binds (cx : RuleContext) (n : Nat) (c : Capture) (b : String × List Ty) : Prop :=
  b.1 = c.label ∧ c.inner.HasValue cx (n + c.before) b.2

/-- The labels are made of one binding for each exposed capture, in the order of the captures. -/
def LabelsFrom (cx : RuleContext) (e : Expr) (n : Nat) (labels : Scope) : Prop :=
  ∃ bs, List.Forall₂ (Capture.Binds cx n) e.captures bs ∧ labels = .ofBindings bs

/-- The captures of a part make the bindings in the whole that they make in the part. -/
theorem forall₂_binds_under {cs : List Capture} {bs : List (String × List Ty)} {k : Nat} (i : Nat)
    (h : List.Forall₂ (Capture.Binds cx (n + k)) cs bs) :
    List.Forall₂ (Capture.Binds cx n) (cs.map (Capture.under i k)) bs := by
  refine List.forall₂_map_left_iff.2 (h.imp fun c b hb => ⟨hb.1, ?_⟩)
  have hvalue := hb.2
  rwa [Nat.add_assoc] at hvalue

/-- An expression without captures has no labels. -/
theorem labelsFrom_empty (h : e.captures = []) : e.LabelsFrom cx n .empty :=
  ⟨[], h ▸ .nil, rfl⟩

/-- An expression that has the captures of its part has the labels of its part. -/
theorem LabelsFrom.of_part {inner : Expr} {labels : Scope} (k : Nat)
    (h : inner.LabelsFrom cx (n + k) labels)
    (hcaptures : e.captures = inner.captures.map (Capture.under 0 k)) :
    e.LabelsFrom cx n labels := by
  obtain ⟨bs, hbs, hlabels⟩ := h
  exact ⟨bs, hcaptures ▸ forall₂_binds_under 0 hbs, hlabels⟩

/-- Labels made of bindings are merged into the empty scope as they are. -/
theorem LabelsFrom.merge_empty {labels : Scope} (h : e.LabelsFrom cx n labels) :
    Scope.empty.merge labels = labels := by
  obtain ⟨bs, -, rfl⟩ := h
  exact Scope.merge_ofBindings .empty bs

/-- Merging the labels of parts is making the bindings of their captures. -/
theorem exists_bindings_of_chain {P : Expr → Scope → Nat → Yield → Prop}
    {after : Scope → Yield → Scope} {m : Nat} (h : Chain P after es s m ys)
    (hP : ∀ {e s n y}, P e s n y → e.LabelsFrom cx n y.labels) :
    ∀ i k, m = n + k → ∃ bs, List.Forall₂ (Capture.Binds cx n) (capturesAll i k es) bs ∧
      ∀ t : Scope, ys.foldl (fun s y => s.merge y.labels) t = t.merge ⟨bs⟩ := by
  induction h with
  | nil => exact fun _ _ _ => ⟨[], .nil, fun _ => rfl⟩
  | @cons e es s m y ys hy _ ih =>
    rintro i k rfl
    obtain ⟨as, has, hlabels⟩ := hP hy
    obtain ⟨bs, hbs, hfold⟩ := ih (i + 1) (k + e.helperCount) (Nat.add_assoc ..)
    refine ⟨as ++ bs, List.rel_append (forall₂_binds_under i has) hbs, fun t => ?_⟩
    calc (y :: ys).foldl (fun s y => s.merge y.labels) t
        = (t.merge y.labels).merge ⟨bs⟩ := hfold (t.merge y.labels)
      _ = (t.merge ⟨as⟩).merge ⟨bs⟩ := by rw [hlabels, Scope.merge_ofBindings]
      _ = t.merge ⟨as ++ bs⟩ := (Scope.merge_append t as bs).symm

/-- Every result has one binding for each exposed capture. -/
theorem labelsFrom_preserved : Preserved cx.rule cx.classLimit fun e s n y =>
    result cx.rule cx.classLimit e s n = .ok y ∧ e.LabelsFrom cx n y.labels where
  leaf he h := ⟨h, labelsFrom_empty (by cases he <;> rfl)⟩
  condition he := ⟨result_preserved.condition he, labelsFrom_empty (by cases he <;> rfl)⟩
  passes he h := ⟨result_preserved.passes he h.1, .of_part 0 h.2 (by cases he <;> rfl)⟩
  wraps he h := by
    refine ⟨result_preserved.wraps he h.1, ?_⟩
    rw [Yield.labels_wrap, h.2.merge_empty]
    exact .of_part 0 h.2 (by cases he <;> rfl)
  capture {label _ _ _ y} h := by
    refine ⟨result_preserved.capture h.1, [(label, y.valueTypes)], ?_, rfl⟩
    exact .cons ⟨rfl, hasValue_of_result h.1⟩ .nil
  action h := by
    refine ⟨result_preserved.action h.1, ?_⟩
    rw [Yield.labels_underAction, h.2.merge_empty]
    exact .of_part 1 h.2 rfl
  sequence h := by
    obtain ⟨bs, hbs, hfold⟩ := exists_bindings_of_chain h And.right 0 0 rfl
    refine ⟨result_preserved.sequence (h.imp And.left), bs, hbs, ?_⟩
    exact (Yield.labels_foldl_append {} _).trans (hfold .empty)
  choice h := by
    obtain ⟨bs, hbs, hfold⟩ := exists_bindings_of_chain h And.right 0 0 rfl
    refine ⟨result_preserved.choice (h.imp And.left), bs, hbs, ?_⟩
    exact (Yield.labels_choice _).trans (hfold .empty)

/-! ## Labels and captures -/

/-- The labels of an expression whose first helper has the given number are those of its exposed
captures. -/
structure CollectsLabels (cx : RuleContext) (e : Expr) (n : Nat) (labels : Scope) : Prop where
  /-- Each label is there once, in the order of its first capture. -/
  names_eq : labels.names = (e.captures.map Capture.label).eraseDups
  /-- A label has the values of all that is captured under it, or `unknown` for what has none. -/
  mem_iff : ∀ name ts, (name, ts) ∈ labels.bindings → ∀ t, t ∈ ts ↔
    ∃ c ∈ e.captures, c.label = name ∧
      ∃ us, c.inner.HasValue cx (n + c.before) us ∧ t ∈ Scope.candidates us

section

variable {cs : List Capture} {bs : List (String × List Ty)} {name : String} {t : Ty}

/-- The bindings have the labels of the captures. -/
theorem map_fst_of_binds (h : List.Forall₂ (Capture.Binds cx n) cs bs) :
    bs.map Prod.fst = cs.map Capture.label := by
  induction h with
  | nil => rfl
  | cons hb _ ih => rw [List.map_cons, List.map_cons, hb.1, ih]

/-- The bindings offer the values of what is captured. -/
theorem offered_iff_of_binds (h : List.Forall₂ (Capture.Binds cx n) cs bs) :
    (∃ b ∈ bs, b.1 = name ∧ t ∈ Scope.candidates b.2) ↔
      ∃ c ∈ cs, c.label = name ∧
        ∃ us, c.inner.HasValue cx (n + c.before) us ∧ t ∈ Scope.candidates us := by
  induction h with
  | nil => simp
  | @cons c b cs bs hb _ ih =>
    obtain ⟨hlabel, hvalue⟩ := hb
    have hfirst : t ∈ Scope.candidates b.2 ↔
        ∃ us, c.inner.HasValue cx (n + c.before) us ∧ t ∈ Scope.candidates us := by
      refine ⟨fun ht => ⟨b.2, hvalue, ht⟩, fun ⟨us, hus, ht⟩ => ?_⟩
      rwa [hvalue.unique hus]
    rw [List.exists_mem_cons_iff, List.exists_mem_cons_iff, ih, hfirst, hlabel]

end

/-- Labels made of one binding for each exposed capture are those of the captures. -/
theorem LabelsFrom.collects {labels : Scope} (h : e.LabelsFrom cx n labels) :
    e.CollectsLabels cx n labels := by
  obtain ⟨bs, hbs, rfl⟩ := h
  constructor
  case names_eq => rw [Scope.names_ofBindings, map_fst_of_binds hbs]
  case mem_iff =>
    intro name ts hb t
    rw [Scope.mem_candidates_ofBindings hb, offered_iff_of_binds hbs]

/-- An expression that succeeds has the labels of its exposed captures, each once and in the order
of its first capture, with the values of what is captured under it as candidates. An action over it
at the top of a rule has exactly these labels as its parameters. -/
theorem labels_of_captures (cx : RuleContext) (e : Expr) (s : Scope) (ledger ledger' : Ledger)
    (y : Yield) (hrun : (e.derive cx s).runFrom ledger = (.ok y, ledger')) :
    e.CapturesInOrder e.captures ∧ e.CollectsLabels cx ledger.next y.labels ∧
      ∀ (r : Expr) (code : String), r.topAction? = some (code, e) →
        ∃ z : Yield, ((r.deriveRule cx).runFrom ledger).1 = .ok z ∧
          z.helpers.getLast? = some ⟨Helper.ruleName cx.rule, .action, y.labels, code⟩ := by
  obtain ⟨hresult, -⟩ := (derive_computes cx e s).of_runFrom hrun
  obtain ⟨-, hlabels⟩ := labelsFrom_preserved.of_result e s ledger.next y hresult
  refine ⟨e.capturesInOrder, hlabels.collects, fun r code htop => ?_⟩
  -- The part of the action at the top is derived in the empty scope, with the same labels.
  obtain ⟨z, hz, hsame, -⟩ := exists_result_of_result hresult .empty
  refine ⟨z.underAction (Helper.ruleName cx.rule) code .empty, ?_, ?_⟩
  · rw [(deriveRule_computes cx r ledger).1, ruleResult_of_topAction htop, hz]
    rfl
  · rw [Yield.helpers_underAction, List.getLast?_append_of_ne_nil _ (List.cons_ne_nil _ _),
      hsame, hlabels.merge_empty]
    rfl

/-- Captures in a sequence, in alternatives, beneath a text and beneath a capture. -/
def capturesAround : Expr :=
  .sequence [.labeled (some "a") (.action "first" .any),
    .choice [.labeled (some "b") (.literal "l" false),
      .group (.labeled (some "a") (.literal "k" false))],
    .text (.labeled (some "hidden") .any), .labeled (some "c") (.labeled (some "d") .any)]

/-- The label of two captures has two candidates, and a capture has no value of its own. -/
theorem labels_of_captures_around : ∃ (y z : Yield) (ledger' : Ledger),
    (capturesAround.derive ⟨"R", [], 256⟩ (Scope.empty.bind "s" [.text])).runFrom ⟨1, []⟩ =
        (.ok y, ledger') ∧
      capturesAround.captures.map Capture.label = ["a", "b", "a", "c"] ∧
      y.labels.bindings = [("a", [.returnOf "peg$parseR$1", .literal "k"]),
        ("b", [.literal "l"]), ("c", [.unknown])] ∧
      capturesAround.CollectsLabels ⟨"R", [], 256⟩ 1 y.labels ∧
      (((Expr.action "last" capturesAround).deriveRule ⟨"R", [], 256⟩).runFrom ⟨1, []⟩).1 = .ok z ∧
      z.helpers.getLast? = some ⟨"peg$parseR", .action, y.labels, "last"⟩ := by
  obtain ⟨-, hcollects, hrule⟩ := labels_of_captures ⟨"R", [], 256⟩ capturesAround
    (Scope.empty.bind "s" [.text]) ⟨1, []⟩ _ _ rfl
  obtain ⟨z, hz, hlast⟩ := hrule (.action "last" capturesAround) "last" rfl
  exact ⟨_, z, _, rfl, by decide +kernel, by decide +kernel, hcollects, hz, hlast⟩

end Expr

end GrammarTypes
