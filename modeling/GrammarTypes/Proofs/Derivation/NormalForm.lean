import GrammarTypes.Proofs.Derivation.Induction
import GrammarTypes.Proofs.Scope.Merge
import GrammarTypes.Proofs.Ty.Normal
import GrammarTypes.Proofs.Yield
import Mathlib.Tactic.SplitIfs

/-!
# Properties of all types of a result

The types of a result are made from the types of single expressions by unions, groups and lists, and
labels and parameters get what is so made. A property of types that these operations hand on
(`Ty.Inherited`) therefore holds of every type in a result, whatever the expression is, when it
holds of the types in the scope (`Expr.all_preserved`). The normal form of types is such a property.
-/

namespace GrammarTypes

/-! ## Scopes -/

namespace Scope

/-- The property holds of all candidates of all labels. -/
def All (P : Ty → Prop) (s : Scope) : Prop := ∀ b ∈ s.bindings, ∀ t ∈ b.2, P t

variable {P : Ty → Prop} {s other : Scope} {ts : List Ty}

/-- There are no candidates in the scope without labels. -/
theorem All.empty : empty.All P := fun _ hb => nomatch hb

/-- Candidates have a property of the types that they stand for, and of `unknown`. -/
theorem forall_mem_candidates (hunknown : P .unknown) (hts : ∀ t ∈ ts, P t) :
    ∀ t ∈ candidates ts, P t := by
  unfold candidates
  split
  · exact fun t ht => List.mem_singleton.1 ht ▸ hunknown
  · exact hts

/-- A bound label has candidates that it had before or that it is bound to. -/
theorem all_bindIn (name : String) (hts : ∀ t ∈ ts, P t) : ∀ {bs : List (String × List Ty)},
    (∀ b ∈ bs, ∀ t ∈ b.2, P t) → ∀ b ∈ bindIn name ts bs, ∀ t ∈ b.2, P t
  | [], _ => fun b hb => List.mem_singleton.1 hb ▸ hts
  | (n, old) :: bs, h => by
    obtain ⟨hold, hbs⟩ := List.forall_mem_cons.1 h
    rw [bindIn]
    split
    · refine List.forall_mem_cons.2 ⟨fun t ht => ?_, hbs⟩
      exact (mem_addUnseen.1 ht).elim (hold t) (hts t)
    · exact List.forall_mem_cons.2 ⟨hold, all_bindIn name hts hbs⟩

/-- A property of all candidates is kept when a label is bound to types that have it. -/
theorem All.bind (h : s.All P) (hunknown : P .unknown) (name : String) (hts : ∀ t ∈ ts, P t) :
    (s.bind name ts).All P :=
  all_bindIn name (forall_mem_candidates hunknown hts) h

/-- A property of all candidates is kept by merges. -/
theorem All.merge (h : s.All P) (hunknown : P .unknown) (hother : other.All P) :
    (s.merge other).All P := by
  obtain ⟨bs⟩ := other
  induction bs generalizing s with
  | nil => exact h
  | cons b bs ih =>
    obtain ⟨hb, hbs⟩ := List.forall_mem_cons.1 hother
    rw [merge_cons]
    exact ih (h.bind hunknown b.1 hb) hbs

/-- A property of all candidates is kept when the labels of yields are merged one after another. -/
theorem All.foldl_merge (h : s.All P) (hunknown : P .unknown) {ys : List Yield}
    (hys : ∀ y ∈ ys, y.labels.All P) : (ys.foldl (fun s y => s.merge y.labels) s).All P := by
  induction ys generalizing s with
  | nil => exact h
  | cons y ys ih =>
    obtain ⟨hy, hrest⟩ := List.forall_mem_cons.1 hys
    exact ih (h.merge hunknown hy) hrest

/-- The candidates of a label are candidates of the scope. -/
theorem All.get? (h : s.All P) {name : String} (hget : s.get? name = some ts) : ∀ t ∈ ts, P t := by
  obtain ⟨before, after, hbindings, -⟩ := List.lookup_eq_some_iff.1 hget
  exact h (name, ts) (by simp [hbindings])

end Scope

/-! ## Types -/

/-- The property holds of the types of single expressions, and unions, groups and lists have it when
the types that they are made of do. -/
structure Ty.Inherited (P : Ty → Prop) : Prop where
  /-- It holds of the types without parts. -/
  atom : ∀ {t}, t.parts = [] → t.isUnion = false → P t
  /-- It goes from types to their union. -/
  unionOf : ∀ {ts}, (∀ t ∈ ts, P t) → P (unionOf ts)
  /-- It goes from types to their group. -/
  groupOf : ∀ {ts}, (∀ t ∈ ts, P t) → P (groupOf ts)
  /-- It goes from the items to the list. -/
  array : ∀ {t}, P t → P (.array t)

namespace Ty.Inherited

variable {P : Ty → Prop}

/-- Nothing known of a value is a type of its own. -/
theorem unknown (h : Inherited P) : P .unknown := h.atom rfl rfl

/-- An item type has the property when its candidates and its empty case do. -/
theorem itemOf (h : Inherited P) {ts empty : List Ty} (hts : ∀ t ∈ ts, P t)
    (hempty : ∀ t ∈ empty, P t) : P (itemOf ts empty) := by
  unfold Ty.itemOf
  split
  · exact h.unknown
  · exact h.unionOf fun t ht => (List.mem_append.1 ht).elim (hts t) (hempty t)

/-- The type of a character class has the property. -/
theorem charClass (h : Inherited P) {limit : Nat} {parts : List ClassPart}
    {inverted ignoreCase : Bool} {t : Ty}
    (ht : CharClass.type limit parts inverted ignoreCase = .ok t) : P t := by
  unfold CharClass.type at ht
  split_ifs at ht
  · cases ht
    exact h.atom rfl rfl
  · cases ht
    exact h.atom rfl rfl
  · obtain ⟨listed, -, rfl⟩ := Except.map_eq_ok_iff.1 ht
    cases listed with
    | none => exact h.atom rfl rfl
    | some texts =>
      refine h.unionOf fun u hu => ?_
      obtain ⟨text, -, rfl⟩ := List.mem_map.1 hu
      exact h.atom rfl rfl

/-- Groups, repetitions and options have the property when their candidates do. -/
theorem wraps (h : Inherited P) {e inner : Expr} {f : List Ty → Ty} (he : Expr.Wraps e inner f)
    {ts : List Ty} (hts : ∀ t ∈ ts, P t) : P (f ts) := by
  have hmarker : ∀ mark, ∀ t ∈ [Ty.marker mark], P t := by
    intro mark t ht
    exact List.mem_singleton.1 ht ▸ h.atom rfl rfl
  cases he with
  | group => exact h.groupOf hts
  | zeroOrMore => exact h.array (h.itemOf hts (hmarker .never))
  | oneOrMore => exact h.array (h.itemOf hts fun _ ht => absurd ht List.not_mem_nil)
  | optional => exact h.unionOf (List.forall_mem_cons.2 ⟨h.groupOf hts, hmarker .null⟩)

/-- An expression without parts and code has a type with the property. -/
theorem leaf (h : Inherited P) {rule : String} {limit : Nat} {e : Expr} {s : Scope} {n : Nat}
    {t : Ty} (he : Expr.Leaf e) (ht : Expr.result rule limit e s n = .ok (.of t)) : P t := by
  have hyield : ∀ u, Yield.of u = Yield.of t → u = t := by
    intro u hu
    exact (List.cons.inj (congrArg Yield.types hu)).1
  cases he with
  | charClass =>
    obtain ⟨u, hu, hut⟩ := Except.map_eq_ok_iff.1 ht
    obtain rfl := hyield u hut
    exact h.charClass (Except.mapError_eq_ok_iff.1 hu)
  | literal value ignoreCase =>
    obtain rfl := hyield _ (Except.ok.inj ht)
    cases ignoreCase <;> exact h.atom rfl rfl
  | _ =>
    obtain rfl := hyield _ (Except.ok.inj ht)
    exact h.atom rfl rfl

end Ty.Inherited

/-! ## Yields -/

namespace Yield

/-- The property holds of all types of a yield: its own, the candidates of its labels, and those
that its helpers see. -/
structure All (P : Ty → Prop) (y : Yield) : Prop where
  /-- It holds of the candidate types. -/
  types : ∀ t ∈ y.types, P t
  /-- It holds of the candidates of the labels. -/
  labels : y.labels.All P
  /-- It holds of the candidates of the labels that the helpers see. -/
  params : ∀ h ∈ y.helpers, h.params.All P

variable {P : Ty → Prop} {s : Scope} {y acc : Yield} {ys : List Yield}

/-- What a parent sees of a yield has the property. -/
theorem All.valueTypes (h : y.All P) (hP : Ty.Inherited P) : ∀ t ∈ y.valueTypes, P t := by
  unfold Yield.valueTypes
  split
  · exact fun t ht => List.mem_singleton.1 ht ▸ hP.atom rfl rfl
  · exact h.types

/-- The entry that an element adds to a sequence has the property. -/
theorem All.entry (h : y.All P) (hP : Ty.Inherited P) (decided : Option Action) :
    ∀ t ∈ Yield.entry decided y, P t := by
  unfold Yield.entry
  split
  · refine fun t ht => List.mem_singleton.1 ht ▸ hP.groupOf fun u hu => ?_
    exact List.mem_singleton.1 hu ▸ hP.atom rfl rfl
  · exact fun t ht => absurd ht List.not_mem_nil
  · split
    · exact fun t ht => absurd ht List.not_mem_nil
    · exact fun t ht => List.mem_singleton.1 ht ▸ hP.groupOf h.types

/-- The sequence of no elements has no types. -/
theorem All.nil : All P {} where
  types _ ht := nomatch ht
  labels := .empty
  params _ hf := nomatch hf

/-- A single type with the property. -/
theorem All.of {t : Ty} (ht : P t) : All P (.of t) where
  types _ hu := List.mem_singleton.1 hu ▸ ht
  labels := .empty
  params _ hh := nomatch hh

/-- A condition sees the labels of the scope. -/
theorem All.ofPredicate (hP : Ty.Inherited P) (hs : s.All P) (name code : String) :
    All P (.ofPredicate name code s) where
  types _ ht := List.mem_singleton.1 ht ▸ hP.atom rfl rfl
  labels := .empty
  params _ hh := List.mem_singleton.1 hh ▸ hs

/-- An operator that hands the property on. -/
theorem All.wrap (h : y.All P) (hP : Ty.Inherited P) {f : List Ty → Ty}
    (hf : P (f y.valueTypes)) : (y.wrap f).All P where
  types _ ht := List.mem_singleton.1 ht ▸ hf
  labels := .merge .empty hP.unknown h.labels
  params := h.params

/-- A capture binds its label to types with the property. -/
theorem All.capture (h : y.All P) (hP : Ty.Inherited P) (label : String) :
    (y.capture label).All P where
  types _ ht := nomatch ht
  labels := .bind .empty hP.unknown label (h.valueTypes hP)
  params := h.params

/-- The helper of an action sees the labels of the scope and of the part. -/
theorem All.underAction (h : y.All P) (hP : Ty.Inherited P) (hs : s.All P) (name code : String) :
    (y.underAction name code s).All P where
  types _ ht := List.mem_singleton.1 ht ▸ hP.atom rfl rfl
  labels := .merge .empty hP.unknown h.labels
  params f hf := by
    rcases List.mem_append.1 hf with hf | hf
    · exact h.params f hf
    · exact List.mem_singleton.1 hf ▸ hs.merge hP.unknown h.labels

/-- One more element hands the property on. -/
theorem All.append (hacc : acc.All P) (h : y.All P) (hP : Ty.Inherited P) :
    (acc.append y).All P where
  types t ht := (List.mem_append.1 ht).elim (hacc.types t) (h.entry hP acc.action t)
  labels := hacc.labels.merge hP.unknown h.labels
  params f hf := (List.mem_append.1 hf).elim (hacc.params f) (h.params f)

/-- The alternatives of a choice hand the property on. -/
theorem All.choice (h : ∀ y ∈ ys, y.All P) (hP : Ty.Inherited P) : (Yield.choice ys).All P where
  types t ht := by
    rw [types_choice] at ht
    obtain ⟨y, hy, rfl⟩ := List.mem_map.1 ht
    exact hP.groupOf ((h y hy).valueTypes hP)
  labels := by
    rw [labels_choice]
    exact Scope.All.empty.foldl_merge hP.unknown fun y hy => (h y hy).labels
  params f hf := by
    rw [helpers_choice] at hf
    obtain ⟨y, hy, hfy⟩ := List.mem_flatMap.1 hf
    exact (h y hy).params f hfy

end Yield

/-! ## Results -/

namespace Expr

variable {P : Ty → Prop} {rule : String} {limit : Nat}

/-- The elements of a sequence hand a property on when the scope that they begin in has it. -/
theorem all_of_chain (hP : Ty.Inherited P) {es : List Expr} {s : Scope} {n : Nat}
    {ys : List Yield} (h : Chain (fun _ s _ y => s.All P → y.All P) bound es s n ys)
    (hs : s.All P) {acc : Yield} (hacc : acc.All P) : (ys.foldl Yield.append acc).All P := by
  induction h generalizing acc with
  | nil => exact hacc
  | cons hy _ ih =>
    -- The scope grows by the labels of the element, whose candidates have the property.
    have hfirst := hy hs
    exact ih (hs.merge hP.unknown hfirst.labels) (hacc.append hfirst hP)

/-- An inherited property holds of all types of a result when it holds of those in the scope. -/
theorem all_preserved (hP : Ty.Inherited P) :
    Preserved rule limit fun _ s _ y => s.All P → y.All P where
  leaf he ht _ := .of (hP.leaf he ht)
  condition _ hs := .ofPredicate hP hs _ _
  passes _ h := h
  wraps he h hs := (h hs).wrap hP (hP.wraps he ((h hs).valueTypes hP))
  capture h hs := (h hs).capture hP _
  action h hs := (h hs).underAction hP hs _ _
  sequence h hs := all_of_chain hP h hs .nil
  choice h _ := .choice (fun y hy => by
    obtain ⟨_, _, _, hall⟩ := h.of_unbound y hy
    exact hall .empty) hP

end Expr

/-! ## Normal forms -/

/-- The normal form of types is inherited. -/
theorem Ty.normal_inherited : Inherited Normal where
  atom := normal_of_atom
  unionOf := normal_unionOf
  groupOf := normal_groupOf
  array := normal_array.2

/-- The candidates of the labels of a scope and the types of its labels are normal. -/
structure Scope.Normal (s : Scope) : Prop where
  /-- The candidates are normal. -/
  candidates : ∀ b ∈ s.bindings, ∀ t ∈ b.2, t.Normal
  /-- The types that the labels have as parameters are normal. -/
  typeOf? : ∀ name t, s.typeOf? name = some t → t.Normal

/-- The types of the labels are normal when their candidates are. -/
theorem Scope.All.normal {s : Scope} (h : s.All Ty.Normal) : s.Normal where
  candidates := h
  typeOf? name t ht := by
    obtain ⟨ts, hts, rfl⟩ := Option.map_eq_some_iff.1 ht
    exact Ty.normal_unionOf (h.get? hts)

/-- All types of a yield are normal. -/
structure Yield.Normal (y : Yield) : Prop where
  /-- The candidate types are normal. -/
  types : ∀ t ∈ y.types, t.Normal
  /-- The candidates that a parent sees are normal. -/
  valueTypes : ∀ t ∈ y.valueTypes, t.Normal
  /-- The type that the expression stands for is normal. -/
  unionType : y.unionType.Normal
  /-- The labels have normal candidates and types. -/
  labels : y.labels.Normal
  /-- The labels that the helpers see have normal candidates and types. -/
  params : ∀ h ∈ y.helpers, h.params.Normal

/-- A yield is normal when its own types, those of its labels and those of its parameters are. -/
theorem Yield.All.normal {y : Yield} (h : y.All Ty.Normal) : y.Normal where
  types := h.types
  valueTypes := h.valueTypes Ty.normal_inherited
  unionType := Ty.normal_unionOf (h.valueTypes Ty.normal_inherited)
  labels := h.labels.normal
  params f hf := (h.params f hf).normal

/-- Unions, groups and lists of normal types are normal, and so are all types of what an expression
yields in a scope with normal candidates. -/
theorem Expr.derive_normal :
    (∀ ts : List Ty, (∀ t ∈ ts, t.Normal) → (Ty.unionOf ts).Normal ∧ (Ty.groupOf ts).Normal) ∧
    (∀ t : Ty, t.Normal → (Ty.array t).Normal) ∧
    ∀ (cx : RuleContext) (e : Expr) (s : Scope) (ledger ledger' : Ledger) (y : Yield),
      (∀ b ∈ s.bindings, ∀ t ∈ b.2, t.Normal) →
        (e.derive cx s).runFrom ledger = (.ok y, ledger') → y.Normal := by
  refine ⟨fun ts hts => ⟨Ty.normal_unionOf hts, Ty.normal_groupOf hts⟩,
    fun t ht => Ty.normal_array.2 ht, fun cx e s ledger ledger' y hs hrun => ?_⟩
  obtain ⟨hresult, -⟩ := (derive_computes cx e s).of_runFrom hrun
  exact ((all_preserved Ty.normal_inherited).of_result e s ledger.next y hresult hs).normal

/-- An option over alternatives that repeat each other, and an action that sees a label of the scope
with a union for its candidate. -/
theorem Expr.derive_normal_option : ∃ y ledger',
    (∀ b ∈ (Scope.mk [("a", [.union [.text, .literal "x"]])]).bindings, ∀ t ∈ b.2, t.Normal) ∧
    ((Expr.sequence [.optional (.choice [.literal "x" false, .literal "x" false]),
      .action "code" (.labeled (some "b") (.zeroOrMore (.ruleRef "R")))]).derive
        ⟨"R", [], 256⟩ ⟨[("a", [.union [.text, .literal "x"]])]⟩).runFrom {} = (.ok y, ledger') ∧
    y.types = [.group (.union [.group (.literal "x"), .marker .null])] ∧
    (y.helpers.map fun h => h.params.params) = ["a: string|\"x\", b: Array<R|never>"] ∧
    y.Normal := by
  have hs : ∀ b ∈ [("a", [Ty.union [.text, .literal "x"]])], ∀ t ∈ b.2, t.Normal := by decide
  refine ⟨_, _, hs, rfl, ?_, ?_, derive_normal.2.2 ⟨"R", [], 256⟩ (.sequence
    [.optional (.choice [.literal "x" false, .literal "x" false]),
      .action "code" (.labeled (some "b") (.zeroOrMore (.ruleRef "R")))]) _ {} _ _ hs rfl⟩
  · decide +kernel
  · decide +kernel

end GrammarTypes
