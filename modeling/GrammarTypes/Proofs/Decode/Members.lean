import GrammarTypes.Decode.Grammar
import GrammarTypes.Proofs.Outcome
import Mathlib.Data.List.Nodup

/-!
# Members in any order

An object is decoded member by member into a draft. A `Form` says which names are fields and how a
field is filled; expressions and records are read into drafts by such forms. One member is a step of
the draft: nothing happens at a name that is no field, a field that is there already is refused, and
any other is filled (`Form.take`). Steps at different names commute, since each fills a field of its
own. So the draft does not depend on the order of the members, nor on those that are no fields
(`Form.foldlM_members`).
-/

namespace GrammarTypes.Decode

open Json (Value)

/-! ## Steps that commute -/

/-- Steps that commute lead to the same end in any order. -/
theorem foldlM_perm {α β : Type} {f : β → α → Option β} {xs ys : List α} (h : xs.Perm ys)
    (hcomm : ∀ x ∈ xs, ∀ y ∈ xs, ∀ b, ((f b x).bind fun b => f b y) = (f b y).bind fun b => f b x)
    (b : β) : xs.foldlM f b = ys.foldlM f b := by
  rw [List.foldlM_eq_foldl, List.foldlM_eq_foldl]
  refine h.foldl_eq' (fun x hx y hy z => ?_) (pure b)
  cases z with
  | none => rfl
  | some b => exact hcomm x hx y hy b

/-- Steps that go nowhere can be left out. -/
theorem foldlM_eq_some_of_idle {α β : Type} {f : β → α → Option β} {xs : List α}
    (h : ∀ x ∈ xs, ∀ b, f b x = some b) (b : β) : xs.foldlM f b = some b := by
  induction xs with
  | nil => rfl
  | cons x xs ih =>
    rw [List.foldlM_cons, h x List.mem_cons_self b]
    exact ih fun y hy => h y (List.mem_cons_of_mem x hy)

/-- The members of an object are the given ones, and others that have none of the reserved names, in
any order. -/
def HasMembers (reserved : List String) (given ms : List (String × Value)) : Prop :=
  ∃ others, ms.Perm (given ++ others) ∧ ∀ m ∈ others, m.1 ∉ reserved

/-- The given members alone are a way to have them. -/
theorem HasMembers.given (reserved : List String) (given : List (String × Value)) :
    HasMembers reserved given given :=
  ⟨[], by simp, by simp⟩

/-! ## Forms -/

/-- A form with fields, to be filled in. -/
structure Form (F D : Type) where
  /-- The field with a name. -/
  field? : String → Option F
  /-- Whether a draft has a field already. -/
  has : D → F → Bool
  /-- The draft with a field filled by a value. -/
  fill : D → F → Value → Option D

namespace Form

variable {F D : Type} (form : Form F D)

/-- The draft after one more member. -/
def take (d : D) (m : String × Value) : Option D :=
  match form.field? m.1 with
  | none => some d
  | some f => if form.has d f then none else form.fill d f m.2

/-- Fields that are filled in either order, the first without a trace on the second. -/
structure Apart (f g : F) : Prop where
  /-- The order makes no difference. -/
  fill_comm : ∀ d v w, ((form.fill d f v).bind fun d => form.fill d g w) =
    (form.fill d g w).bind fun d => form.fill d f v
  /-- The second field is there after the first is filled if it was before. -/
  has_fill : ∀ d v d', form.fill d f v = some d' → form.has d' g = form.has d g

variable {form}

/-- Nothing happens at a name that is no field. -/
theorem take_of_field?_eq_none {m : String × Value} (h : form.field? m.1 = none) (d : D) :
    form.take d m = some d := by
  rw [take, h]

/-- A member fills its field, unless that is there already. -/
theorem take_of_field?_eq_some {m : String × Value} {f : F} (h : form.field? m.1 = some f) (d : D) :
    form.take d m = if form.has d f then none else form.fill d f m.2 := by
  rw [take, h]

/-- A member is taken after another field is filled as it would be before. -/
theorem bind_take {m : String × Value} {f g : F} (hm : form.field? m.1 = some g) {d : D} {v : Value}
    (h : ∀ d', form.fill d f v = some d' → form.has d' g = form.has d g) :
    ((form.fill d f v).bind fun d => form.take d m) =
      if form.has d g then none else (form.fill d f v).bind fun d => form.fill d g m.2 := by
  cases hfill : form.fill d f v with
  | none => simp
  | some d' => rw [Option.bind_some, take_of_field?_eq_some hm, h d' hfill, Option.bind_some]

/-- Members of two fields that are apart can be taken in either order. -/
theorem take_comm {x y : String × Value}
    (h : ∀ f g, form.field? x.1 = some f → form.field? y.1 = some g →
      form.Apart f g ∧ form.Apart g f) (d : D) :
    ((form.take d x).bind fun d => form.take d y) =
      (form.take d y).bind fun d => form.take d x := by
  cases hx : form.field? x.1 with
  | none => simp [take_of_field?_eq_none hx]
  | some f =>
    cases hy : form.field? y.1 with
    | none => simp [take_of_field?_eq_none hy]
    | some g =>
      obtain ⟨hfg, hgf⟩ := h f g hx hy
      have hxy := bind_take hy (hfg.has_fill d x.2)
      have hyx := bind_take hx (hgf.has_fill d y.2)
      rw [take_of_field?_eq_some hx, take_of_field?_eq_some hy]
      -- Either field refuses both members when it is there already.
      cases hf : form.has d f <;> cases hg : form.has d g <;>
        simp only [hf, hg, Bool.false_eq_true, if_true, if_false, Option.bind_none] at hxy hyx ⊢
      · rw [hxy, hyx, hfg.fill_comm]
      · exact hxy
      · exact hyx.symm

/-- A draft is filled from the members of an object as from the given ones, when the names of all
fields are reserved and different names have fields that are apart. -/
theorem foldlM_members {reserved : List String} {given ms : List (String × Value)}
    (h : HasMembers reserved given ms) (hnodup : (given.map Prod.fst).Nodup)
    (hreserved : ∀ key f, form.field? key = some f → key ∈ reserved)
    (hapart : ∀ key key' f g, key ≠ key' → form.field? key = some f → form.field? key' = some g →
      form.Apart f g) (d : D) :
    ms.foldlM form.take d = given.foldlM form.take d := by
  obtain ⟨others, hperm, hothers⟩ := h
  have hidle : ∀ m ∈ others, ∀ d, form.take d m = some d := by
    intro m hm d
    cases hfield : form.field? m.1 with
    | none => exact take_of_field?_eq_none hfield d
    | some f => exact absurd (hreserved m.1 f hfield) (hothers m hm)
  have hgiven : ∀ m ∈ ms, m.1 ∈ reserved → m ∈ given := by
    intro m hm hname
    rcases List.mem_append.1 (hperm.mem_iff.1 hm) with hgiven | hother
    · exact hgiven
    · exact absurd hname (hothers m hother)
  have hpair : ∀ x ∈ ms, ∀ y ∈ ms, ∀ d, ((form.take d x).bind fun d => form.take d y) =
      (form.take d y).bind fun d => form.take d x := by
    intro x hx y hy d
    by_cases hxy : x = y
    · rw [hxy]
    · refine take_comm (fun f g hf hg => ?_) d
      have hname : x.1 ≠ y.1 := by
        intro hname
        have hgivenx := hgiven x hx (hreserved x.1 f hf)
        have hgiveny := hgiven y hy (hreserved y.1 g hg)
        exact hxy (List.inj_on_of_nodup_map hnodup hgivenx hgiveny hname)
      exact ⟨hapart x.1 y.1 f g hname hf hg, hapart y.1 x.1 g f hname.symm hg hf⟩
  rw [foldlM_perm hperm hpair, List.foldlM_append]
  cases given.foldlM form.take d with
  | none => rfl
  | some d' => exact foldlM_eq_some_of_idle hidle d'

end Form

/-! ## Members of expressions -/

/-- What is filled into the field of an expression with a value: a change of the draft. -/
def Draft.filling (f : Field) (v : Value) : Option (Draft → Draft) :=
  match f with
  | .code => (textOf v).toOption.map fun x d => { d with code := some x }
  | .expression => (exprOf v).toOption.map fun x d => { d with expression := some x }
  | .alternatives => (exprsOf v).toOption.map fun x d => { d with alternatives := some x }
  | .parts => (partsOf v).toOption.map fun x d => { d with parts := some x }
  | .inverted => (flagOf v).toOption.map fun x d => { d with inverted := some x }
  | .ignoreCase => (flagOf v).toOption.map fun x d => { d with ignoreCase := some x }
  | .label => (labelOf v).toOption.map fun x d => { d with label := some x }
  | .value => (textOf v).toOption.map fun x d => { d with value := some x }
  | .name => (textOf v).toOption.map fun x d => { d with name := some x }
  | .elements => (exprsOf v).toOption.map fun x d => { d with elements := some x }

/-- Filling a field changes the draft as the value says. -/
theorem Draft.toOption_fill (d : Draft) (f : Field) (v : Value) :
    (d.fill f v (fun _ => exprOf v) fun _ => exprsOf v).toOption =
      (Draft.filling f v).map fun change => change d := by
  cases f <;> simp [Draft.fill, Draft.filling, Function.comp_def]

/-- Different fields are filled in either order. -/
theorem Draft.filling_comm {f g : Field} (hne : f ≠ g) {v w : Value}
    {change change' : Draft → Draft}
    (hf : Draft.filling f v = some change) (hg : Draft.filling g w = some change') (d : Draft) :
    change' (change d) = change (change' d) := by
  cases f <;> cases g <;> first
    | exact absurd rfl hne
    | obtain ⟨x, -, rfl⟩ := Option.map_eq_some_iff.1 hf
      obtain ⟨y, -, rfl⟩ := Option.map_eq_some_iff.1 hg
      rfl

/-- A field that is filled leaves the others as they are. -/
theorem Draft.has_filling {f g : Field} (hne : f ≠ g) {v : Value} {change : Draft → Draft}
    (hf : Draft.filling f v = some change) (d : Draft) : (change d).has g = d.has g := by
  cases f <;> cases g <;> first
    | exact absurd rfl hne
    | obtain ⟨x, -, rfl⟩ := Option.map_eq_some_iff.1 hf
      rfl

/-- The form of a kind of expression. -/
def expressionForm (kind : Expr.Kind) : Form Field Draft where
  field? := field? kind
  has := Draft.has
  fill d f v := (Draft.filling f v).map fun change => change d

/-- An expression is filled member by member. -/
theorem toOption_fillMembers (kind : Expr.Kind) (ms : List (String × Value)) (d : Draft) :
    (fillMembers kind ms d).toOption = ms.foldlM (expressionForm kind).take d := by
  induction ms generalizing d with
  | nil => simp [fillMembers]
  | cons m ms ih =>
    obtain ⟨key, v⟩ := m
    rw [fillMembers, List.foldlM_cons]
    cases hfield : field? kind key with
    | none =>
      rw [Form.take_of_field?_eq_none (m := (key, v)) hfield]
      exact ih d
    | some f =>
      rw [Form.take_of_field?_eq_some (m := (key, v)) hfield]
      cases hhas : d.has f <;> simp [expressionForm, hhas, Draft.toOption_fill, ih]

/-- The field with a name has that name, and the kind has the field. -/
theorem field?_eq_some {kind : Expr.Kind} {key : String} {f : Field}
    (h : field? kind key = some f) :
    f ∈ fieldsOf kind ∧ f.key = key :=
  ⟨List.mem_of_find?_eq_some h, by simpa using List.find?_some h⟩

/-- Different fields of an expression are apart. -/
theorem expressionForm_apart (kind : Expr.Kind) {f g : Field} (hne : f ≠ g) :
    (expressionForm kind).Apart f g where
  fill_comm d v w := by
    simp only [expressionForm]
    cases hf : Draft.filling f v with
    | none => cases Draft.filling g w <;> rfl
    | some change =>
      cases hg : Draft.filling g w with
      | none => rfl
      | some change' => exact congrArg some (Draft.filling_comm hne hf hg d)
  has_fill d v d' h := by
    obtain ⟨change, hchange, rfl⟩ := Option.map_eq_some_iff.1 h
    exact Draft.has_filling hne hchange d

/-- The draft of an expression does not depend on the order of the members, nor on those that are no
fields of its kind. -/
theorem toOption_fillMembers_eq {kind : Expr.Kind} {reserved : List String}
    {given ms : List (String × Value)} (h : HasMembers reserved given ms)
    (hnodup : (given.map Prod.fst).Nodup) (hreserved : (fieldsOf kind).map Field.key ⊆ reserved)
    (d : Draft) :
    (fillMembers kind ms d).toOption = given.foldlM (expressionForm kind).take d := by
  rw [toOption_fillMembers]
  refine Form.foldlM_members h hnodup (fun key f hf => ?_) (fun key key' f g hne hf hg => ?_) d
  · obtain ⟨hmem, rfl⟩ := field?_eq_some hf
    exact hreserved (List.mem_map_of_mem hmem)
  · refine expressionForm_apart kind fun hfields => hne ?_
    rw [← (field?_eq_some hf).2, ← (field?_eq_some hg).2, hfields]

/-! ## Members of records -/

namespace Record

variable {σ α : Type} (r : Record σ α)

/-- The form of a record. -/
def form : Form (RecordField σ) σ where
  field? := r.field?
  has d f := f.filled d
  fill d f v := ((f.decode d).ofValue v).toOption

/-- A record is filled member by member. -/
theorem toOption_fieldsOf (ms : List (String × Value)) (d : σ) :
    (r.fieldsOf ms d).toOption = ms.foldlM r.form.take d := by
  induction ms generalizing d with
  | nil => simp [fieldsOf]
  | cons m ms ih =>
    obtain ⟨key, v⟩ := m
    rw [fieldsOf, List.foldlM_cons]
    cases hfield : r.field? key with
    | none =>
      rw [Form.take_of_field?_eq_none (m := (key, v)) hfield]
      exact ih d
    | some f =>
      rw [Form.take_of_field?_eq_some (m := (key, v)) hfield]
      cases hfilled : f.filled d <;> simp [form, hfilled, ih]

variable {r}

/-- The field with a name has that name, and the record has the field. -/
theorem field?_eq_some {key : String} {f : RecordField σ} (h : r.field? key = some f) :
    f ∈ r.fields ∧ f.key = key :=
  ⟨List.mem_of_find?_eq_some h, by simpa using List.find?_some h⟩

/-- The draft of a record whose fields are apart does not depend on the order of the members, nor on
those that are no fields of it. -/
theorem toOption_fieldsOf_eq
    (hapart : ∀ f ∈ r.fields, ∀ g ∈ r.fields, f.key ≠ g.key → r.form.Apart f g)
    {given ms : List (String × Value)}
    (h : HasMembers (r.fields.map RecordField.key) given ms) (hnodup : (given.map Prod.fst).Nodup)
    (d : σ) : (r.fieldsOf ms d).toOption = given.foldlM r.form.take d := by
  rw [toOption_fieldsOf]
  refine Form.foldlM_members h hnodup (fun key f hf => ?_) (fun key key' f g hne hf hg => ?_) d
  · obtain ⟨hmem, rfl⟩ := field?_eq_some hf
    exact List.mem_map_of_mem hmem
  · obtain ⟨hfmem, rfl⟩ := field?_eq_some hf
    obtain ⟨hgmem, rfl⟩ := field?_eq_some hg
    exact hapart f hfmem g hgmem hne

/-- Fields that are read and then set in places of their own are apart. -/
theorem apart_of_set {β γ : Type} {key key' : String} {required required' : Bool}
    {filled filled' : σ → Bool} {read : Decoder β} {read' : Decoder γ} {set : σ → β → σ}
    {set' : σ → γ → σ} (hcomm : ∀ d x y, set' (set d x) y = set (set' d y) x)
    (hfilled : ∀ d x, filled' (set d x) = filled' d) :
    r.form.Apart ⟨key, required, filled, fun d => read.map (set d)⟩
      ⟨key', required', filled', fun d => read'.map (set' d)⟩ where
  fill_comm d v w := by
    simp only [form, Decoder.map, Except.toOption_map]
    cases (read.ofValue v).toOption with
    | none => cases (read'.ofValue w).toOption <;> rfl
    | some x =>
      cases (read'.ofValue w).toOption with
      | none => rfl
      | some y => exact congrArg some (hcomm d x y)
  has_fill d v d' h := by
    simp only [form, Decoder.map, Except.toOption_map] at h
    obtain ⟨x, -, rfl⟩ := Option.map_eq_some_iff.1 h
    exact hfilled d x

end Record

/-- The fields of a rule are apart. -/
theorem ruleRecord_apart : ∀ f ∈ ruleRecord.fields, ∀ g ∈ ruleRecord.fields, f.key ≠ g.key →
    ruleRecord.form.Apart f g := by
  intro f hf g hg hne
  simp only [ruleRecord, List.mem_cons, List.not_mem_nil, or_false] at hf hg
  rcases hf with rfl | rfl <;> rcases hg with rfl | rfl <;> first
    | exact absurd rfl hne
    | exact Record.apart_of_set (fun _ _ _ => rfl) fun _ _ => rfl

/-- The fields of a grammar are apart. -/
theorem grammarRecord_apart : ∀ f ∈ grammarRecord.fields, ∀ g ∈ grammarRecord.fields,
    f.key ≠ g.key → grammarRecord.form.Apart f g := by
  intro f hf g hg hne
  simp only [grammarRecord, List.mem_cons, List.not_mem_nil, or_false] at hf hg
  rcases hf with rfl | rfl | rfl <;> rcases hg with rfl | rfl | rfl <;> first
    | exact absurd rfl hne
    | exact Record.apart_of_set (fun _ _ _ => rfl) fun _ _ => rfl

end GrammarTypes.Decode
