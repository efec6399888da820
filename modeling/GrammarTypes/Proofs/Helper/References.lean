import GrammarTypes.Proofs.Helper.Allocation
import GrammarTypes.Proofs.Ty.Atoms
import Mathlib.Logic.Relation

/-!
# References to helpers

A type can refer to what a helper returns. The helpers that the types, labels and action of a yield
refer to are among its own helpers (`Yield.Closed.refers`). The labels that a helper sees can also
come from the scope that the expression is derived in, whose helpers belong to what stands before
it; beyond those, they refer only to helpers listed before the helper itself
(`Yield.Closed.grounded`). A rule is derived in the empty scope, so all its references stay inside
the rule and lead backwards.
-/

namespace GrammarTypes

namespace Helper

/-- There is an action of the given name among the helpers. -/
def HasAction (hs : List Helper) (name : String) : Prop :=
  ∃ h ∈ hs, h.kind = .action ∧ h.name = name

/-- What a helper sees refers to known names and to actions listed before it. -/
def Grounded (known : String → Prop) (hs : List Helper) : Prop :=
  ∀ i h, hs[i]? = some h → ∀ name, .returnOf name ∈ h.params.atoms →
    known name ∨ HasAction (hs.take i) name

variable {known known' : String → Prop} {hs hs' : List Helper} {name : String}

/-- The actions of two lists are those of both. -/
theorem hasAction_append :
    HasAction (hs ++ hs') name ↔ HasAction hs name ∨ HasAction hs' name := by
  simp only [HasAction, List.mem_append, or_and_right, exists_or]

/-- No helpers refer to nothing. -/
theorem Grounded.nil : Grounded known [] := by
  intro i h hi
  simp at hi

/-- One helper refers to known names. -/
theorem Grounded.singleton {h : Helper} (hknown : ∀ name, .returnOf name ∈ h.params.atoms →
    known name) : Grounded known [h] := by
  intro i f hi name hname
  obtain ⟨-, rfl⟩ : i = 0 ∧ h = f := by simpa [List.getElem?_singleton] using hi
  exact .inl (hknown name hname)

/-- What is known may be more. -/
theorem Grounded.mono (h : Grounded known hs) (hknown : ∀ name, known name → known' name) :
    Grounded known' hs := by
  intro i f hi name hname
  exact (h i f hi name hname).imp_left (hknown name)

/-- The helpers of a second list can refer to the actions of the first. -/
theorem Grounded.append (h : Grounded known hs)
    (h' : Grounded (fun name => known name ∨ HasAction hs name) hs') :
    Grounded known (hs ++ hs') := by
  intro i f hi name hname
  rw [List.take_append, hasAction_append]
  rcases Nat.lt_or_ge i hs.length with hlt | hge
  -- Before a helper of the second list stand all of the first.
  · rw [List.getElem?_append_left hlt] at hi
    rcases h i f hi name hname with hknown | hbefore
    · exact .inl hknown
    · exact .inr (.inl hbefore)
  · rw [List.getElem?_append_right hge] at hi
    rw [List.take_of_length_le hge]
    rcases h' _ f hi name hname with (hknown | hfirst) | hbefore
    · exact .inl hknown
    · exact .inr (.inl hfirst)
    · exact .inr (.inr hbefore)

/-! ## Where references lead -/

/-- The name is that of exactly one helper, the action at the given place. -/
def ResolvesAt (hs : List Helper) (name : String) (i : Nat) : Prop :=
  (∃ h, hs[i]? = some h ∧ h.name = name ∧ h.kind = .action) ∧
    ∀ j h, hs[j]? = some h → h.name = name → j = i

/-- What a helper of the first name sees refers to the second name. -/
def DependsOn (hs : List Helper) (name other : String) : Prop :=
  ∃ h ∈ hs, h.name = name ∧ .returnOf other ∈ h.params.atoms

/-- Helpers with different names are told apart by them. -/
theorem eq_of_names_nodup (hnodup : (hs.map Helper.name).Nodup) {i j : Nat} {h h' : Helper}
    (hi : hs[i]? = some h) (hj : hs[j]? = some h') (hname : h.name = h'.name) : i = j := by
  obtain ⟨hlt, -⟩ := List.getElem?_eq_some_iff.1 hi
  refine (List.getElem?_inj (by rwa [List.length_map]) hnodup).1 ?_
  rw [List.getElem?_map, List.getElem?_map, hi, hj, Option.map_some, Option.map_some, hname]

/-- An action listed before a place is what its name resolves to. -/
theorem HasAction.resolvesAt (hnodup : (hs.map Helper.name).Nodup) {i : Nat}
    (h : HasAction (hs.take i) name) : ∃ j < i, ResolvesAt hs name j := by
  obtain ⟨f, hf, hkind, hname⟩ := h
  obtain ⟨j, hj⟩ := List.mem_iff_getElem?.1 hf
  rw [List.getElem?_take] at hj
  split at hj
  · next hlt =>
    refine ⟨j, hlt, ⟨f, hj, hname, hkind⟩, fun k g hk hg => ?_⟩
    exact eq_of_names_nodup hnodup hk hj (hg.trans hname.symm)
  · cases hj

/-- An action is what its name resolves to. -/
theorem HasAction.exists_resolvesAt (hnodup : (hs.map Helper.name).Nodup)
    (h : HasAction hs name) : ∃ i, ResolvesAt hs name i := by
  rw [← List.take_length (l := hs)] at h
  obtain ⟨i, -, hi⟩ := h.resolvesAt hnodup
  exact ⟨i, hi⟩

/-- Among helpers that refer only backwards, a reference leads backwards. -/
theorem Grounded.lt_of_dependsOn (hnodup : (hs.map Helper.name).Nodup)
    (hground : Grounded (fun _ => False) hs) {other : String} (hdep : DependsOn hs name other)
    {i : Nat} {h : Helper} (hi : hs[i]? = some h) (hname : h.name = name) :
    ∃ (j : Nat) (g : Helper), j < i ∧ hs[j]? = some g ∧ g.name = other := by
  obtain ⟨f, hf, hfname, hmem⟩ := hdep
  obtain ⟨k, hk⟩ := List.mem_iff_getElem?.1 hf
  obtain rfl := eq_of_names_nodup hnodup hk hi (hfname.trans hname.symm)
  rcases hground k f hk other hmem with hfalse | hbefore
  · exact hfalse.elim
  · obtain ⟨j, hj, ⟨g, hg, hgname, -⟩, -⟩ := hbefore.resolvesAt hnodup
    exact ⟨j, g, hj, hg, hgname⟩

/-- Among helpers that refer only backwards, a chain of references leads backwards. -/
theorem Grounded.lt_of_chain (hnodup : (hs.map Helper.name).Nodup)
    (hground : Grounded (fun _ => False) hs) {other : String}
    (hchain : Relation.TransGen (DependsOn hs) name other) {i : Nat} {h : Helper}
    (hi : hs[i]? = some h) (hname : h.name = name) :
    ∃ (j : Nat) (g : Helper), j < i ∧ hs[j]? = some g ∧ g.name = other := by
  induction hchain with
  | single hdep => exact hground.lt_of_dependsOn hnodup hdep hi hname
  | tail _ hdep ih =>
    obtain ⟨j, g, hj, hg, hgname⟩ := ih
    obtain ⟨k, f, hk, hlast⟩ := hground.lt_of_dependsOn hnodup hdep hg hgname
    exact ⟨k, f, Nat.lt_trans hk hj, hlast⟩

/-- Helpers that refer only backwards do not depend on themselves. -/
theorem Grounded.not_dependsOn_self (hnodup : (hs.map Helper.name).Nodup)
    (hground : Grounded (fun _ => False) hs) (name : String) :
    ¬ Relation.TransGen (DependsOn hs) name name := by
  intro hloop
  obtain ⟨_, ⟨h, hh, hname, -⟩, -⟩ := Relation.TransGen.head'_iff.1 hloop
  obtain ⟨i, hi⟩ := List.mem_iff_getElem?.1 hh
  obtain ⟨j, g, hj, hg, hgname⟩ := hground.lt_of_chain hnodup hloop hi hname
  -- The chain ends at a helper of the same name that is listed before.
  have hsame := eq_of_names_nodup hnodup hg hi (hgname.trans hname.symm)
  omega

end Helper

namespace Yield

open Helper (HasAction Grounded)

/-- The ways in which a yield refers to a helper. -/
inductive Refers (y : Yield) (name : String) : Prop
  /-- What the helper returns stands in one of the types, at any depth. -/
  | types (h : .returnOf name ∈ Ty.atomsAll y.types) : Refers y name
  /-- What the helper returns stands in a candidate of one of the labels, at any depth. -/
  | labels (h : .returnOf name ∈ y.labels.atoms) : Refers y name
  /-- The helper is that of the action that decides the value. -/
  | action (h : y.action.map Action.helper = some name) : Refers y name

/-- The references of a yield derived in a scope stay inside the yield or lead to what the scope
refers to. -/
structure Closed (s : Scope) (y : Yield) : Prop where
  /-- What the yield refers to is an action among its own helpers. -/
  refers : ∀ name, y.Refers name → HasAction y.helpers name
  /-- What a helper sees refers to the scope or to actions listed before it. -/
  grounded : Grounded (fun name => .returnOf name ∈ s.atoms) y.helpers

variable {s s' : Scope} {y acc : Yield} {name : String}

/-- The value of a part refers to what the part refers to. -/
theorem refers_of_mem_valueTypes (h : .returnOf name ∈ Ty.atomsAll y.valueTypes) :
    y.Refers name := by
  unfold valueTypes at h
  split at h
  · next action haction =>
    obtain rfl : name = action.helper := by simpa [Ty.atomsAll, Ty.atoms] using h
    exact .action (by rw [haction]; rfl)
  · exact .types h

/-- The entry that an element adds to a sequence refers to what the element refers to or to the
action before it. -/
theorem mem_atomsAll_entry {decided : Option Action}
    (h : .returnOf name ∈ Ty.atomsAll (entry decided y)) :
    y.Refers name ∨ decided.map Action.helper = some name := by
  have hne : Ty.returnOf name ≠ .unknown := Ty.noConfusion
  unfold entry at h
  split at h
  · next previous _ =>
    rw [Ty.atomsAll_singleton, Ty.mem_atoms_groupOf hne, Ty.atomsAll_singleton] at h
    obtain rfl : name = previous.helper := by simpa [Ty.atoms] using h
    exact .inr rfl
  · exact absurd h List.not_mem_nil
  · split at h
    · exact absurd h List.not_mem_nil
    · rw [Ty.atomsAll_singleton, Ty.mem_atoms_groupOf hne] at h
      exact .inl (.types h)

/-- The labels of alternatives are made of what the labels of each are made of, `unknown` apart. -/
theorem mem_atoms_foldl_merge {a : Ty} (ha : a ≠ .unknown) (s : Scope) (ys : List Yield) :
    a ∈ (ys.foldl (fun s y => s.merge y.labels) s).atoms ↔
      a ∈ s.atoms ∨ ∃ y ∈ ys, a ∈ y.labels.atoms := by
  induction ys generalizing s with
  | nil => simp
  | cons y ys ih => simp [ih, Scope.mem_atoms_merge ha, or_assoc]

/-- Helpers of several yields stay grounded when they are listed one after the other. -/
theorem grounded_flatMap {known : String → Prop} {ys : List Yield}
    (h : ∀ y ∈ ys, Grounded known y.helpers) : Grounded known (ys.flatMap helpers) := by
  induction ys with
  | nil => exact .nil
  | cons y ys ih =>
    obtain ⟨hy, hys⟩ := List.forall_mem_cons.1 h
    rw [List.flatMap_cons]
    exact hy.append ((ih hys).mono fun _ => .inl)

/-- A yield without labels and action refers to what its types refer to. -/
theorem refers_iff (hlabels : y.labels = .empty) (haction : y.action = none) :
    y.Refers name ↔ .returnOf name ∈ Ty.atomsAll y.types := by
  refine ⟨?_, .types⟩
  rintro (htypes | hname | hname)
  · exact htypes
  · rw [hlabels] at hname
    exact absurd hname List.not_mem_nil
  · rw [haction] at hname
    cases hname

/-! ## Closed yields -/

/-- The sequence of no elements is closed. -/
theorem Closed.empty : Closed s {} where
  refers _ hname := absurd ((refers_iff rfl rfl).1 hname) List.not_mem_nil
  grounded := .nil

/-- A single type that refers to no helper is closed. -/
theorem Closed.of {t : Ty} (ht : ∀ name, .returnOf name ∉ t.atoms) : Closed s (.of t) where
  refers name hname := by
    have htypes := (refers_iff rfl rfl).1 hname
    rw [Yield.of, Ty.atomsAll_singleton] at htypes
    exact absurd htypes (ht name)
  grounded := .nil

/-- A condition sees what the scope refers to. -/
theorem Closed.ofPredicate (helper code : String) : Closed s (.ofPredicate helper code s) where
  refers name hname := by
    have htypes := (refers_iff rfl rfl).1 hname
    simp [Yield.ofPredicate, Yield.addHelper, Yield.of, Ty.atomsAll, Ty.atoms] at htypes
  grounded := .singleton fun _ hname => hname

/-- An operator that adds no references keeps a yield closed. -/
theorem Closed.wrap {f : List Ty → Ty} (h : Closed s y)
    (hf : ∀ name ts, .returnOf name ∈ (f ts).atoms → .returnOf name ∈ Ty.atomsAll ts) :
    Closed s (y.wrap f) where
  refers name := by
    rintro (htypes | hlabels | haction)
    · rw [types_wrap, Ty.atomsAll_singleton] at htypes
      exact h.refers name (refers_of_mem_valueTypes (hf name _ htypes))
    · exact h.refers name (.labels ((Scope.mem_atoms_empty_merge Ty.noConfusion _).1 hlabels))
    · cases haction
  grounded := h.grounded

/-- A capture keeps a yield closed. -/
theorem Closed.capture (label : String) (h : Closed s y) : Closed s (y.capture label) where
  refers name := by
    rintro (htypes | hlabels | haction)
    · exact absurd htypes List.not_mem_nil
    · rcases (Scope.mem_atoms_bind Ty.noConfusion _ _ _).1 hlabels with hempty | hvalue
      · exact absurd hempty List.not_mem_nil
      · exact h.refers name (refers_of_mem_valueTypes hvalue)
    · cases haction
  grounded := h.grounded

/-- An action refers to its own helper, which comes last and sees the scope and the labels of the
part. -/
theorem Closed.underAction (helper code : String) (h : Closed s y) :
    Closed s (y.underAction helper code s) where
  refers name := by
    have hown : HasAction (y.underAction helper code s).helpers helper :=
      Helper.hasAction_append.2 (.inr ⟨_, List.mem_singleton_self _, rfl, rfl⟩)
    rintro (htypes | hlabels | haction)
    · obtain rfl : name = helper := by
        simpa [types_underAction, Ty.atomsAll, Ty.atoms] using htypes
      exact hown
    · rw [labels_underAction, Scope.mem_atoms_empty_merge Ty.noConfusion] at hlabels
      exact Helper.hasAction_append.2 (.inl (h.refers name (.labels hlabels)))
    · obtain rfl : helper = name := Option.some.inj haction
      exact hown
  grounded := by
    refine h.grounded.append (.singleton fun name hname => ?_)
    rcases (Scope.mem_atoms_merge Ty.noConfusion _ _).1 hname with hscope | hlabels
    · exact .inl hscope
    · exact .inr (h.refers name (.labels hlabels))

/-- One more element keeps a sequence closed when the scope of the element refers to what the scope
of the sequence refers to and to the helpers so far. -/
theorem Closed.append (hacc : Closed s acc) (hy : Closed s' y)
    (hscope : ∀ name, .returnOf name ∈ s'.atoms →
      .returnOf name ∈ s.atoms ∨ HasAction acc.helpers name) :
    Closed s (acc.append y) where
  refers name hname := by
    refine Helper.hasAction_append.2 ?_
    rcases hname with htypes | hlabels | haction
    -- The new entry stands for the element, or for the action that decided the value until now.
    · rw [types_append, Ty.atomsAll_append, List.mem_append] at htypes
      rcases htypes with htypes | hentry
      · exact .inl (hacc.refers name (.types htypes))
      · rcases mem_atomsAll_entry hentry with hrefers | hdecided
        · exact .inr (hy.refers name hrefers)
        · exact .inl (hacc.refers name (.action hdecided))
    · rcases (Scope.mem_atoms_merge Ty.noConfusion _ _).1 hlabels with hlabels | hlabels
      · exact .inl (hacc.refers name (.labels hlabels))
      · exact .inr (hy.refers name (.labels hlabels))
    · rw [action_append] at haction
      cases hown : y.action with
      | none =>
        rw [hown, Option.none_or] at haction
        exact .inl (hacc.refers name (.action haction))
      | some action =>
        rw [hown, Option.some_or, ← hown] at haction
        exact .inr (hy.refers name (.action haction))
  grounded := hacc.grounded.append (hy.grounded.mono hscope)

/-- Alternatives that are closed in the empty scope make a closed choice. -/
theorem Closed.choice {ys : List Yield} (h : ∀ y ∈ ys, Closed .empty y) :
    Closed s (Yield.choice ys) where
  refers name := by
    have hpart : ∀ y ∈ ys, y.Refers name → HasAction (ys.flatMap helpers) name := by
      intro y hy hrefers
      obtain ⟨f, hf, hkind⟩ := (h y hy).refers name hrefers
      exact ⟨f, List.mem_flatMap_of_mem hy hf, hkind⟩
    rw [helpers_choice]
    rintro (htypes | hlabels | haction)
    · rw [types_choice] at htypes
      obtain ⟨t, ht, hname⟩ := Ty.mem_atomsAll.1 htypes
      obtain ⟨y, hy, rfl⟩ := List.mem_map.1 ht
      rw [Ty.mem_atoms_groupOf Ty.noConfusion] at hname
      exact hpart y hy (refers_of_mem_valueTypes hname)
    · rw [labels_choice] at hlabels
      rcases (mem_atoms_foldl_merge Ty.noConfusion _ _).1 hlabels with hempty | ⟨y, hy, hname⟩
      · exact absurd hempty List.not_mem_nil
      · exact hpart y hy (.labels hname)
    · rw [action_choice] at haction
      cases haction
  grounded := by
    rw [helpers_choice]
    exact grounded_flatMap fun y hy =>
      (h y hy).grounded.mono fun _ hname => absurd hname List.not_mem_nil

/-- In the empty scope, what a helper sees refers to actions listed before it. -/
theorem Closed.grounded_of_empty (h : Closed .empty y) : Grounded (fun _ => False) y.helpers :=
  h.grounded.mono fun _ hname => absurd hname List.not_mem_nil

/-- In the empty scope, what a yield or one of its helpers refers to is an action among its own
helpers. -/
theorem Closed.hasAction_of_empty (h : Closed .empty y)
    (hname : y.Refers name ∨ ∃ f ∈ y.helpers, .returnOf name ∈ f.params.atoms) :
    HasAction y.helpers name := by
  rcases hname with hrefers | ⟨f, hf, hparam⟩
  · exact h.refers name hrefers
  · obtain ⟨i, hi⟩ := List.mem_iff_getElem?.1 hf
    obtain ⟨g, hg, hkind⟩ := (h.grounded_of_empty i f hi name hparam).resolve_left id
    exact ⟨g, List.mem_of_mem_take hg, hkind⟩

end Yield

namespace Expr

open Helper (HasAction Grounded)

variable {rule : String} {limit : Nat}

/-- An expression without parts and code refers to no helper. -/
theorem Leaf.notMem_atoms {e : Expr} {s : Scope} {n : Nat} {t : Ty} (he : Leaf e)
    (ht : result rule limit e s n = .ok (.of t)) (name : String) : .returnOf name ∉ t.atoms := by
  have hyield : ∀ u, Yield.of u = Yield.of t → u = t := by
    intro u hu
    exact (List.cons.inj (congrArg Yield.types hu)).1
  cases he with
  | charClass parts inverted ignoreCase =>
    obtain ⟨u, hu, hut⟩ := Except.map_eq_ok_iff.1 ht
    obtain rfl := hyield u hut
    exact CharClass.notMem_atoms_type (.returnOf name) (Except.mapError_eq_ok_iff.1 hu)
  | literal value ignoreCase =>
    obtain rfl := hyield _ (Except.ok.inj ht)
    cases ignoreCase <;> simp [Ty.atoms]
  | _ =>
    obtain rfl := hyield _ (Except.ok.inj ht)
    simp [Ty.atoms]

/-- The elements of a sequence keep it closed. -/
theorem closed_of_chain {es : List Expr} {s s' : Scope} {n : Nat} {ys : List Yield}
    (h : Chain (fun _ s _ y => y.Closed s) bound es s' n ys) {acc : Yield} (hacc : acc.Closed s)
    (hscope : ∀ name, .returnOf name ∈ s'.atoms →
      .returnOf name ∈ s.atoms ∨ HasAction acc.helpers name) :
    (ys.foldl Yield.append acc).Closed s := by
  induction h generalizing acc with
  | nil => exact hacc
  | cons hy _ ih =>
    refine ih (hacc.append hy hscope) fun name hname => ?_
    -- A label bound so far was bound before the sequence or by an element whose helpers are listed.
    rcases (Scope.mem_atoms_merge Ty.noConfusion _ _).1 hname with hscoped | hlabels
    · exact (hscope name hscoped).imp_right fun hbefore => Helper.hasAction_append.2 (.inl hbefore)
    · exact .inr (Helper.hasAction_append.2 (.inr (hy.refers name (.labels hlabels))))

/-- Every result is closed. -/
theorem closed_preserved : Preserved rule limit fun _ s _ y => y.Closed s where
  leaf he ht := .of (he.notMem_atoms ht)
  condition _ := .ofPredicate _ _
  passes _ h := h
  wraps he h := h.wrap fun name ts => (he.mem_atoms (.returnOf name) ts).1
  capture h := h.capture _
  action h := h.underAction _ _
  sequence h := closed_of_chain h .empty fun _ => .inl
  choice h := .choice fun y hy => by
    obtain ⟨_, _, _, hclosed⟩ := h.of_unbound y hy
    exact hclosed

/-- The result of a rule is closed in the empty scope. -/
theorem closed_ruleResult {e : Expr} {n : Nat} {y : Yield}
    (h : e.ruleResult rule limit n = .ok y) : y.Closed .empty := by
  cases htop : e.topAction? with
  | none =>
    rw [ruleResult_of_no_topAction htop] at h
    exact closed_preserved.of_result e.unnamed .empty n y h
  | some top =>
    obtain ⟨code, inner⟩ := top
    rw [ruleResult_of_topAction htop] at h
    obtain ⟨z, hz, rfl⟩ := Except.map_eq_ok_iff.1 h
    exact (closed_preserved.of_result inner .empty n z hz).underAction _ _

/-- The helpers that the types, the labels or the action of a rule refer to, and those that the
parameters of its helpers refer to, are each exactly one of the rule's own helpers, and an action.
The parameters of a helper refer only to helpers listed before it, so that no chain of references
leads from a helper back to itself. -/
theorem helper_references_closed (cx : RuleContext) (e : Expr) (log : List Event) (ledger' : Ledger)
    (y : Yield) (hrun : (e.deriveRule cx).runFrom ⟨1, log⟩ = (.ok y, ledger')) :
    (∀ name, y.Refers name → ∃ i, Helper.ResolvesAt y.helpers name i) ∧
    (∀ i h, y.helpers[i]? = some h → ∀ name, .returnOf name ∈ h.params.atoms →
      ∃ j < i, Helper.ResolvesAt y.helpers name j) ∧
    ∀ name, ¬ Relation.TransGen (Helper.DependsOn y.helpers) name name := by
  obtain ⟨hresult, -⟩ := (deriveRule_computes cx e).of_runFrom hrun
  have hclosed := closed_ruleResult hresult
  have hnodup := (allocates_ruleResult hresult).names_nodup (e.ruleHelperName_injective cx.rule)
  have hground := hclosed.grounded_of_empty
  refine ⟨fun name hname => ?_, fun i h hi name hname => ?_, hground.not_dependsOn_self hnodup⟩
  · exact (hclosed.refers name hname).exists_resolvesAt hnodup
  · exact ((hground i h hi name hname).resolve_left id).resolvesAt hnodup

/-- Two captured actions under an action: the second captured action sees the value of the first,
and the action at the top is that of the rule. -/
theorem helper_references_closed_captures : ∃ y ledger',
    ((Expr.action "top" (.sequence [.labeled (some "a") (.action "first" .any),
      .labeled (some "b") (.zeroOrMore (.action "second" .any))])).deriveRule
        ⟨"R", [], 256⟩).runFrom ⟨1, []⟩ = (.ok y, ledger') ∧
      (y.Refers "peg$parseR" ∧ ∃ i, Helper.ResolvesAt y.helpers "peg$parseR" i) ∧
      ∃ h, y.helpers[1]? = some h ∧ .returnOf "peg$parseR$1" ∈ h.params.atoms ∧
        ∃ j < 1, Helper.ResolvesAt y.helpers "peg$parseR$1" j := by
  refine ⟨_, _, rfl, ?_⟩
  obtain ⟨hown, hparams, -⟩ := helper_references_closed ⟨"R", [], 256⟩ (.action "top" (.sequence
    [.labeled (some "a") (.action "first" .any),
      .labeled (some "b") (.zeroOrMore (.action "second" .any))])) [] _ _ rfl
  refine ⟨⟨.action rfl, hown _ (.action rfl)⟩, _, rfl, ?_, hparams 1 _ rfl _ ?_⟩
  · decide +kernel
  · decide +kernel

end Expr

end GrammarTypes
