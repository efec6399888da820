import GrammarTypes.Proofs.Derivation.Labels
import GrammarTypes.Proofs.Derivation.NormalForm
import GrammarTypes.Proofs.Ty.Union

/-!
# Choices, repetitions and options

A choice has one group for each alternative. Groups are no unions, so that the union over them
cannot mix the members of different alternatives: its members are the groups, each once and in the
order in which they come first (`Yield.GroupsOf`).

A repetition and an option make one type of the value of their part and keep the rest of what it
yields (`Yield.Encloses`). A repetition that may be empty adds its empty case to the candidates of
the part, and this is the same as adding it to their union, since the candidates are normal
(`Ty.itemOf_eq`). They are normal whatever labels are bound before the part, because its value does
not depend on these (`Expr.valueTypes_normal`).
-/

namespace GrammarTypes

/-! ## Item types -/

namespace Ty

/-- The item type of normal candidates is their union, joined with the empty case. -/
theorem itemOf_eq {ts : List Ty} (h : ∀ t ∈ ts, t.Normal) (empty : List Ty) :
    itemOf ts empty = if ts = [] then .unknown else unionOf (unionOf ts :: empty) := by
  unfold itemOf
  by_cases hts : ts = []
  · rw [if_pos hts, if_pos (List.isEmpty_iff.2 hts)]
  · have hnested : unionOf ([] ++ unionOf ts :: empty) = unionOf ([] ++ (ts ++ empty)) :=
      unionOf_nested hts h
    rw [if_neg hts, if_neg (mt List.isEmpty_iff.1 hts)]
    exact hnested.symm

/-- Without an empty case the item type is the union of the candidates. -/
theorem itemOf_nil (ts : List Ty) : itemOf ts [] = unionOf ts := by
  unfold itemOf
  by_cases hts : ts = []
  · rw [if_pos (List.isEmpty_iff.2 hts), hts, unionOf_eq]
    rfl
  · rw [if_neg (mt List.isEmpty_iff.1 hts), List.append_nil]

/-- A group and another type that is neither a group nor a union are the two members of their
union. -/
theorem unionOf_groupOf_pair (ts : List Ty) {t : Ty} (hunion : t.isUnion = false)
    (hgroup : t.isGroup = false) : unionOf [groupOf ts, t] = .union [groupOf ts, t] := by
  obtain ⟨u, hu⟩ := exists_groupOf_eq ts
  have hne : t ≠ .group u := by
    rintro rfl
    exact nomatch hgroup
  have hmembers : [Ty.group u, t].flatMap members = [.group u, t] :=
    flatMap_members_of_not_union (List.forall_mem_cons.2 ⟨rfl, List.forall_mem_singleton.2 hunion⟩)
  rw [hu, unionOf_eq, hmembers, eraseDups_of_nodup (by simpa using hne.symm)]
  rfl

end Ty

/-! ## Yields -/

namespace Yield

/-- A choice from what its alternatives yield. -/
structure GroupsOf (y : Yield) (alternatives : List Yield) : Prop where
  /-- There is one group for each alternative, in their order. -/
  types : y.types = alternatives.map fun z => Ty.groupOf z.valueTypes
  /-- Each of them is in parentheses. -/
  groups : ∀ t ∈ y.types, ∃ u, t = .group u
  /-- No action decides the value. -/
  action : y.action = none
  /-- The type that the choice stands for has the different groups as members, in the order in which
  they come first. -/
  members : alternatives ≠ [] → y.unionType.members = y.types.eraseDups
  /-- It shows as many members as there are different groups. -/
  arity : alternatives ≠ [] → y.unionType.arity = y.types.eraseDups.length
  /-- Its text is that of the different groups between bars. -/
  render : alternatives ≠ [] →
    y.unionType.render = "|".intercalate (y.types.eraseDups.map Ty.render)
  /-- Nothing is known of a choice without alternatives. -/
  unknown : alternatives = [] → y.unionType = .unknown ∧ y.unionType.arity = 1
  /-- The labels of the alternatives are merged in their order. -/
  labels : y.labels = alternatives.foldl (fun s z => s.merge z.labels) .empty
  /-- The helpers of the alternatives are listed in their order. -/
  helpers : y.helpers = alternatives.flatMap Yield.helpers

/-- A choice is made of its alternatives. -/
theorem groupsOf_choice (ys : List Yield) : (choice ys).GroupsOf ys := by
  have hgroups : ∀ t ∈ (choice ys).types, ∃ u, t = .group u := by
    intro t ht
    rw [types_choice] at ht
    obtain ⟨y, -, rfl⟩ := List.mem_map.1 ht
    exact Ty.exists_groupOf_eq y.valueTypes
  have hunion : ∀ t ∈ (choice ys).types, t.isUnion = false := by
    intro t ht
    obtain ⟨u, rfl⟩ := hgroups t ht
    rfl
  have hmembers : ys ≠ [] → (choice ys).unionType.members = (choice ys).types.eraseDups := by
    intro hne
    have htypes : (choice ys).types ≠ [] := by
      rw [types_choice]
      exact mt List.map_eq_nil_iff.1 hne
    rw [unionType, valueTypes_of_no_action (action_choice ys)]
    exact Ty.members_unionOf_of_not_union htypes hunion
  constructor
  case types => exact types_choice ys
  case groups => exact hgroups
  case action => exact action_choice ys
  case members => exact hmembers
  case arity => exact fun hne => congrArg List.length (hmembers hne)
  case render => exact fun hne => by rw [Ty.render_eq_intercalate, hmembers hne]
  case unknown =>
    rintro rfl
    have hunknown : (choice []).unionType = .unknown := Ty.unionOf_eq []
    rw [hunknown]
    exact ⟨rfl, rfl⟩
  case labels => exact labels_choice ys
  case helpers => exact helpers_choice ys

/-- A yield that has a single type of its own around a part: the type is its only candidate, no
action decides its value, and the labels and helpers are those of the part. -/
structure Encloses (y part : Yield) (t : Ty) : Prop where
  /-- The type is the only candidate. -/
  types : y.types = [t]
  /-- No action decides the value. -/
  action : y.action = none
  /-- The labels are those of the part. -/
  labels : y.labels = part.labels
  /-- The helpers are those of the part. -/
  helpers : y.helpers = part.helpers

/-- An operator encloses its part in the type that it makes of the value. -/
theorem encloses_wrap {f : List Ty → Ty} {y : Yield} {t : Ty} (h : f y.valueTypes = t)
    (hlabels : Scope.empty.merge y.labels = y.labels) : (y.wrap f).Encloses y t :=
  ⟨congrArg (fun t => [t]) h, rfl, hlabels, rfl⟩

end Yield

/-! ## Derivations -/

namespace Expr

variable {cx : RuleContext} {e inner : Expr} {f : List Ty → Ty} {s : Scope} {n : Nat} {y : Yield}

/-- The types of a value are normal, whatever labels are bound before the expression. -/
theorem valueTypes_normal (h : result cx.rule cx.classLimit e s n = .ok y) :
    ∀ t ∈ y.valueTypes, t.Normal := by
  obtain ⟨z, hz, -, hvalue⟩ := exists_result_of_result h .empty
  have hall : z.All Ty.Normal :=
    (all_preserved Ty.normal_inherited).of_result e .empty n z hz .empty
  rw [← hvalue]
  exact hall.valueTypes Ty.normal_inherited

/-- An operator fails as its part does and keeps the ledger that its part leaves. -/
theorem Wraps.runFrom_derive (he : Wraps e inner f) (ledger : Ledger) :
    (e.derive cx s).runFrom ledger =
      (((inner.derive cx s).runFrom ledger).1.map (Yield.wrap f),
        ((inner.derive cx s).runFrom ledger).2) := by
  cases he <;> exact Derivation.runFrom_map _ _ ledger

/-- A choice that succeeds has one group for each alternative, made of what the alternative yields
in the empty scope. The type that it stands for has the different groups as members, the labels of
the alternatives are merged in order, and the labels bound before the choice make no difference to
any of it. -/
theorem choice_groups (cx : RuleContext) (es : List Expr) (s : Scope) (ledger ledger' : Ledger)
    (y : Yield) (hrun : ((Expr.choice es).derive cx s).runFrom ledger = (.ok y, ledger')) :
    (∃ zs, Chain (Yields cx) unbound es .empty ledger.next zs ∧ zs.length = es.length ∧
      y.GroupsOf zs) ∧
    ∀ t, ((Expr.choice es).derive cx t).runFrom ledger = (.ok y, ledger') := by
  obtain ⟨hresult, -⟩ := (derive_computes cx (.choice es) s).of_runFrom hrun
  obtain ⟨zs, hzs, rfl⟩ := exists_of_result_choice hresult
  exact ⟨⟨zs, hzs, hzs.length_eq, Yield.groupsOf_choice zs⟩, fun _ => hrun⟩

/-- A choice of two sequences with the same entries, an option and a capture. -/
def repeatedAlternatives : List Expr :=
  [.sequence [.literal "a" false, .any], .optional (.literal "b" false),
    .sequence [.literal "a" false, .any], .labeled (some "l") (.ruleRef "S"), .any]

/-- The third alternative has the group of the first, and the option stays apart from the others. -/
theorem choice_groups_repeated : ∃ y ledger',
    ((Expr.choice repeatedAlternatives).derive ⟨"R", [], 256⟩
      (Scope.empty.bind "outer" [.text])).runFrom ⟨1, []⟩ = (.ok y, ledger') ∧
      (∃ zs : List Yield, zs.length = 5 ∧ y.GroupsOf zs) ∧
      y.unionType.arity = 4 ∧
      y.unionType.render = "((\"a\")|(string))|((\"b\")|null)|(unknown)|(string)" ∧
      ((Expr.choice repeatedAlternatives).derive ⟨"R", [], 256⟩ .empty).runFrom ⟨1, []⟩ =
        (.ok y, ledger') := by
  obtain ⟨⟨zs, -, hlength, hgroups⟩, hscope⟩ := choice_groups ⟨"R", [], 256⟩ repeatedAlternatives
    (Scope.empty.bind "outer" [.text]) ⟨1, []⟩ _ _ rfl
  exact ⟨_, _, rfl, ⟨zs, hlength, hgroups⟩, by decide +kernel, by decide +kernel, hscope .empty⟩

/-- The two repetitions and the option over an expression fail as the expression does, or succeed
and leave the same ledger as the expression does. Then each of them has a single type around what
the expression yields. One or more have a list of the type that the expression stands for; any
number have a list of that type or `never`, or of `unknown` when the expression has no value; and an
option is the value in parentheses or `null`, which is no list. -/
theorem repetitions_agree (cx : RuleContext) (e : Expr) (s : Scope) (ledger : Ledger) :
    (∃ err ledger', (e.derive cx s).runFrom ledger = (.error err, ledger') ∧
      ((Expr.zeroOrMore e).derive cx s).runFrom ledger = (.error err, ledger') ∧
      ((Expr.oneOrMore e).derive cx s).runFrom ledger = (.error err, ledger') ∧
      ((Expr.optional e).derive cx s).runFrom ledger = (.error err, ledger')) ∨
    ∃ y zero one opt ledger', (e.derive cx s).runFrom ledger = (.ok y, ledger') ∧
      ((Expr.zeroOrMore e).derive cx s).runFrom ledger = (.ok zero, ledger') ∧
      ((Expr.oneOrMore e).derive cx s).runFrom ledger = (.ok one, ledger') ∧
      ((Expr.optional e).derive cx s).runFrom ledger = (.ok opt, ledger') ∧
      (y.valueTypes = [] → y.unionType = .unknown) ∧
      zero.Encloses y (.array (if y.valueTypes = [] then .unknown
        else Ty.unionOf [y.unionType, .marker .never])) ∧
      one.Encloses y (.array y.unionType) ∧
      opt.Encloses y (.union [Ty.groupOf y.valueTypes, .marker .null]) ∧
      (∃ u, Ty.groupOf y.valueTypes = .group u) ∧ ∀ t, .array t ∉ opt.types := by
  rw [(Wraps.zeroOrMore e).runFrom_derive, (Wraps.oneOrMore e).runFrom_derive,
    (Wraps.optional e).runFrom_derive]
  have hout := (derive_computes cx e s ledger).1
  rcases hrun : (e.derive cx s).runFrom ledger with ⟨err | y, ledger'⟩
  · exact .inl ⟨err, ledger', rfl, rfl, rfl, rfl⟩
  · rw [hrun] at hout
    have hnormal := valueTypes_normal hout.symm
    -- The labels of the part are merged into none, which leaves them as they are.
    have hlabels := (labelsFrom_preserved.of_result e s ledger.next y hout.symm).2.merge_empty
    have hitem := Ty.itemOf_eq hnormal [.marker .never]
    have hpair := Ty.unionOf_groupOf_pair y.valueTypes (t := .marker .null) rfl rfl
    refine .inr ⟨y, _, _, _, ledger', rfl, rfl, rfl, rfl, ?_, ?_, ?_, ?_, ?_, ?_⟩
    · intro hnil
      rw [Yield.unionType, hnil, Ty.unionOf_eq]
      rfl
    · exact Yield.encloses_wrap (congrArg Ty.array hitem) hlabels
    · exact Yield.encloses_wrap (congrArg Ty.array (Ty.itemOf_nil _)) hlabels
    · exact Yield.encloses_wrap hpair hlabels
    · exact Ty.exists_groupOf_eq _
    · intro t ht
      rw [(Yield.encloses_wrap hpair hlabels).types] at ht
      exact Ty.noConfusion (List.mem_singleton.1 ht)

end Expr

end GrammarTypes
