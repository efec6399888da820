import GrammarTypes.Proofs.Repeats
import GrammarTypes.Ty.Basic

/-!
# The normal form of types

A type is normal when, at every depth, a union has at least two members, all of them different and
none of them a union, and a group is not directly inside a group. `Ty.unionOf` flattens the unions
among its members by one level only, and this is enough when the members are normal: the members of
a normal union are no unions (`Normal.members`). So unions, groups and lists of normal types are
normal.
-/

namespace GrammarTypes

namespace Ty

/-! ## Properties at every depth -/

/-- The types that a type is directly made of. -/
def parts : Ty → List Ty
  | .union ts => ts
  | .group t | .array t => [t]
  | .text | .unknown | .literal _ | .marker _ | .ruleRef _ | .returnOf _ => []

/-- The property holds of the type and of all types in it, at any depth. -/
inductive Everywhere (P : Ty → Prop) : Ty → Prop
  | intro {t : Ty} (here : P t) (inside : ∀ u ∈ t.parts, Everywhere P u) : Everywhere P t

variable {P : Ty → Prop} {t : Ty} {ts : List Ty}

/-- A property holds everywhere when it holds of the type and everywhere in its parts. -/
theorem everywhere_iff : t.Everywhere P ↔ P t ∧ ∀ u ∈ t.parts, u.Everywhere P :=
  ⟨fun ⟨here, inside⟩ => ⟨here, inside⟩, fun h => ⟨h.1, h.2⟩⟩

/-- A property holds everywhere in a type without parts when it holds of the type. -/
theorem everywhere_of_atom (h : t.parts = []) : t.Everywhere P ↔ P t := by
  rw [everywhere_iff, h]
  simp

/-- A property holds everywhere in a type of one part when it holds of both. -/
theorem everywhere_of_part {u : Ty} (h : t.parts = [u]) :
    t.Everywhere P ↔ P t ∧ u.Everywhere P := by
  rw [everywhere_iff, h, List.forall_mem_singleton]

mutual

/-- A property that can be checked of a type can be checked at every depth. -/
def decideEverywhere (P : Ty → Prop) [DecidablePred P] : (t : Ty) → Decidable (t.Everywhere P)
  | .union ts =>
    have := decideEverywhereAll P ts
    decidable_of_iff (P (.union ts) ∧ ∀ u ∈ ts, u.Everywhere P) everywhere_iff.symm
  | .group t | .array t =>
    have := decideEverywhere P t
    decidable_of_iff _ (everywhere_of_part rfl).symm
  | .text | .unknown | .literal _ | .marker _ | .ruleRef _ | .returnOf _ =>
    decidable_of_iff _ (everywhere_of_atom rfl).symm

/-- A property that can be checked of a type can be checked at every depth of several types. -/
def decideEverywhereAll (P : Ty → Prop) [DecidablePred P] :
    (ts : List Ty) → Decidable (∀ t ∈ ts, t.Everywhere P)
  | [] => isTrue fun _ ht => nomatch ht
  | t :: ts =>
    have := decideEverywhere P t
    have := decideEverywhereAll P ts
    decidable_of_iff (t.Everywhere P ∧ ∀ u ∈ ts, u.Everywhere P) List.forall_mem_cons.symm

end

instance [DecidablePred P] : DecidablePred (Everywhere P) := decideEverywhere P

/-- Whether a type is a union. -/
def isUnion : Ty → Bool
  | .union _ => true
  | _ => false

/-- Whether a type is in parentheses. -/
def isGroup : Ty → Bool
  | .group _ => true
  | _ => false

/-- A type that is no union is its only member. -/
theorem members_of_not_union (h : t.isUnion = false) : t.members = [t] := by
  cases t with
  | union => exact nomatch h
  | _ => rfl

/-- A type with members that are no unions has these members. -/
theorem members_ofMembers : ∀ {ts : List Ty}, ts ≠ [] → (∀ t ∈ ts, t.isUnion = false) →
    (ofMembers ts).members = ts
  | [], hne, _ => absurd rfl hne
  | [t], _, h => members_of_not_union (h t (List.mem_singleton_self t))
  | _ :: _ :: _, _, _ => rfl

/-- A type that is no union of fewer than two members is made of its members. -/
theorem ofMembers_members (h : ∀ ts, t = .union ts → 2 ≤ ts.length) : ofMembers t.members = t := by
  cases t with
  | union ts =>
    match ts, h ts rfl with
    | _ :: _ :: _, _ => rfl
  | _ => rfl

/-! ## Normal types -/

/-- What a normal type is like at its top: a union has at least two members, all different and none
of them a union, and a group does not directly contain a group. -/
def NormalHere : Ty → Prop
  | .union ts => 2 ≤ ts.length ∧ ts.Nodup ∧ ∀ t ∈ ts, t.isUnion = false
  | .group t => t.isGroup = false
  | _ => True

/-- A type in normal form. -/
def Normal (t : Ty) : Prop := t.Everywhere NormalHere

instance : DecidablePred NormalHere
  | .union ts =>
    inferInstanceAs (Decidable (2 ≤ ts.length ∧ ts.Nodup ∧ ∀ t ∈ ts, t.isUnion = false))
  | .group t => inferInstanceAs (Decidable (t.isGroup = false))
  | .array _ | .text | .unknown | .literal _ | .marker _ | .ruleRef _ | .returnOf _ =>
    isTrue trivial

instance : DecidablePred Normal := fun t => inferInstanceAs (Decidable (t.Everywhere NormalHere))

/-- A list of normal items is normal. -/
theorem normal_array : (array t).Normal ↔ t.Normal := by
  simp [Normal, everywhere_of_part (t := .array t) rfl, NormalHere]

/-- A normal type in parentheses is normal when it has none of its own. -/
theorem normal_group : (group t).Normal ↔ t.isGroup = false ∧ t.Normal := by
  simp [Normal, everywhere_of_part (t := .group t) rfl, NormalHere]

/-- A union of normal members is normal when it has two or more, all different and no unions. -/
theorem normal_union : (union ts).Normal ↔
    (2 ≤ ts.length ∧ ts.Nodup ∧ ∀ t ∈ ts, t.isUnion = false) ∧ ∀ t ∈ ts, t.Normal := by
  simp [Normal, everywhere_iff (t := .union ts), NormalHere, parts]

example : ¬ (union [.text, .group (.union [.text, .union [.unknown, .text]])]).Normal := by decide

/-- A type without parts is normal. -/
theorem normal_of_atom (hparts : t.parts = []) (hunion : t.isUnion = false) : t.Normal := by
  refine (everywhere_of_atom hparts).2 ?_
  cases t with
  | union => exact nomatch hunion
  | group => exact nomatch hparts
  | _ => exact trivial

/-- The members of a normal type are normal and no unions. -/
theorem Normal.members (h : t.Normal) : ∀ u ∈ t.members, u.Normal ∧ u.isUnion = false := by
  cases t with
  | union ts =>
    obtain ⟨⟨-, -, hunion⟩, hts⟩ := normal_union.1 h
    exact fun u hu => ⟨hts u hu, hunion u hu⟩
  | _ =>
    intro u hu
    obtain rfl := List.mem_singleton.1 hu
    exact ⟨h, rfl⟩

/-- A type is normal when its members are different, normal and no unions. -/
theorem normal_ofMembers : ∀ {ts : List Ty}, ts.Nodup →
    (∀ t ∈ ts, t.Normal ∧ t.isUnion = false) → (ofMembers ts).Normal
  | [], _, _ => normal_of_atom rfl rfl
  | [t], _, h => (h t (List.mem_singleton_self t)).1
  | t :: u :: ts, hnodup, h => by
    have htwo : 2 ≤ (t :: u :: ts).length := by simp
    exact normal_union.2 ⟨⟨htwo, hnodup, fun v hv => (h v hv).2⟩, fun v hv => (h v hv).1⟩

/-- A union of normal types is normal. -/
theorem normal_unionOf (h : ∀ t ∈ ts, t.Normal) : (unionOf ts).Normal := by
  rw [unionOf_eq]
  refine normal_ofMembers (nodup_eraseDups _) fun u hu => ?_
  obtain ⟨t, ht, hut⟩ := List.mem_flatMap.1 (List.mem_eraseDups.1 hu)
  exact (h t ht).members u hut

/-- A normal type is put into parentheses that it does not have yet. -/
theorem normal_parenthesized (h : t.Normal) : t.parenthesized.Normal := by
  cases t with
  | group => exact h
  | _ => exact normal_group.2 ⟨rfl, h⟩

/-- A group of normal types is normal. -/
theorem normal_groupOf (h : ∀ t ∈ ts, t.Normal) : (groupOf ts).Normal :=
  normal_parenthesized (normal_unionOf h)

end Ty

end GrammarTypes
