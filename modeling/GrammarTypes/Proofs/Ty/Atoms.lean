import GrammarTypes.Proofs.Derivation.Induction
import GrammarTypes.Proofs.Scope.Merge
import Mathlib.Tactic.SplitIfs

/-!
# What types are made of

The atoms of a type are the types without parts that stand in it at any depth: in the members of a
union, inside parentheses or as the item of a list. Unions, groups and item types are made of what
they are given, and so are scopes. The only atoms added are markers and `unknown`, which refer to
nothing (`Ty.Reference`).
-/

namespace GrammarTypes

namespace Ty

mutual

/-- The types without parts that stand in a type, at any depth. -/
def atoms : Ty → List Ty
  | .union ts => atomsAll ts
  | .group t | .array t => atoms t
  | .text => [.text]
  | .unknown => [.unknown]
  | .literal value => [.literal value]
  | .marker mark => [.marker mark]
  | .ruleRef name => [.ruleRef name]
  | .returnOf helper => [.returnOf helper]

/-- The types without parts that stand in several types. -/
def atomsAll : List Ty → List Ty
  | [] => []
  | t :: ts => atoms t ++ atomsAll ts

end

/-- The types that refer to a rule or to a helper. -/
inductive Reference : Ty → Prop
  | ruleRef (name : String) : Reference (.ruleRef name)
  | returnOf (helper : String) : Reference (.returnOf helper)

/-- A reference says something of the value. -/
theorem Reference.ne_unknown {a : Ty} (ha : Reference a) : a ≠ .unknown := by
  rintro rfl
  exact nomatch ha

/-- Several types are made of what each of them is made of. -/
theorem mem_atomsAll {a : Ty} {ts : List Ty} : a ∈ atomsAll ts ↔ ∃ t ∈ ts, a ∈ t.atoms := by
  induction ts with
  | nil => simp [atomsAll]
  | cons t ts ih => simp [atomsAll, ih]

/-- A list of a single type is made of what that type is made of. -/
theorem atomsAll_singleton (t : Ty) : atomsAll [t] = t.atoms := by
  rw [atomsAll, atomsAll, List.append_nil]

/-- Two lists of types are made of what both are made of. -/
theorem atomsAll_append (ts us : List Ty) : atomsAll (ts ++ us) = atomsAll ts ++ atomsAll us := by
  induction ts with
  | nil => rfl
  | cons t ts ih => rw [List.cons_append, atomsAll, atomsAll, ih, List.append_assoc]

/-- A type is made of what its members are made of. -/
theorem atomsAll_members (t : Ty) : atomsAll t.members = t.atoms := by
  cases t with
  | union ts => rw [members, atoms]
  | _ => rw [members, atomsAll_singleton]; simp

/-- A type with given members is made of what they are made of, `unknown` apart. -/
theorem mem_atoms_ofMembers {a : Ty} (ha : a ≠ .unknown) (ts : List Ty) :
    a ∈ (ofMembers ts).atoms ↔ a ∈ atomsAll ts := by
  unfold ofMembers
  split
  · simpa [atoms, atomsAll] using ha
  · rw [atomsAll_singleton]
  · rw [atoms]

/-- A union is made of what its types are made of, `unknown` apart. -/
theorem mem_atoms_unionOf {a : Ty} (ha : a ≠ .unknown) (ts : List Ty) :
    a ∈ (unionOf ts).atoms ↔ a ∈ atomsAll ts := by
  -- The members of a type are made of what the type is made of, and repeats add nothing.
  rw [unionOf_eq, mem_atoms_ofMembers ha, mem_atomsAll, mem_atomsAll]
  constructor
  · rintro ⟨u, hu, hau⟩
    obtain ⟨t, ht, hut⟩ := List.mem_flatMap.1 (List.mem_eraseDups.1 hu)
    refine ⟨t, ht, ?_⟩
    rw [← atomsAll_members]
    exact mem_atomsAll.2 ⟨u, hut, hau⟩
  · rintro ⟨t, ht, hat⟩
    rw [← atomsAll_members] at hat
    obtain ⟨u, hut, hau⟩ := mem_atomsAll.1 hat
    exact ⟨u, List.mem_eraseDups.2 (List.mem_flatMap.2 ⟨t, ht, hut⟩), hau⟩

/-- Parentheses make no difference to what a type is made of. -/
theorem atoms_parenthesized (t : Ty) : t.parenthesized.atoms = t.atoms := by
  cases t <;> simp [parenthesized, atoms]

/-- A group is made of what its types are made of, `unknown` apart. -/
theorem mem_atoms_groupOf {a : Ty} (ha : a ≠ .unknown) (ts : List Ty) :
    a ∈ (groupOf ts).atoms ↔ a ∈ atomsAll ts := by
  rw [groupOf, atoms_parenthesized, mem_atoms_unionOf ha]

/-- An item type is made of what its candidates are made of and of its empty case, which does not
count when there are no candidates. -/
theorem mem_atoms_itemOf {a : Ty} (ha : a ≠ .unknown) (ts empty : List Ty) :
    a ∈ (itemOf ts empty).atoms ↔ a ∈ atomsAll ts ∨ ts ≠ [] ∧ a ∈ atomsAll empty := by
  unfold itemOf
  split
  · next h =>
    obtain rfl := List.isEmpty_iff.1 h
    simpa [atoms, atomsAll] using ha
  · next h =>
    have hne : ts ≠ [] := fun hnil => h (List.isEmpty_iff.2 hnil)
    rw [mem_atoms_unionOf ha, atomsAll_append, List.mem_append]
    simp [hne]

end Ty

/-- A character class refers to nothing. -/
theorem CharClass.notMem_atoms_type {limit : Nat} {parts : List ClassPart}
    {inverted ignoreCase : Bool} {t a : Ty} (ha : a.Reference)
    (ht : CharClass.type limit parts inverted ignoreCase = .ok t) : a ∉ t.atoms := by
  have htext : a ∉ Ty.text.atoms := by cases ha <;> simp [Ty.atoms]
  unfold CharClass.type at ht
  split_ifs at ht
  · cases ht
    exact htext
  · cases ht
    cases ha <;> simp [Ty.atoms]
  · obtain ⟨listed, -, rfl⟩ := Except.map_eq_ok_iff.1 ht
    cases listed with
    | none => exact htext
    | some texts =>
      rw [Ty.mem_atoms_unionOf ha.ne_unknown, Ty.mem_atomsAll]
      rintro ⟨u, hu, hau⟩
      obtain ⟨text, -, rfl⟩ := List.mem_map.1 hu
      cases ha <;> simp [Ty.atoms] at hau

/-- Groups, repetitions and options refer to what their parts refer to. -/
theorem Expr.Wraps.mem_atoms {e inner : Expr} {f : List Ty → Ty} {a : Ty} (he : Wraps e inner f)
    (ha : a.Reference) (ts : List Ty) : a ∈ (f ts).atoms ↔ a ∈ Ty.atomsAll ts := by
  have hmarker : ∀ mark, a ∉ (Ty.marker mark).atoms := by
    intro mark
    cases ha <;> simp [Ty.atoms]
  cases he with
  | group => exact Ty.mem_atoms_groupOf ha.ne_unknown ts
  | zeroOrMore =>
    rw [Ty.atoms, Ty.mem_atoms_itemOf ha.ne_unknown, Ty.atomsAll_singleton]
    simp [hmarker]
  | oneOrMore =>
    rw [Ty.atoms, Ty.mem_atoms_itemOf ha.ne_unknown]
    simp [Ty.atomsAll]
  | optional =>
    rw [Ty.mem_atoms_unionOf ha.ne_unknown, Ty.atomsAll, Ty.atomsAll_singleton, List.mem_append,
      Ty.mem_atoms_groupOf ha.ne_unknown]
    simp [hmarker]

namespace Scope

/-- What the candidates of all labels are made of. -/
def atoms (s : Scope) : List Ty :=
  s.bindings.flatMap fun b => Ty.atomsAll b.2

/-- Candidates are made of what the types are made of that they stand for, `unknown` apart. -/
theorem mem_atomsAll_candidates {a : Ty} (ha : a ≠ .unknown) (ts : List Ty) :
    a ∈ Ty.atomsAll (candidates ts) ↔ a ∈ Ty.atomsAll ts := by
  unfold candidates
  split
  · next h =>
    obtain rfl := List.isEmpty_iff.1 h
    simpa [Ty.atoms, Ty.atomsAll] using ha
  · rfl

/-- Adding the unseen candidates adds what they are made of. -/
theorem mem_atomsAll_addUnseen (a : Ty) (old new : List Ty) :
    a ∈ Ty.atomsAll (addUnseen old new) ↔ a ∈ Ty.atomsAll old ∨ a ∈ Ty.atomsAll new := by
  simp only [Ty.mem_atomsAll, mem_addUnseen, or_and_right, exists_or]

/-- Binding a label adds what its candidates are made of. -/
theorem mem_atoms_bindIn (a : Ty) (name : String) (ts : List Ty) (bs : List (String × List Ty)) :
    a ∈ (bindIn name ts bs).flatMap (fun b => Ty.atomsAll b.2) ↔
      a ∈ bs.flatMap (fun b => Ty.atomsAll b.2) ∨ a ∈ Ty.atomsAll ts := by
  induction bs with
  | nil => simp [bindIn]
  | cons b bs ih =>
    rw [bindIn]
    split
    · simp only [List.flatMap_cons, List.mem_append, mem_atomsAll_addUnseen, or_right_comm]
    · simp only [List.flatMap_cons, List.mem_append, ih, or_assoc]

/-- A scope with a label bound is made of what the scope and the candidates are made of, `unknown`
apart. -/
theorem mem_atoms_bind {a : Ty} (ha : a ≠ .unknown) (s : Scope) (name : String) (ts : List Ty) :
    a ∈ (s.bind name ts).atoms ↔ a ∈ s.atoms ∨ a ∈ Ty.atomsAll ts := by
  rw [atoms, bind, mem_atoms_bindIn, mem_atomsAll_candidates ha]
  rfl

/-- A merge is made of what both scopes are made of, `unknown` apart. -/
theorem mem_atoms_merge {a : Ty} (ha : a ≠ .unknown) (s other : Scope) :
    a ∈ (s.merge other).atoms ↔ a ∈ s.atoms ∨ a ∈ other.atoms := by
  obtain ⟨bs⟩ := other
  unfold merge
  induction bs generalizing s with
  | nil => simp [atoms]
  | cons b bs ih =>
    rw [List.foldl_cons, ih, mem_atoms_bind ha, or_assoc]
    simp only [atoms, List.flatMap_cons, List.mem_append]

/-- Labels that are taken over are made of what they were made of. -/
theorem mem_atoms_empty_merge {a : Ty} (ha : a ≠ .unknown) (s : Scope) :
    a ∈ (empty.merge s).atoms ↔ a ∈ s.atoms := by
  have hempty : a ∉ empty.atoms := List.not_mem_nil
  rw [mem_atoms_merge ha, or_iff_right hempty]

end Scope

end GrammarTypes
