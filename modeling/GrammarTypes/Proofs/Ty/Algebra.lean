import GrammarTypes.Proofs.Ty.Union

/-!
# The algebra of unions and groups

On normal types a union is a list of members without repeats, and the operations on types are those
on such lists. A normal type is the union of itself alone (`Ty.unionOf_singleton`), because its
members have no repeats to drop and are not too few for the type that they make. A union of normal
types can be built in any number of steps (`Ty.unionOf_nested`), and its members are the first
occurrences of the members of its types (`Ty.firstOccurrences_members`). These depend on the order
of the types for their order only (`Ty.members_unionOf_perm`).

A union of no types is `unknown`. Inside another union this is a member like any other, so that such
a union does not stand for its types there. Apart from it a union is `unknown` only when `unknown`
is all that its types have for members (`Ty.unionOf_eq_unknown_iff`).
-/

namespace GrammarTypes

namespace Ty

variable {t u : Ty} {ts us xs ys : List Ty}

/-! ## One type -/

/-- The members of a normal type are different. -/
theorem Normal.members_nodup (h : t.Normal) : t.members.Nodup := by
  cases t with
  | union ts =>
    obtain ⟨⟨-, hnodup, -⟩, -⟩ := normal_union.1 h
    exact hnodup
  | _ => exact List.nodup_singleton _

/-- A normal type is made of its members. -/
theorem Normal.ofMembers_members (h : t.Normal) : ofMembers t.members = t := by
  refine Ty.ofMembers_members ?_
  rintro ts rfl
  exact (normal_union.1 h).1.1

/-- A normal type is the union of itself alone. -/
theorem unionOf_singleton (h : t.Normal) : unionOf [t] = t := by
  rw [unionOf_eq, List.flatMap_singleton, eraseDups_of_nodup h.members_nodup, h.ofMembers_members]

/-! ## Members -/

/-- A union of normal types has the members of its types, each once and in the order in which they
come first. -/
theorem firstOccurrences_members (hne : ts ≠ []) (h : ∀ t ∈ ts, t.Normal) :
    FirstOccurrences (ts.flatMap members) (unionOf ts).members := by
  rw [members_unionOf_of_normal hne h]
  exact firstOccurrences_eraseDups _

/-- Nothing is known of a union when it has no types, or when nothing is known of its only
member. -/
theorem unionOf_eq_unknown_iff (h : ∀ t ∈ ts, t.Normal) :
    unionOf ts = .unknown ↔ ts = [] ∨ ∀ u, u ∈ ts.flatMap members ↔ u = .unknown := by
  constructor
  · intro hunknown
    refine or_iff_not_imp_left.2 fun hne u => ?_
    rw [← (firstOccurrences_members hne h).mem_iff, hunknown]
    exact List.mem_singleton
  · rintro (rfl | honly)
    · rw [unionOf_eq]
      rfl
    · have hfirst : FirstOccurrences (ts.flatMap members) [.unknown] :=
        ⟨fun u => by rw [List.mem_singleton, honly], List.pairwise_singleton _ _⟩
      rw [unionOf_eq, (firstOccurrences_eraseDups _).unique hfirst]
      rfl

example : unionOf [.text, unionOf []] = .union [.text, .unknown] := by decide +kernel

/-- The order of normal types makes a difference to the order of the members of their union only. -/
theorem members_unionOf_perm (hperm : ts.Perm us) (h : ∀ u ∈ us, u.Normal) :
    (unionOf ts).members.Perm (unionOf us).members := by
  by_cases hne : us = []
  · subst hne
    rw [hperm.eq_nil]
  · have hne' : ts ≠ [] := by
      rintro rfl
      exact hne hperm.nil_eq.symm
    have hts := firstOccurrences_members hne' fun t ht => h t (hperm.mem_iff.1 ht)
    have hus := firstOccurrences_members hne h
    refine (List.perm_ext_iff_of_nodup hts.nodup hus.nodup).2 fun u => ?_
    rw [hts.mem_iff, hus.mem_iff]
    exact (hperm.flatMap_right members).mem_iff

/-! ## Groups -/

/-- Parentheses are put around a type or are there already. -/
theorem eq_or_eq_group_of_parenthesized (h : t.parenthesized = .group u) : t = u ∨ t = .group u := by
  unfold parenthesized at h
  split at h
  · exact Or.inr h
  · exact Or.inl (Ty.group.inj h)

/-- A group of normal types has one pair of parentheses, around their union or around what this has
in parentheses. -/
theorem exists_groupOf_eq_of_normal (h : ∀ t ∈ ts, t.Normal) :
    ∃ u, groupOf ts = .group u ∧ u.isGroup = false ∧ (unionOf ts = u ∨ unionOf ts = .group u) := by
  obtain ⟨u, hu⟩ := exists_groupOf_eq ts
  have hnormal : (group u).Normal := hu ▸ normal_groupOf h
  exact ⟨u, hu, (normal_group.1 hnormal).1, eq_or_eq_group_of_parenthesized hu⟩

/-- A group of normal types is the group of itself alone. -/
theorem groupOf_groupOf (h : ∀ t ∈ ts, t.Normal) : groupOf [groupOf ts] = groupOf ts := by
  obtain ⟨u, hu⟩ := exists_groupOf_eq ts
  calc groupOf [groupOf ts]
      = (unionOf [groupOf ts]).parenthesized := rfl
    _ = (groupOf ts).parenthesized := by rw [unionOf_singleton (normal_groupOf h)]
    _ = groupOf ts := by rw [hu, parenthesized]

/-! ## The laws -/

/-- Unions of normal types can be built in steps, and building one again changes nothing. Their
members are those of their types, each once and in the order in which they come first, and no order
of the types gives others. Nothing is known of a union of no types and of `unknown` alone. Groups of
normal types are in one pair of parentheses, and grouping again adds none. -/
theorem union_group_laws (hxs : ∀ t ∈ xs, t.Normal) (hne : ys ≠ []) (hys : ∀ t ∈ ys, t.Normal)
    (zs : List Ty) :
    unionOf (xs ++ [unionOf ys] ++ zs) = unionOf (xs ++ ys ++ zs) ∧
    unionOf [unionOf xs] = unionOf xs ∧
    (xs ≠ [] → FirstOccurrences (xs.flatMap members) (unionOf xs).members) ∧
    (unionOf xs = .unknown ↔ xs = [] ∨ ∀ u, u ∈ xs.flatMap members ↔ u = .unknown) ∧
    (∀ ws, ws.Perm xs → (unionOf ws).members.Perm (unionOf xs).members) ∧
    groupOf [groupOf xs] = groupOf xs ∧
    ∃ u, groupOf xs = .group u ∧ u.isGroup = false ∧
      (unionOf xs = u ∨ unionOf xs = .group u) := by
  refine ⟨?_, unionOf_singleton (normal_unionOf hxs), fun hnil => firstOccurrences_members hnil hxs,
    unionOf_eq_unknown_iff hxs, fun ws hws => members_unionOf_perm hws hxs, groupOf_groupOf hxs,
    exists_groupOf_eq_of_normal hxs⟩
  rw [List.append_assoc, List.append_assoc, List.singleton_append]
  exact unionOf_nested hne hys

/-- A union, a group of it and one of its members. -/
def sharedMembers : List Ty :=
  [.union [.text, .literal "a"], .group (.union [.text, .literal "a"]), .literal "a"]

/-- A type that comes twice, around a union in which nothing is known of one member. -/
def repeatedMembers : List Ty := [.literal "b", .union [.unknown, .literal "a"], .literal "b"]

/-- A union in the middle of another is taken apart, and its members stand where each of them comes
first. In the other order of the types they stand in another order. -/
theorem union_group_laws_repeated :
    (∀ t ∈ sharedMembers, t.Normal) ∧ repeatedMembers ≠ [] ∧ (∀ t ∈ repeatedMembers, t.Normal) ∧
    unionOf repeatedMembers = .union [.literal "b", .unknown, .literal "a"] ∧
    unionOf (sharedMembers ++ [unionOf repeatedMembers] ++ [.text, .ruleRef "R"]) =
      .union [.text, .literal "a", .group (.union [.text, .literal "a"]), .literal "b", .unknown,
        .ruleRef "R"] ∧
    FirstOccurrences (sharedMembers.flatMap members) (unionOf sharedMembers).members ∧
    unionOf sharedMembers.reverse =
      .union [.literal "a", .group (.union [.text, .literal "a"]), .text] ∧
    (unionOf sharedMembers.reverse).members.Perm (unionOf sharedMembers).members ∧
    groupOf [groupOf sharedMembers] = groupOf sharedMembers := by
  have hxs : ∀ t ∈ sharedMembers, t.Normal := by decide +kernel
  have hne : repeatedMembers ≠ [] := List.cons_ne_nil _ _
  have hys : ∀ t ∈ repeatedMembers, t.Normal := by decide +kernel
  obtain ⟨hnested, -, hmembers, -, hperm, hgroup, -⟩ :=
    union_group_laws hxs hne hys [.text, .ruleRef "R"]
  refine ⟨hxs, hne, hys, by decide +kernel, ?_, hmembers (List.cons_ne_nil _ _), by decide +kernel,
    hperm _ (List.reverse_perm _), hgroup⟩
  rw [hnested]
  decide +kernel

end Ty

end GrammarTypes
