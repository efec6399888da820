import GrammarTypes.Proofs.Ty.Normal
import GrammarTypes.Ty.Render

/-!
# The members of a union

A union has the members of its types, each once and in the order of their first occurrence, as long
as none of these is a union itself (`Ty.members_unionOf`). This is so for types that are no unions,
which are their own members, and for normal types, whose members are no unions. So a union of normal
types among the types of a union counts for the types that it is made of (`Ty.unionOf_nested`): to
build a union in steps is to build it at once.

The text of a type is that of its members between bars (`Ty.render_eq_intercalate`).
-/

namespace GrammarTypes

namespace Ty

variable {t : Ty} {ts xs ys zs : List Ty}

/-! ## Members -/

/-- A union has the members of its types, each once, when there are some and none of them is a
union. -/
theorem members_unionOf (hne : ts.flatMap members ≠ [])
    (h : ∀ u ∈ ts.flatMap members, u.isUnion = false) :
    (unionOf ts).members = (ts.flatMap members).eraseDups := by
  rw [unionOf_eq]
  refine members_ofMembers ?_ fun u hu => h u (List.mem_eraseDups.1 hu)
  obtain ⟨u, hu⟩ := List.exists_mem_of_ne_nil _ hne
  exact List.ne_nil_of_mem (List.mem_eraseDups.2 hu)

/-- Types that are no unions are their own members. -/
theorem flatMap_members_of_not_union (h : ∀ t ∈ ts, t.isUnion = false) :
    ts.flatMap members = ts := by
  induction ts with
  | nil => rfl
  | cons t ts ih =>
    obtain ⟨ht, hts⟩ := List.forall_mem_cons.1 h
    rw [List.flatMap_cons, members_of_not_union ht, ih hts, List.singleton_append]

/-- A union of types that are no unions has these as members, each once. -/
theorem members_unionOf_of_not_union (hne : ts ≠ []) (h : ∀ t ∈ ts, t.isUnion = false) :
    (unionOf ts).members = ts.eraseDups := by
  have hmembers := flatMap_members_of_not_union h
  rw [members_unionOf (by rwa [hmembers]) (by rwa [hmembers]), hmembers]

/-- A normal type has a member. -/
theorem Normal.members_ne_nil (h : t.Normal) : t.members ≠ [] := by
  cases t with
  | union ts =>
    obtain ⟨⟨htwo, -⟩, -⟩ := normal_union.1 h
    exact List.ne_nil_of_length_pos (Nat.lt_of_lt_of_le Nat.two_pos htwo)
  | _ => exact List.cons_ne_nil _ _

/-- A union of normal types has their members, each once. -/
theorem members_unionOf_of_normal (hne : ts ≠ []) (h : ∀ t ∈ ts, t.Normal) :
    (unionOf ts).members = (ts.flatMap members).eraseDups := by
  refine members_unionOf ?_ fun u hu => ?_
  · obtain ⟨t, ht⟩ := List.exists_mem_of_ne_nil ts hne
    obtain ⟨u, hu⟩ := List.exists_mem_of_ne_nil _ (h t ht).members_ne_nil
    exact List.ne_nil_of_mem (List.mem_flatMap_of_mem ht hu)
  · obtain ⟨t, ht, hut⟩ := List.mem_flatMap.1 hu
    exact ((h t ht).members u hut).2

/-- A union of normal types among the types of a union counts for its types. -/
theorem unionOf_nested (hne : ys ≠ []) (h : ∀ t ∈ ys, t.Normal) :
    unionOf (xs ++ unionOf ys :: zs) = unionOf (xs ++ (ys ++ zs)) := by
  simp only [unionOf_eq (xs ++ _), List.flatMap_append, List.flatMap_cons,
    members_unionOf_of_normal hne h, eraseDups_append_eraseDups]

/-! ## Groups -/

/-- A group is a type in parentheses. -/
theorem exists_groupOf_eq (ts : List Ty) : ∃ u, groupOf ts = .group u := by
  unfold groupOf parenthesized
  split
  · exact ⟨_, rfl⟩
  · exact ⟨_, rfl⟩

/-! ## Texts -/

/-- The text of a type is that of its members between bars. -/
theorem render_eq_intercalate (t : Ty) : t.render = "|".intercalate (t.members.map render) := by
  cases t with
  | union ts =>
    have htext : (union ts).render = "|".intercalate (renderAll ts) := rfl
    rw [htext, renderAll_eq_map, members]
  | _ => rw [members_of_not_union rfl, List.map_singleton, String.intercalate_singleton]

end Ty

end GrammarTypes
