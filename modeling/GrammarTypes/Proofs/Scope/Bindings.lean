import GrammarTypes.Proofs.Repeats
import GrammarTypes.Proofs.Scope.Merge

/-!
# Scopes made of bindings

The labels of an expression come from bindings that are made one after another, some of them in
scopes of their own that are merged later. Merging a scope made of bindings is making the bindings
(`merge_ofBindings`), so that only their order counts. A scope made of bindings has their labels,
each once and in the order of its first binding (`names_ofBindings`), and a label has the candidates
of all its bindings (`mem_candidates_ofBindings`).
-/

namespace GrammarTypes

namespace Scope

variable {s : Scope} {bs : List (String × List Ty)} {name n : String} {ts : List Ty} {t : Ty}

/-- The scope that bindings made one after another lead to. -/
def ofBindings (bs : List (String × List Ty)) : Scope := empty.merge ⟨bs⟩

/-- Two lists of bindings are made one after the other. -/
theorem merge_append (s : Scope) (as bs : List (String × List Ty)) :
    s.merge ⟨as ++ bs⟩ = (s.merge ⟨as⟩).merge ⟨bs⟩ :=
  List.foldl_append

/-- Merging what bindings lead to is making the bindings. -/
theorem merge_ofBindings (s : Scope) (bs : List (String × List Ty)) :
    s.merge (ofBindings bs) = s.merge ⟨bs⟩ :=
  (merge_assoc s .empty ⟨bs⟩).symm

/-- Bindings lead to a well-formed scope. -/
theorem wellFormed_ofBindings (bs : List (String × List Ty)) : (ofBindings bs).WellFormed :=
  WellFormed.empty.merge ⟨bs⟩

/-! ## Labels -/

/-- A scope that has the labels of some bindings has those of further ones once they are made. -/
theorem names_merge {labels : List String} (h : s.names = labels.eraseDups)
    (bs : List (String × List Ty)) :
    (s.merge ⟨bs⟩).names = (labels ++ bs.map Prod.fst).eraseDups := by
  induction bs generalizing s labels with
  | nil => rw [List.map_nil, List.append_nil, ← h]; rfl
  | cons b bs ih =>
    have hmem : b.1 ∈ s.names ↔ b.1 ∈ labels := by rw [h, List.mem_eraseDups]
    have hbind : (s.bind b.1 b.2).names = (labels ++ [b.1]).eraseDups := by
      rw [eraseDups_concat, ← h]
      exact (map_fst_bindIn _ _ _).trans (if_congr hmem rfl rfl)
    rw [merge_cons, ih hbind, List.map_cons, List.append_assoc, List.singleton_append]

/-- Bindings lead to their labels, each once and in the order of its first binding. -/
theorem names_ofBindings (bs : List (String × List Ty)) :
    (ofBindings bs).names = (bs.map Prod.fst).eraseDups := by
  have hempty : empty.names = ([] : List String).eraseDups := rfl
  exact names_merge hempty bs

/-! ## Candidates -/

/-- The type is a candidate of the label. -/
def Offers (s : Scope) (name : String) (t : Ty) : Prop := ∃ b ∈ s.bindings, b.1 = name ∧ t ∈ b.2

/-- Binding a label offers its candidates, and nothing is lost. -/
theorem offers_bind :
    (s.bind name ts).Offers n t ↔ s.Offers n t ∨ name = n ∧ t ∈ candidates ts := by
  unfold Offers bind
  induction s.bindings with
  | nil => simp [bindIn]
  | cons b bs ih =>
    rw [bindIn]
    split
    · next h =>
      simp only [List.exists_mem_cons_iff, mem_addUnseen, h]
      rw [and_or_left, or_right_comm]
    · simp only [List.exists_mem_cons_iff, ih, or_assoc]

/-- Making bindings offers the candidates of each. -/
theorem offers_merge (bs : List (String × List Ty)) : (s.merge ⟨bs⟩).Offers n t ↔
    s.Offers n t ∨ ∃ b ∈ bs, b.1 = n ∧ t ∈ candidates b.2 := by
  induction bs generalizing s with
  | nil => simp [merge]
  | cons b bs ih => rw [merge_cons, ih, offers_bind, List.exists_mem_cons_iff, or_assoc]

/-- In a well-formed scope a label has one list of candidates. -/
theorem WellFormed.mem_iff_offers (h : s.WellFormed) (hb : (n, ts) ∈ s.bindings) :
    t ∈ ts ↔ s.Offers n t := by
  refine ⟨fun ht => ⟨(n, ts), hb, rfl, ht⟩, fun ⟨b, hb', hname, ht⟩ => ?_⟩
  have heq : b = (n, ts) := List.inj_on_of_nodup_map h.names_nodup hb' hb hname
  rwa [heq] at ht

/-- Bindings lead to labels that have the candidates of all their bindings. -/
theorem mem_candidates_ofBindings (hb : (n, ts) ∈ (ofBindings bs).bindings) :
    t ∈ ts ↔ ∃ b ∈ bs, b.1 = n ∧ t ∈ candidates b.2 := by
  have hempty : ¬ empty.Offers n t := fun ⟨_, hb, _⟩ => nomatch hb
  rw [(wellFormed_ofBindings bs).mem_iff_offers hb, ofBindings, offers_merge,
    or_iff_right hempty]

end Scope

end GrammarTypes
