import GrammarTypes.Scope
import Mathlib.Data.List.Nodup

/-!
# Merges of scopes

A scope is well formed when no label is bound twice and every label has a candidate; what is bound
or merged into a well-formed scope leaves it well formed. Merging a scope with labels bound to it is
merging the scope and then binding the labels (`merge_bind`), and so merges associate
(`merge_assoc`). Both hold with candidate lists that have repeats, and keep the order of labels and
of candidates.
-/

namespace GrammarTypes

namespace Scope

/-! ## Candidates -/

/-- Candidates are not empty. -/
theorem candidates_ne_nil (ts : List Ty) : candidates ts ≠ [] := by
  unfold candidates
  split
  · exact List.cons_ne_nil _ _
  · next h => exact fun hnil => h (List.isEmpty_iff.2 hnil)

/-- A list that is not empty stands for itself. -/
theorem candidates_of_ne_nil {ts : List Ty} (h : ts ≠ []) : candidates ts = ts :=
  if_neg fun hnil => h (List.isEmpty_iff.1 hnil)

/-- Adding no types. -/
theorem addUnseen_nil (old : List Ty) : addUnseen old [] = old := by
  simp [addUnseen]

/-- The types are added one by one. -/
theorem addUnseen_cons (old : List Ty) (t : Ty) (ts : List Ty) :
    addUnseen old (t :: ts) =
      if t ∈ old then addUnseen old ts else addUnseen (old ++ [t]) ts := by
  unfold addUnseen
  split
  · next h => simp [h]
  · next h =>
    have hfilter : (ts.filter fun u => !old.contains u).filter (fun u => !u == t) =
        ts.filter fun u => !(old ++ [t]).contains u := by
      rw [List.filter_filter]
      exact List.filter_congr fun u _ => by by_cases hut : u = t <;> simp [hut]
    rw [List.filter_cons_of_pos (by simp [h]), List.eraseDups_cons, hfilter, List.append_assoc,
      List.singleton_append]

/-- Adding the unseen types of a list loses nothing and adds nothing else. -/
theorem mem_addUnseen {t : Ty} {old new : List Ty} :
    t ∈ addUnseen old new ↔ t ∈ old ∨ t ∈ new := by
  by_cases ht : t ∈ old <;> simp [addUnseen, ht]

/-- Types are added to a list that is not empty. -/
theorem addUnseen_ne_nil {old : List Ty} (h : old ≠ []) (new : List Ty) :
    addUnseen old new ≠ [] := by
  simp [addUnseen, h]

/-- Two lists of types are added one after the other. -/
theorem addUnseen_append (old ts us : List Ty) :
    addUnseen old (ts ++ us) = addUnseen (addUnseen old ts) us := by
  induction ts generalizing old with
  | nil => rw [List.nil_append, addUnseen_nil]
  | cons t ts ih =>
    rw [List.cons_append, addUnseen_cons, addUnseen_cons]
    split <;> exact ih _

/-- The types that a list has seen need not be added again. -/
theorem addUnseen_addUnseen (old ts us : List Ty) :
    addUnseen old (addUnseen ts us) = addUnseen old (ts ++ us) := by
  induction us generalizing ts with
  | nil => rw [addUnseen_nil, List.append_nil]
  | cons u us ih =>
    rw [addUnseen_cons]
    split
    -- A type that the second list has seen is known to the first once the second is added.
    · next h =>
      have hseen : u ∈ addUnseen old ts := mem_addUnseen.2 (.inr h)
      rw [ih, addUnseen_append, addUnseen_append, addUnseen_cons, if_pos hseen]
    · rw [ih, List.append_assoc, List.singleton_append]

/-- Additions of candidates associate. -/
theorem addUnseen_assoc (ts us vs : List Ty) :
    addUnseen (addUnseen ts us) vs = addUnseen ts (addUnseen us vs) :=
  calc addUnseen (addUnseen ts us) vs
      = addUnseen ts (us ++ vs) := (addUnseen_append ts us vs).symm
    _ = addUnseen ts (addUnseen us vs) := (addUnseen_addUnseen ts us vs).symm

/-! ## Bindings -/

/-- Binding a label adds its name, if it is new, at the end. -/
theorem map_fst_bindIn (name : String) (ts : List Ty) (bs : List (String × List Ty)) :
    (bindIn name ts bs).map Prod.fst =
      if name ∈ bs.map Prod.fst then bs.map Prod.fst else bs.map Prod.fst ++ [name] := by
  induction bs with
  | nil => rfl
  | cons b bs ih =>
    obtain ⟨n, old⟩ := b
    rw [bindIn]
    split
    · next h => simp [h]
    · next h =>
      rw [List.map_cons, ih]
      simp only [List.map_cons, List.mem_cons, Ne.symm h, false_or]
      split <;> rfl

/-- The labels of a scope with a label bound. -/
theorem mem_names_bind {s : Scope} {name n : String} {ts : List Ty} :
    n ∈ (s.bind name ts).names ↔ n ∈ s.names ∨ n = name := by
  unfold bind names
  rw [map_fst_bindIn]
  split
  · next h => exact ⟨.inl, fun hn => hn.elim id fun heq => heq ▸ h⟩
  · rw [List.mem_append, List.mem_singleton]

/-- Binding a label twice is binding it to the candidates of both. -/
theorem bindIn_bindIn_self (name : String) (ts us : List Ty) (bs : List (String × List Ty)) :
    bindIn name us (bindIn name ts bs) = bindIn name (addUnseen ts us) bs := by
  induction bs with
  | nil => simp [bindIn]
  | cons b bs ih =>
    obtain ⟨n, old⟩ := b
    by_cases h : n = name
    · simp [bindIn, h, addUnseen_assoc]
    · simp [bindIn, h, ih]

/-- Two labels can be bound in either order when one of them is known. -/
theorem bindIn_comm {m n : String} (hne : m ≠ n) (ts us : List Ty)
    {bs : List (String × List Ty)} (hn : n ∈ bs.map Prod.fst) :
    bindIn n us (bindIn m ts bs) = bindIn m ts (bindIn n us bs) := by
  induction bs with
  | nil => exact nomatch hn
  -- The place of one label is left alone when the other is bound, and only a label that is not
  -- known goes to the end.
  | cons b bs ih =>
    obtain ⟨k, old⟩ := b
    by_cases hkm : k = m
    · simp [bindIn, hkm, hne]
    · by_cases hkn : k = n
      · simp [bindIn, hkn, Ne.symm hne]
      · have hrest : n ∈ bs.map Prod.fst :=
          (List.mem_cons.1 hn).resolve_left fun h => hkn h.symm
        simp [bindIn, hkm, hkn, ih hrest]

/-! ## Well-formed scopes -/

/-- The scopes that binding labels leads to. -/
structure WellFormed (s : Scope) : Prop where
  /-- No label is bound twice. -/
  names_nodup : s.names.Nodup
  /-- Every label has a candidate. -/
  ne_nil : ∀ b ∈ s.bindings, b.2 ≠ []

/-- The scope without labels is well formed. -/
theorem WellFormed.empty : empty.WellFormed := ⟨.nil, fun _ hb => nomatch hb⟩

/-- The candidates of a bound label are its old ones and the new ones, or the new ones only. -/
theorem ne_nil_of_mem_bindIn {name : String} {ts : List Ty} (hts : ts ≠ []) :
    ∀ {bs : List (String × List Ty)}, (∀ b ∈ bs, b.2 ≠ []) → ∀ b ∈ bindIn name ts bs, b.2 ≠ []
  | [], _ => by simpa [bindIn] using hts
  | (n, old) :: bs, h => by
    obtain ⟨hold, hbs⟩ := List.forall_mem_cons.1 h
    rw [bindIn]
    split
    · exact List.forall_mem_cons.2 ⟨addUnseen_ne_nil hold ts, hbs⟩
    · exact List.forall_mem_cons.2 ⟨hold, ne_nil_of_mem_bindIn hts hbs⟩

/-- A scope stays well formed when a label is bound. -/
theorem WellFormed.bind {s : Scope} (h : s.WellFormed) (name : String) (ts : List Ty) :
    (s.bind name ts).WellFormed where
  names_nodup := by
    have hnodup := h.names_nodup
    unfold Scope.bind names at *
    rw [map_fst_bindIn]
    split
    · exact hnodup
    · next hnew => exact List.concat_eq_append ▸ hnodup.concat hnew
  ne_nil := ne_nil_of_mem_bindIn (candidates_ne_nil ts) h.ne_nil

/-- A scope stays well formed when another is merged into it. -/
theorem WellFormed.merge {s : Scope} (h : s.WellFormed) (other : Scope) :
    (s.merge other).WellFormed := by
  unfold Scope.merge
  induction other.bindings generalizing s with
  | nil => exact h
  | cons b bs ih => exact ih (h.bind b.1 b.2)

/-! ## Merges associate -/

/-- The labels of a scope are merged one by one. -/
theorem merge_cons (s : Scope) (b : String × List Ty) (bs : List (String × List Ty)) :
    s.merge ⟨b :: bs⟩ = (s.bind b.1 b.2).merge ⟨bs⟩ := rfl

/-- A known label can be bound before a merge that does not bind it instead of after. -/
theorem merge_bind_comm {s other : Scope} {n : String} (hs : n ∈ s.names) (hother : n ∉ other.names)
    (ts : List Ty) : (s.merge other).bind n ts = (s.bind n ts).merge other := by
  obtain ⟨bs⟩ := other
  induction bs generalizing s with
  | nil => rfl
  | cons b bs ih =>
    obtain ⟨hb, hbs⟩ := not_or.1 (List.mem_cons.not.1 hother)
    have hcomm : (s.bind b.1 b.2).bind n ts = (s.bind n ts).bind b.1 b.2 :=
      congrArg Scope.mk (bindIn_comm (Ne.symm hb) _ _ hs)
    rw [merge_cons, merge_cons, ih (mem_names_bind.2 (.inl hs)) hbs, hcomm]

/-- Merging a scope with one more label bound is merging the scope and binding the label. -/
theorem merge_bind (s : Scope) {other : Scope} (h : other.WellFormed) (name : String)
    (ts : List Ty) : s.merge (other.bind name ts) = (s.merge other).bind name ts := by
  obtain ⟨bs⟩ := other
  induction bs generalizing s with
  | nil =>
    change s.bind name (candidates ts) = s.bind name ts
    rw [Scope.bind, candidates_of_ne_nil (candidates_ne_nil ts), Scope.bind]
  | cons b bs ih =>
    obtain ⟨n, old⟩ := b
    obtain ⟨hn, hnodup⟩ := List.nodup_cons.1 h.names_nodup
    obtain ⟨hold, hne⟩ := List.forall_mem_cons.1 h.ne_nil
    by_cases hname : n = name
    · subst hname
      -- The label keeps its place, and the labels after it are others.
      have hplace : (⟨(n, old) :: bs⟩ : Scope).bind n ts =
          ⟨(n, addUnseen old (candidates ts)) :: bs⟩ := by
        simp [Scope.bind, bindIn]
      have hbind : s.bind n (addUnseen old (candidates ts)) = (s.bind n old).bind n ts := by
        unfold Scope.bind
        rw [bindIn_bindIn_self, candidates_of_ne_nil hold,
          candidates_of_ne_nil (addUnseen_ne_nil hold _)]
      calc s.merge ((⟨(n, old) :: bs⟩ : Scope).bind n ts)
          = ((s.bind n old).bind n ts).merge ⟨bs⟩ := by rw [hplace, merge_cons, hbind]
        _ = ((s.bind n old).merge ⟨bs⟩).bind n ts :=
          (merge_bind_comm (mem_names_bind.2 (.inr rfl)) hn ts).symm
    · have hplace : (⟨(n, old) :: bs⟩ : Scope).bind name ts =
          ⟨(n, old) :: ((⟨bs⟩ : Scope).bind name ts).bindings⟩ := by
        simp [Scope.bind, bindIn, hname]
      rw [hplace]
      exact ih (s.bind n old) ⟨hnodup, hne⟩

/-- Merges associate when the scope in the middle is well formed. -/
theorem merge_assoc (s : Scope) {other : Scope} (h : other.WellFormed) (last : Scope) :
    (s.merge other).merge last = s.merge (other.merge last) := by
  obtain ⟨bs⟩ := last
  induction bs generalizing other with
  | nil => rfl
  | cons b bs ih =>
    calc (s.merge other).merge ⟨b :: bs⟩
        = ((s.merge other).bind b.1 b.2).merge ⟨bs⟩ := merge_cons _ b bs
      _ = (s.merge (other.bind b.1 b.2)).merge ⟨bs⟩ := by rw [merge_bind s h]
      _ = s.merge ((other.bind b.1 b.2).merge ⟨bs⟩) := ih (h.bind b.1 b.2)

end Scope

end GrammarTypes
