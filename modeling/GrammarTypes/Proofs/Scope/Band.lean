import GrammarTypes.Proofs.Scope.Growth

/-!
# The algebra of merges

The scopes that programs lead to are a monoid under merging, with the empty scope as the neutral
element. It is a left regular band: a scope that is merged a second time, with whatever was merged
in between, adds nothing. That is so because a scope grows by merges, and a scope that has grown
from another absorbs it (`Scope.Extends.merge_eq_self`): each label is known, and so is each of its
candidates. Equality is that of the bindings with their order, and it holds for candidate lists with
repeats, which are kept as they are when a label is bound first.

The order of a merge counts for the order of labels and candidates only. A merge offers what either
of the two scopes offers (`Scope.WellFormed.offers_merge`), so that the two orders of a merge have
the same labels with the same sets of candidates.
-/

namespace GrammarTypes

namespace Scope

variable {a b s t : Scope} {name n : String} {ts us : List Ty}

/-! ## Reachable scopes -/

/-- The scope is one that a program leads to. -/
def Reachable (s : Scope) : Prop := ∃ ops place, run ops place = s

/-- The scopes that programs lead to are well formed. -/
theorem Reachable.wellFormed (h : s.Reachable) : s.WellFormed := by
  obtain ⟨ops, place, rfl⟩ := h
  exact wellFormed_run ops place

/-! ## The neutral element -/

/-- A new label is bound at the end. -/
theorem bindIn_of_notMem {bs : List (String × List Ty)} (h : name ∉ bs.map Prod.fst)
    (ts : List Ty) : bindIn name ts bs = bs ++ [(name, ts)] := by
  induction bs with
  | nil => rfl
  | cons b bs ih =>
    obtain ⟨hb, hbs⟩ := not_or.1 (List.mem_cons.not.1 h)
    rw [bindIn, if_neg (Ne.symm hb), ih hbs, List.cons_append]

/-- A well-formed scope without labels of another is put after it as it is. -/
theorem merge_of_disjoint (h : t.WellFormed) (hdisjoint : ∀ n ∈ t.names, n ∉ s.names) :
    s.merge t = ⟨s.bindings ++ t.bindings⟩ := by
  obtain ⟨bs⟩ := t
  induction bs generalizing s with
  | nil => rw [List.append_nil]; rfl
  | cons b bs ih =>
    obtain ⟨name, ts⟩ := b
    obtain ⟨hname, hnodup⟩ := List.nodup_cons.1 h.names_nodup
    obtain ⟨hts, hne⟩ := List.forall_mem_cons.1 h.ne_nil
    obtain ⟨hnew, hrest⟩ := List.forall_mem_cons.1 hdisjoint
    have hbind : s.bind name ts = ⟨s.bindings ++ [(name, ts)]⟩ := by
      rw [bind, candidates_of_ne_nil hts, bindIn_of_notMem hnew]
    -- The label is now one of the first scope, and it is none of the others of the second.
    have hapart : ∀ n ∈ (⟨bs⟩ : Scope).names, n ∉ (s.bind name ts).names := by
      intro n hn hmem
      rcases mem_names_bind.1 hmem with hold | rfl
      · exact hrest n hn hold
      · exact hname hn
    calc s.merge ⟨(name, ts) :: bs⟩
        = (s.bind name ts).merge ⟨bs⟩ := merge_cons s (name, ts) bs
      _ = ⟨(s.bind name ts).bindings ++ bs⟩ := ih ⟨hnodup, hne⟩ hapart
      _ = ⟨s.bindings ++ (name, ts) :: bs⟩ := by
        rw [hbind, List.append_assoc, List.singleton_append]

/-- The empty scope is neutral on the left. -/
theorem empty_merge (h : s.WellFormed) : empty.merge s = s :=
  merge_of_disjoint h fun _ _ => List.not_mem_nil

/-- The empty scope is neutral on the right. -/
theorem merge_empty (s : Scope) : s.merge empty = s := rfl

/-! ## Absorption -/

/-- Types that a list has are not added to it. -/
theorem addUnseen_of_subset (h : ∀ t ∈ us, t ∈ ts) : addUnseen ts us = ts := by
  have hnone : us.filter (fun t => !ts.contains t) = [] := by
    refine List.filter_eq_nil_iff.2 fun t ht => ?_
    simpa using h t ht
  rw [addUnseen, hnone, List.eraseDups_nil, List.append_nil]

/-- A label that is bound to candidates that it has stays as it is. -/
theorem bindIn_of_subset {bs : List (String × List Ty)} (h : bs.lookup n = some ts)
    (hus : ∀ t ∈ us, t ∈ ts) : bindIn n us bs = bs := by
  induction bs with
  | nil => exact nomatch h
  | cons b bs ih =>
    obtain ⟨m, old⟩ := b
    rw [bindIn]
    split
    · next hm =>
      rw [hm, List.lookup_cons_self] at h
      rw [Option.some.inj h, addUnseen_of_subset hus]
    · next hm =>
      have hne : (n == m) = false := by simpa using Ne.symm hm
      rw [List.lookup_cons, hne] at h
      rw [ih h]

/-- A scope absorbs each scope that it has grown from. -/
theorem Extends.merge_eq_self (h : s.Extends t) (hs : s.WellFormed) : t.merge s = t := by
  have hbind : ∀ b ∈ s.bindings, t.bind b.1 b.2 = t := by
    rintro ⟨n, ts⟩ hb
    obtain ⟨us, hus, hprefix⟩ := h.candidates n ts (hs.get?_of_mem hb)
    rw [bind, candidates_of_ne_nil (hs.ne_nil _ hb),
      bindIn_of_subset hus fun u hu => hprefix.subset hu]
  obtain ⟨bs⟩ := s
  -- The bindings that are left are not a scope that `t` has grown from, but each leaves `t` alone.
  clear h hs
  induction bs with
  | nil => rfl
  | cons b bs ih =>
    obtain ⟨hb, hbs⟩ := List.forall_mem_cons.1 hbind
    rw [merge_cons, hb]
    exact ih hbs

/-! ## The other order -/

/-- The labels of a merge are those of the two scopes. -/
theorem mem_names_merge : n ∈ (s.merge t).names ↔ n ∈ s.names ∨ n ∈ t.names := by
  obtain ⟨bs⟩ := t
  induction bs generalizing s with
  | nil => simp [merge, names]
  | cons b bs ih =>
    have hcons : n ∈ (⟨b :: bs⟩ : Scope).names ↔ n = b.1 ∨ n ∈ (⟨bs⟩ : Scope).names :=
      List.mem_cons
    rw [merge_cons, ih, mem_names_bind, hcons, or_assoc]

/-- A merge offers what the two scopes offer. -/
theorem WellFormed.offers_merge (h : t.WellFormed) {u : Ty} :
    (s.merge t).Offers n u ↔ s.Offers n u ∨ t.Offers n u := by
  have hcandidates : (∃ b ∈ t.bindings, b.1 = n ∧ u ∈ candidates b.2) ↔ t.Offers n u := by
    refine exists_congr fun b => and_congr_right fun hb => ?_
    rw [candidates_of_ne_nil (h.ne_nil b hb)]
  rw [← hcandidates]
  exact Scope.offers_merge t.bindings

/-- The two orders of a merge have the same labels. -/
theorem names_merge_perm (ha : a.WellFormed) (hb : b.WellFormed) :
    (a.merge b).names.Perm (b.merge a).names := by
  refine (List.perm_ext_iff_of_nodup (ha.merge b).names_nodup (hb.merge a).names_nodup).2 ?_
  intro n
  rw [mem_names_merge, mem_names_merge, or_comm]

/-- The two orders of a merge have the same candidates for a label. -/
theorem mem_candidates_merge_comm (ha : a.WellFormed) (hb : b.WellFormed)
    (hts : (a.merge b).get? n = some ts) (hus : (b.merge a).get? n = some us) (u : Ty) :
    u ∈ ts ↔ u ∈ us := by
  rw [(ha.merge b).mem_iff_offers (mem_of_get? hts), (hb.merge a).mem_iff_offers (mem_of_get? hus),
    hb.offers_merge, ha.offers_merge, or_comm]

/-! ## The left regular band -/

/-- Merges of scopes that programs lead to associate, have the empty scope as neutral element and
take in a scope that was merged before without a change. The two orders of a merge have the same
labels and, for each label, the same candidates. -/
theorem merge_leftRegularBand (ha : a.Reachable) (hb : b.Reachable) (c : Scope) :
    (a.merge b).merge c = a.merge (b.merge c) ∧
    empty.merge a = a ∧ a.merge empty = a ∧
    a.merge a = a ∧ (a.merge b).merge a = a.merge b ∧
    (a.merge b).names.Perm (b.merge a).names ∧
    ∀ n ts us, (a.merge b).get? n = some ts → (b.merge a).get? n = some us →
      ∀ u, u ∈ ts ↔ u ∈ us := by
  have ha' := ha.wellFormed
  have hb' := hb.wellFormed
  refine ⟨merge_assoc a hb' c, empty_merge ha', merge_empty a, ?_, ?_, names_merge_perm ha' hb', ?_⟩
  · exact (Extends.refl a).merge_eq_self ha'
  · exact (extends_merge a b).merge_eq_self ha'
  · exact fun n ts us hts hus => mem_candidates_merge_comm ha' hb' hts hus

/-- A program that binds a label to a list with repeats and one to no types at its second place, and
the same labels in the other order at its first. -/
def repeatedCandidates : List Op :=
  [.bind 0 "y" [.ruleRef "A", .text], .bind 0 "x" [.literal "q"],
    .bind 1 "x" [.text, .text, .literal "q"], .bind 1 "y" [], .merge 1 1]

/-- The repeats stay where they are, the order of the merge decides the order of labels and
candidates, and merging once more changes nothing. -/
theorem merge_leftRegularBand_repeated : ∃ a b : Scope, a.Reachable ∧ b.Reachable ∧
    (a.merge b).bindings =
      [("x", [.text, .text, .literal "q"]), ("y", [.unknown, .ruleRef "A", .text])] ∧
    (b.merge a).bindings =
      [("y", [.ruleRef "A", .text, .unknown]), ("x", [.literal "q", .text])] ∧
    a.merge a = a ∧ (a.merge b).merge a = a.merge b ∧
    (a.merge b).names.Perm (b.merge a).names := by
  have ha : (run repeatedCandidates 1).Reachable := ⟨repeatedCandidates, 1, rfl⟩
  have hb : (run repeatedCandidates 0).Reachable := ⟨repeatedCandidates, 0, rfl⟩
  obtain ⟨-, -, -, hself, habsorbed, hnames, -⟩ := merge_leftRegularBand ha hb .empty
  exact ⟨_, _, ha, hb, by decide +kernel, by decide +kernel, hself, habsorbed, hnames⟩

end Scope

end GrammarTypes
