import GrammarTypes.Proofs.Helper.References
import GrammarTypes.Proofs.Ty.Union

/-!
# The entries of a sequence

Each element of a sequence that has a value has an entry among its types, but for the last element
with an action, which decides the value of the sequence. `Yield.entriesInOrder` lists these entries
in the order of the elements. A sequence does not keep that order. Whether an element with an action
has an entry is known only when the next one with an action comes, and the entry is made then, after
those of the elements between the two (`Yield.entriesAfter`). No entry is lost and none is made
twice (`Yield.entriesAfter_perm`), but they stand in the order of the elements exactly when nothing
that has an entry comes between two elements with actions (`Yield.entriesAfter_none_eq_iff`).

For the last part the entry of an action must differ from those after it: it refers to the helper of
the action, and an element refers to helpers of its own only.
-/

namespace GrammarTypes

namespace Yield

/-- The entry of an element on its own: its value in one group, unless it has none. -/
def ownEntry (y : Yield) : List Ty :=
  if y.valueTypes.isEmpty then [] else [Ty.groupOf y.valueTypes]

/-- The entries of elements in their order. The last element with an action has none. -/
def entriesInOrder : List Yield → List Ty
  | [] => []
  | y :: ys =>
    (if y.action.isSome && ys.all (·.action.isNone) then [] else y.ownEntry) ++ entriesInOrder ys

/-- The entries of elements in the order in which a sequence has them, when `last` was the last
element with an action before them. An element with an action has the entry of the one before it in
its place. -/
def entriesAfter (last : Option Yield) : List Yield → List Ty
  | [] => []
  | y :: ys =>
    if y.action.isSome then last.toList.flatMap ownEntry ++ entriesAfter (some y) ys
    else y.ownEntry ++ entriesAfter last ys

/-- Elements of which one without an action, but with an entry, stands between two with actions. -/
def Interrupted (ys : List Yield) : Prop :=
  ∃ a b c : Yield, [a, b, c].Sublist ys ∧ a.action.isSome ∧ (b.action = none ∧ b.types ≠ []) ∧
    c.action.isSome

variable {y z : Yield} {ys : List Yield} {last : Option Yield}

/-! ## The entries that a sequence has -/

/-- An element with an action is entered as what its helper returns. -/
theorem ownEntry_of_action {a : Action} (h : y.action = some a) :
    y.ownEntry = [Ty.groupOf [.returnOf a.helper]] := by
  rw [ownEntry, valueTypes_of_action h]
  rfl

/-- An element without an action is entered as its types, if it has any. -/
theorem ownEntry_of_no_action (h : y.action = none) :
    y.ownEntry = if y.types.isEmpty then [] else [Ty.groupOf y.types] := by
  rw [ownEntry, valueTypes_of_no_action h]

/-- An element without an action adds its own entry. -/
theorem entry_of_no_action (h : y.action = none) (decided : Option Action) :
    entry decided y = y.ownEntry := by
  rw [ownEntry_of_no_action h]
  unfold entry
  rw [h]

/-- An element with an action adds the entry of the last element with an action before it. -/
theorem entry_of_action (h : y.action.isSome) (hlast : ∀ l ∈ last, l.action.isSome) :
    entry (last.bind action) y = last.toList.flatMap ownEntry := by
  obtain ⟨a, ha⟩ := Option.isSome_iff_exists.1 h
  unfold entry
  cases last with
  | none => rw [Option.bind_none, ha, Option.toList_none, List.flatMap_nil]
  | some l =>
    obtain ⟨b, hb⟩ := Option.isSome_iff_exists.1 (hlast l rfl)
    rw [Option.bind_some, hb, ha, Option.toList_some, List.flatMap_singleton,
      ownEntry_of_action hb]

/-- The entry of an element without an action stands in its place. -/
theorem entriesAfter_cons_of_no_action (h : y.action = none) :
    entriesAfter last (y :: ys) = y.ownEntry ++ entriesAfter last ys := by
  rw [entriesAfter, h]
  rfl

/-- In the place of an element with an action stands the entry of the one before it. -/
theorem entriesAfter_cons_of_action (h : y.action.isSome) :
    entriesAfter last (y :: ys) =
      last.toList.flatMap ownEntry ++ entriesAfter (some y) ys := by
  rw [entriesAfter, if_pos h]

/-- The elements add their entries to those of the sequence so far, of which `last` is the element
that decides the value. -/
theorem types_foldl_append (acc : Yield) (hacc : acc.action = last.bind action)
    (hlast : ∀ l ∈ last, l.action.isSome) :
    (ys.foldl append acc).types = acc.types ++ entriesAfter last ys := by
  induction ys generalizing acc last with
  | nil => exact (List.append_nil _).symm
  | cons y ys ih =>
    rw [List.foldl_cons]
    cases hy : y.action with
    -- The element that decides the value stays the same, and the new one has its entry at once.
    | none =>
      have hnext : (acc.append y).action = last.bind action := by
        rw [action_append, hy, Option.none_or, hacc]
      rw [ih (acc.append y) hnext hlast, types_append, entry_of_no_action hy,
        entriesAfter_cons_of_no_action hy, List.append_assoc]
    -- The new element decides the value, and the one that did so until now gets its entry.
    | some a =>
      have hsome : y.action.isSome := by rw [hy]; rfl
      have hnext : (acc.append y).action = (some y).bind action := by
        rw [action_append, Option.bind_some, hy, Option.some_or]
      have hentry : entry acc.action y = last.toList.flatMap ownEntry := by
        rw [hacc, entry_of_action hsome hlast]
      rw [ih (acc.append y) hnext (by simpa using hsome), types_append, hentry,
        entriesAfter_cons_of_action hsome, List.append_assoc]

/-- The types of a sequence are the entries of its elements. -/
theorem types_sequence (ys : List Yield) : (sequence ys).types = entriesAfter none ys :=
  types_foldl_append {} rfl fun _ hl => nomatch hl

/-! ## No entry is lost -/

/-- The entry of the last element with an action, if others with actions follow. -/
def heldBack (last : Option Yield) (ys : List Yield) : List Ty :=
  if ys.any (·.action.isSome) then last.toList.flatMap ownEntry else []

/-- An element without an action does not change what is held back. -/
theorem heldBack_cons_of_no_action (h : y.action = none) :
    heldBack last (y :: ys) = heldBack last ys := by
  rw [heldBack, heldBack, List.any_cons, h]
  rfl

/-- Before an element with an action the entry of the one before it is held back. -/
theorem heldBack_cons_of_action (h : y.action.isSome) :
    heldBack last (y :: ys) = last.toList.flatMap ownEntry := by
  rw [heldBack, List.any_cons, h]
  rfl

/-- In their order, the entry of an element without an action comes first. -/
theorem entriesInOrder_cons_of_no_action (h : y.action = none) :
    entriesInOrder (y :: ys) = y.ownEntry ++ entriesInOrder ys := by
  rw [entriesInOrder, h]
  rfl

/-- In their order, the entry of an element with an action comes first if it is not the last. -/
theorem entriesInOrder_cons_of_action (h : y.action.isSome) :
    entriesInOrder (y :: ys) = heldBack (some y) ys ++ entriesInOrder ys := by
  have hall : ys.all (·.action.isNone) = !ys.any (·.action.isSome) := by
    rw [List.not_any_eq_all_not]
    simp
  rw [entriesInOrder, heldBack, h, hall, Option.toList_some, List.flatMap_singleton]
  cases ys.any (·.action.isSome) <;> rfl

/-- A sequence has the entries of its elements, in some order. -/
theorem entriesAfter_perm : (entriesAfter last ys).Perm (heldBack last ys ++ entriesInOrder ys) := by
  induction ys generalizing last with
  | nil => exact .nil
  | cons y ys ih =>
    cases hy : y.action with
    -- An entry that is held back moves over that of the element.
    | none =>
      rw [entriesAfter_cons_of_no_action hy, heldBack_cons_of_no_action hy,
        entriesInOrder_cons_of_no_action hy]
      exact (List.Perm.append_left _ ih).trans (List.perm_append_comm_assoc _ _ _)
    | some a =>
      have hsome : y.action.isSome := by rw [hy]; rfl
      rw [entriesAfter_cons_of_action hsome, heldBack_cons_of_action hsome,
        entriesInOrder_cons_of_action hsome]
      exact List.Perm.append_left _ ih

/-- A sequence has the entries that its elements have in their order, in some order. -/
theorem entriesAfter_none_perm : (entriesAfter none ys).Perm (entriesInOrder ys) := by
  have hheld : heldBack none ys = [] := by
    rw [heldBack]
    split <;> rfl
  have hperm : (entriesAfter none ys).Perm (heldBack none ys ++ entriesInOrder ys) :=
    entriesAfter_perm
  rwa [hheld, List.nil_append] at hperm

/-- Every entry is a group. -/
theorem exists_group_of_mem_ownEntry {t : Ty} (h : t ∈ y.ownEntry) : ∃ u, t = .group u := by
  rw [ownEntry] at h
  split at h
  · exact absurd h List.not_mem_nil
  · obtain rfl := List.mem_singleton.1 h
    unfold Ty.groupOf Ty.parenthesized
    split
    · exact ⟨_, rfl⟩
    · exact ⟨_, rfl⟩

/-- Every entry of a sequence is a group. -/
theorem exists_group_of_mem_entriesAfter {t : Ty} (h : t ∈ entriesAfter last ys) :
    ∃ u, t = .group u := by
  induction ys generalizing last with
  | nil => exact absurd h List.not_mem_nil
  | cons y ys ih =>
    rw [entriesAfter] at h
    split at h
    · rcases List.mem_append.1 h with hheld | hrest
      · obtain ⟨l, -, hl⟩ := List.mem_flatMap.1 hheld
        exact exists_group_of_mem_ownEntry hl
      · exact ih hrest
    · rcases List.mem_append.1 h with hown | hrest
      · exact exists_group_of_mem_ownEntry hown
      · exact ih hrest

/-- Elements without actions that have values have an entry each, in their order. -/
theorem entriesAfter_of_no_action (h : ∀ z ∈ ys, z.action = none ∧ z.valueTypes ≠ []) :
    entriesAfter last ys = ys.map fun z => Ty.groupOf z.valueTypes := by
  induction ys with
  | nil => rfl
  | cons y ys ih =>
    obtain ⟨⟨haction, hvalue⟩, hrest⟩ := List.forall_mem_cons.1 h
    have hown : y.ownEntry = [Ty.groupOf y.valueTypes] := by
      rw [ownEntry, if_neg (by simpa using hvalue)]
    rw [entriesAfter_cons_of_no_action haction, ih hrest, List.map_cons, hown,
      List.singleton_append]

/-! ## When the entries stand in order -/

/-- Elements of which one without an action, but with an entry, stands before one with an action. -/
def Breaks (ys : List Yield) : Prop :=
  ∃ b c : Yield, [b, c].Sublist ys ∧ (b.action = none ∧ b.types ≠ []) ∧ c.action.isSome

/-- An element that has an action or no entry makes no break with those after it. -/
theorem breaks_cons_of_not (h : ¬ (y.action = none ∧ y.types ≠ [])) :
    Breaks (y :: ys) ↔ Breaks ys := by
  constructor
  · rintro ⟨b, c, hsub, hb, hc⟩
    rcases List.sublist_cons_iff.1 hsub with hsub | ⟨r, hr, -⟩
    · exact ⟨b, c, hsub, hb, hc⟩
    · obtain ⟨rfl, -⟩ := List.cons.inj hr
      exact absurd hb h
  · rintro ⟨b, c, hsub, hbc⟩
    exact ⟨b, c, hsub.cons y, hbc⟩

/-- An element without an action, but with an entry, makes a break if one with an action follows. -/
theorem breaks_cons (h : y.action = none ∧ y.types ≠ []) :
    Breaks (y :: ys) ↔ ys.any (·.action.isSome) := by
  rw [List.any_eq_true]
  constructor
  · rintro ⟨b, c, hsub, -, hc⟩
    exact ⟨c, hsub.tail.subset (List.mem_singleton_self c), hc⟩
  · rintro ⟨c, hmem, hc⟩
    exact ⟨y, c, (List.singleton_sublist.2 hmem).cons_cons y, h, hc⟩

/-- Where there is a break, there is an element with an action. -/
theorem Breaks.any (h : Breaks ys) : ys.any (·.action.isSome) := by
  obtain ⟨b, c, hsub, -, hc⟩ := h
  exact List.any_eq_true.2 ⟨c, hsub.subset (by simp), hc⟩

/-- An element without an action does not make an interruption. -/
theorem interrupted_cons_of_no_action (h : y.action = none) :
    Interrupted (y :: ys) ↔ Interrupted ys := by
  constructor
  · rintro ⟨a, b, c, hsub, ha, hbc⟩
    rcases List.sublist_cons_iff.1 hsub with hsub | ⟨r, hr, -⟩
    · exact ⟨a, b, c, hsub, ha, hbc⟩
    · obtain ⟨rfl, -⟩ := List.cons.inj hr
      rw [h] at ha
      cases ha
  · rintro ⟨a, b, c, hsub, habc⟩
    exact ⟨a, b, c, hsub.cons y, habc⟩

/-- After an element with an action every break is an interruption. -/
theorem interrupted_cons_of_action (h : y.action.isSome) : Interrupted (y :: ys) ↔ Breaks ys := by
  constructor
  · rintro ⟨a, b, c, hsub, -, hbc⟩
    exact ⟨b, c, hsub.tail, hbc⟩
  · rintro ⟨b, c, hsub, hbc⟩
    exact ⟨y, b, c, hsub.cons_cons y, h, hbc⟩

/-- The entry of the first element, if it has an action, is not that of the second, if it has
none. -/
def EntersApart (y z : Yield) : Prop :=
  y.action.isSome → z.action = none → z.types ≠ [] → y.ownEntry ≠ z.ownEntry

/-- Entries that begin with those of two such elements are not the same. -/
theorem EntersApart.append_ne (h : EntersApart y z) (hy : y.action.isSome) (hz : z.action = none)
    (htypes : z.types ≠ []) (rest rest' : List Ty) : z.ownEntry ++ rest ≠ y.ownEntry ++ rest' := by
  intro heq
  obtain ⟨a, ha⟩ := Option.isSome_iff_exists.1 hy
  have hlength : z.ownEntry.length = y.ownEntry.length := by
    rw [ownEntry_of_action ha, ownEntry_of_no_action hz, if_neg (by simpa using htypes)]
    rfl
  exact h hy hz htypes (List.append_inj_left heq hlength).symm

/-- After an element with an action the entries stand in order if there is no break. -/
theorem entriesAfter_some_eq_iff (hy : y.action.isSome) (hapart : (y :: ys).Pairwise EntersApart) :
    entriesAfter (some y) ys = heldBack (some y) ys ++ entriesInOrder ys ↔ ¬ Breaks ys := by
  induction ys generalizing y with
  | nil =>
    refine iff_of_true rfl ?_
    rintro ⟨b, c, hsub, -⟩
    exact nomatch hsub
  | cons z zs ih =>
    obtain ⟨hyz, hrest⟩ := List.pairwise_cons.1 hapart
    cases hz : z.action with
    -- What is held back gets its place, and from here on the element is held back.
    | some a =>
      have hsome : z.action.isSome := by rw [hz]; rfl
      have hnot : ¬ (z.action = none ∧ z.types ≠ []) := by simp [hz]
      rw [entriesAfter_cons_of_action hsome, heldBack_cons_of_action hsome,
        entriesInOrder_cons_of_action hsome, List.append_cancel_left_eq, breaks_cons_of_not hnot]
      exact ih hsome hrest
    | none =>
      have hskip : (y :: zs).Pairwise EntersApart :=
        hapart.sublist ((List.sublist_cons_self z zs).cons_cons y)
      rw [entriesAfter_cons_of_no_action hz, heldBack_cons_of_no_action hz,
        entriesInOrder_cons_of_no_action hz]
      by_cases htypes : z.types = []
      · have hown : z.ownEntry = [] := by rw [ownEntry_of_no_action hz, htypes]; rfl
        have hnot : ¬ (z.action = none ∧ z.types ≠ []) := fun h => h.2 htypes
        rw [hown, breaks_cons_of_not hnot]
        exact ih hy hskip
      · rw [breaks_cons ⟨hz, htypes⟩]
        cases hany : zs.any (·.action.isSome) with
        -- Nothing is held back, so that the entry of the element is in its place.
        | false =>
          have hnot : ¬ Breaks zs := fun h => absurd h.any (by simp [hany])
          have hheld : heldBack (some y) zs = [] := by rw [heldBack, hany]; rfl
          have hsame := (ih hy hskip).2 hnot
          rw [hheld, List.nil_append] at hsame ⊢
          exact iff_of_true (congrArg (z.ownEntry ++ ·) hsame) (by simp)
        -- The entry of the element stands where the one that is held back would have to.
        | true =>
          have hheld : heldBack (some y) zs = y.ownEntry := by
            rw [heldBack, hany, if_pos rfl, Option.toList_some, List.flatMap_singleton]
          rw [hheld]
          have hne := (hyz z List.mem_cons_self).append_ne hy hz htypes
          exact iff_of_false (hne _ _) (by simp)

/-- The entries of a sequence stand in the order of its elements exactly when it is not
interrupted. -/
theorem entriesAfter_none_eq_iff (hapart : ys.Pairwise EntersApart) :
    entriesAfter none ys = entriesInOrder ys ↔ ¬ Interrupted ys := by
  induction ys with
  | nil =>
    refine iff_of_true rfl ?_
    rintro ⟨a, b, c, hsub, -⟩
    exact nomatch hsub
  | cons y ys ih =>
    cases hy : y.action with
    | none =>
      rw [entriesAfter_cons_of_no_action hy, entriesInOrder_cons_of_no_action hy,
        List.append_cancel_left_eq, interrupted_cons_of_no_action hy]
      exact ih hapart.of_cons
    -- Up to the first element with an action nothing is held back.
    | some a =>
      have hsome : y.action.isSome := by rw [hy]; rfl
      rw [entriesAfter_cons_of_action hsome, Option.toList_none, List.flatMap_nil,
        List.nil_append, entriesInOrder_cons_of_action hsome, interrupted_cons_of_action hsome]
      exact entriesAfter_some_eq_iff hsome hapart

/-! ## Entries of actions are apart -/

open Helper (HasAction)

/-- Elements that refer to helpers of their own only, under different names, have entries that are
apart. -/
theorem Closed.entersApart {s t : Scope} (hy : y.Closed s) (hz : z.Closed t)
    (hdisjoint : (y.helpers.map Helper.name).Disjoint (z.helpers.map Helper.name)) :
    EntersApart y z := by
  intro hsome hnone htypes heq
  obtain ⟨a, ha⟩ := Option.isSome_iff_exists.1 hsome
  rw [ownEntry_of_action ha, ownEntry_of_no_action hnone, if_neg (by simpa using htypes)] at heq
  -- If the entries were equal, the second element would refer to the helper of the first.
  have hne : Ty.returnOf a.helper ≠ .unknown := Ty.noConfusion
  have hrefers : z.Refers a.helper := by
    refine .types ((Ty.mem_atoms_groupOf hne z.types).1 ?_)
    rw [← (List.cons.inj heq).1, Ty.mem_atoms_groupOf hne, Ty.atomsAll_singleton]
    exact List.mem_singleton_self _
  obtain ⟨h, hh, -, hname⟩ := hy.refers a.helper (.action (by rw [ha]; rfl))
  obtain ⟨g, hg, -, hgname⟩ := hz.refers a.helper hrefers
  exact hdisjoint (List.mem_map.2 ⟨h, hh, hname⟩) (List.mem_map.2 ⟨g, hg, hgname⟩)

/-- The types of a sequence are the entries of its elements. -/
structure HasEntriesOf (y : Yield) (ys : List Yield) : Prop where
  /-- In the place of an element with an action stands the entry of the one with an action before
  it, and the others have their entries in their places. -/
  types : y.types = entriesAfter none ys
  /-- Every element that has a value has one entry, but for the last with an action. -/
  perm : y.types.Perm (entriesInOrder ys)
  /-- The last element with an action decides the value of the sequence. -/
  action : y.action = ys.reverse.findSome? Yield.action
  /-- The entries stand in the order of the elements exactly when no element without an action has
  one between two elements with actions. -/
  inOrder_iff : y.types = entriesInOrder ys ↔ ¬ Interrupted ys
  /-- Every entry is a group. -/
  groups : ∀ t ∈ y.types, ∃ u, t = .group u
  /-- Elements without actions that have values have an entry each, in their order. -/
  plain : (∀ z ∈ ys, z.action = none ∧ z.valueTypes ≠ []) →
    y.types = ys.map fun z => Ty.groupOf z.valueTypes

end Yield

namespace Expr

/-- The elements of a sequence have entries that are apart. -/
theorem pairwise_entersApart {rule : String} {limit : Nat} {es : List Expr} {s : Scope} {n : Nat}
    {ys : List Yield} (h : elementResults rule limit es s n = .ok ys) :
    ys.Pairwise Yield.EntersApart := by
  have hclosed := (closed_preserved.of_elementResults es s n ys h).exists_of_mem
  -- The helpers of the elements are those of the sequence, which have different names.
  have hsequence : result rule limit (.sequence es) s n = .ok (Yield.sequence ys) :=
    congrArg (Yield.sequence <$> ·) h
  have hnodup := (allocates_preserved.of_result _ s n _ hsequence).names_nodup fun i j hij =>
    Nat.add_left_cancel (Helper.numberedName_inj.1 hij).2
  rw [Yield.helpers_sequence, List.map_flatMap, List.nodup_flatMap] at hnodup
  refine hnodup.2.imp_of_mem fun {y z} hy hz hdisjoint => ?_
  obtain ⟨_, -, t, _, hyclosed⟩ := hclosed y hy
  obtain ⟨_, -, u, _, hzclosed⟩ := hclosed z hz
  exact hyclosed.entersApart hzclosed hdisjoint

/-- A sequence has the entries of what its elements yield one after another: all of them, in groups,
and in the order of the elements exactly when no other entry comes between two actions. -/
theorem sequence_entries (cx : RuleContext) (es : List Expr) (s : Scope) (ledger ledger' : Ledger)
    (y : Yield) (hrun : ((Expr.sequence es).derive cx s).runFrom ledger = (.ok y, ledger')) :
    ∃ ys, Chain (Yields cx) bound es s ledger.next ys ∧ ys.length = es.length ∧
      y.HasEntriesOf ys := by
  obtain ⟨hresult, -⟩ := (derive_computes cx (.sequence es) s).of_runFrom hrun
  obtain ⟨ys, hys, rfl⟩ := Except.map_eq_ok_iff.1 hresult
  have hchain := result_preserved.of_elementResults es s ledger.next ys hys
  have htypes := Yield.types_sequence ys
  refine ⟨ys, hchain.imp yields_of_result, hchain.length_eq, ?_⟩
  constructor
  case types => exact htypes
  case perm =>
    rw [htypes]
    exact Yield.entriesAfter_none_perm
  case action => exact Yield.action_sequence ys
  case inOrder_iff =>
    rw [htypes]
    exact Yield.entriesAfter_none_eq_iff (pairwise_entersApart hys)
  case groups =>
    rw [htypes]
    exact fun t ht => Yield.exists_group_of_mem_entriesAfter ht
  case plain =>
    rw [htypes]
    exact fun h => Yield.entriesAfter_of_no_action h

/-- A capture has no entry, so that it does not interrupt the two actions around it. -/
theorem sequence_entries_around_capture : ∃ y ledger' ys,
    ((Expr.sequence [.action "first" .any, .labeled (some "l") .any, .action "second" .any,
      .literal ";" false]).derive ⟨"R", [], 256⟩ .empty).runFrom ⟨1, []⟩ = (.ok y, ledger') ∧
      ys.length = 4 ∧ y.HasEntriesOf ys ∧
      y.types = [.group (.returnOf "peg$parseR$1"), .group (.literal ";")] := by
  obtain ⟨ys, -, hlength, hentries⟩ := sequence_entries ⟨"R", [], 256⟩ [.action "first" .any,
    .labeled (some "l") .any, .action "second" .any, .literal ";" false] .empty ⟨1, []⟩ _ _ rfl
  exact ⟨_, _, ys, rfl, hlength, hentries, by decide +kernel⟩

/-- A literal between two actions. -/
def literalBetweenActions : List Expr :=
  [.action "first" (.literal "a" false), .literal "b" false,
    .action "second" (.literal "c" false)]

/-- The entry of the first action comes after that of the literal, which follows the action. -/
theorem sequence_entries_not_in_order : ∃ y ledger' ys,
    ((Expr.sequence literalBetweenActions).derive ⟨"R", [], 256⟩ .empty).runFrom ⟨1, []⟩ =
        (.ok y, ledger') ∧
      Chain (Yields ⟨"R", [], 256⟩) bound literalBetweenActions .empty 1 ys ∧
      y.types = [.group (.literal "b"), .group (.returnOf "peg$parseR$1")] ∧
      Yield.entriesInOrder ys = [.group (.returnOf "peg$parseR$1"), .group (.literal "b")] ∧
      y.types ≠ Yield.entriesInOrder ys := by
  refine ⟨_, _, [(Yield.of (.literal "a")).underAction (Helper.numberedName "R" 1) "first" .empty,
    .of (.literal "b"),
    (Yield.of (.literal "c")).underAction (Helper.numberedName "R" 2) "second" .empty],
    rfl, ?_, ?_, ?_, ?_⟩
  · exact .cons (fun _ => rfl) (.cons (fun _ => rfl) (.cons (fun _ => rfl) (.nil _ _)))
  · decide +kernel
  · decide +kernel
  · decide +kernel

end Expr

end GrammarTypes
