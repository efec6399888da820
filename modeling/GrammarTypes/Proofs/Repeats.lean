import Mathlib.Data.List.Induction
import Mathlib.Data.List.Nodup

/-!
# Repeats

Repeats are dropped from a list with `List.eraseDups`. What is left are the items of the list, each
once and in the order in which they come first (`FirstOccurrences`). No other list has these items
in this order (`FirstOccurrences.unique`), so that this says all there is to say about dropping
repeats. It is shown from the left, one item after the other: an item that has come before leaves
what was found as it is, and a new one is put at its end.
-/

namespace GrammarTypes

variable {α : Type} [BEq α] [LawfulBEq α]

/-! ## First occurrences -/

/-- The second list has the items of the first, each once and in the order in which they come first
there. -/
structure FirstOccurrences (xs ys : List α) : Prop where
  /-- The items are those of the first list. -/
  mem_iff : ∀ x, x ∈ ys ↔ x ∈ xs
  /-- Of two items, the one that comes first before the other stands before it. No item comes first
  before itself, so none stands twice. -/
  sorted : ys.Pairwise fun x y => xs.idxOf x < xs.idxOf y

namespace FirstOccurrences

variable {xs ys zs : List α} {x : α}

omit [LawfulBEq α] in
/-- No item stands twice. -/
theorem nodup (h : FirstOccurrences xs ys) : ys.Nodup := by
  have hne : ∀ {x y}, xs.idxOf x < xs.idxOf y → x ≠ y := by
    rintro x y hlt rfl
    exact Nat.lt_irrefl _ hlt
  exact h.sorted.imp hne

omit [LawfulBEq α] in
/-- There is only one list of first occurrences. -/
theorem unique (hy : FirstOccurrences xs ys) (hz : FirstOccurrences xs zs) : ys = zs := by
  have hperm : ys.Perm zs := by
    refine (List.perm_ext_iff_of_nodup hy.nodup hz.nodup).2 fun x => ?_
    rw [hy.mem_iff, hz.mem_iff]
  have hantisymm : ∀ x y, x ∈ ys → y ∈ zs → xs.idxOf x < xs.idxOf y → xs.idxOf y < xs.idxOf x →
      x = y :=
    fun x y _ _ hxy hyx => absurd hxy (Nat.lt_asymm hyx)
  exact hperm.eq_of_pairwise hantisymm hy.sorted hz.sorted

/-- What comes later makes no difference to the order of the items that have come. -/
theorem sorted_append (h : FirstOccurrences xs ys) (zs : List α) :
    ys.Pairwise fun x y => (xs ++ zs).idxOf x < (xs ++ zs).idxOf y := by
  refine h.sorted.imp_of_mem fun hx hy hlt => ?_
  rw [List.idxOf_append_of_mem ((h.mem_iff _).1 hx), List.idxOf_append_of_mem ((h.mem_iff _).1 hy)]
  exact hlt

/-- An item that has come before adds nothing. -/
theorem concat_of_mem (h : FirstOccurrences xs ys) (hx : x ∈ xs) :
    FirstOccurrences (xs ++ [x]) ys where
  mem_iff y := by
    rw [h.mem_iff, List.mem_append, List.mem_singleton, or_iff_left_of_imp]
    rintro rfl
    exact hx
  sorted := h.sorted_append [x]

/-- An item that has not come before is put at the end. -/
theorem concat_of_notMem (h : FirstOccurrences xs ys) (hx : x ∉ xs) :
    FirstOccurrences (xs ++ [x]) (ys ++ [x]) where
  mem_iff y := by rw [List.mem_append, List.mem_append, h.mem_iff]
  sorted := by
    refine List.pairwise_append.2 ⟨h.sorted_append [x], List.pairwise_singleton _ _, ?_⟩
    intro y hy z hz
    obtain rfl := List.mem_singleton.1 hz
    have hyxs : y ∈ xs := (h.mem_iff y).1 hy
    calc (xs ++ [z]).idxOf y
        = xs.idxOf y := List.idxOf_append_of_mem hyxs
      _ < xs.length := List.idxOf_lt_length_of_mem hyxs
      _ ≤ xs.length + [z].idxOf z := Nat.le_add_right _ _
      _ = (xs ++ [z]).idxOf z := (List.idxOf_append_of_notMem hx).symm

end FirstOccurrences

/-- One more item is new or is dropped. -/
theorem eraseDups_concat (xs : List α) (x : α) :
    (xs ++ [x]).eraseDups = if x ∈ xs then xs.eraseDups else xs.eraseDups ++ [x] := by
  rw [List.eraseDups_append]
  split
  · next h => simp [List.removeAll, h]
  · next h => simp [List.removeAll, h, List.eraseDups_cons]

/-- What is left when the repeats are dropped are the first occurrences. -/
theorem firstOccurrences_eraseDups (xs : List α) : FirstOccurrences xs xs.eraseDups := by
  induction xs using List.reverseRecOn with
  | nil => exact ⟨fun _ => Iff.rfl, List.Pairwise.nil⟩
  | append_singleton xs x ih =>
    rw [eraseDups_concat]
    split
    · next hx => exact ih.concat_of_mem hx
    · next hx => exact ih.concat_of_notMem hx

/-- No item is left twice when the repeats are dropped. -/
theorem nodup_eraseDups (xs : List α) : xs.eraseDups.Nodup :=
  (firstOccurrences_eraseDups xs).nodup

/-! ## Parts and images -/

/-- A list without repeats stays as it is when repeats are dropped. -/
theorem eraseDups_of_nodup {xs : List α} (h : xs.Nodup) : xs.eraseDups = xs := by
  induction xs with
  | nil => rfl
  | cons x xs ih =>
    obtain ⟨hx, hxs⟩ := List.nodup_cons.1 h
    have hfilter : xs.filter (fun y => !y == x) = xs := by
      refine List.filter_eq_self.2 fun y hy => ?_
      have hne : y ≠ x := fun heq => hx (heq ▸ hy)
      simpa using hne
    rw [List.eraseDups_cons, hfilter, ih hxs]

/-- Repeats are dropped before or after a function that tells all items apart. -/
theorem eraseDups_map {β : Type} [BEq β] [LawfulBEq β] {f : α → β} (hf : Function.Injective f) :
    ∀ xs : List α, (xs.map f).eraseDups = xs.eraseDups.map f
  | [] => by simp
  | x :: xs => by
    have hsame : ∀ y, (!f y == f x) = !y == x := by
      intro y
      by_cases h : y = x
      · simp [h]
      · simp [h, hf.ne h]
    have hfilter : (xs.map f).filter (fun b => !b == f x) = (xs.filter fun y => !y == x).map f := by
      rw [List.filter_map]
      exact congrArg _ (List.filter_congr fun y _ => hsame y)
    rw [List.map_cons, List.eraseDups_cons, List.eraseDups_cons, List.map_cons, hfilter,
      eraseDups_map hf]
  termination_by xs => xs.length
  decreasing_by exact Nat.lt_succ_of_le (List.length_filter_le _ _)

/-- Repeats are dropped before or after some items are left out. -/
theorem eraseDups_filter (p : α → Bool) : ∀ xs : List α,
    (xs.filter p).eraseDups = xs.eraseDups.filter p
  | [] => rfl
  | x :: xs => by
    have hrest := eraseDups_filter p (xs.filter fun y => !y == x)
    rw [List.eraseDups_cons]
    by_cases hx : p x = true
    · rw [List.filter_cons_of_pos hx, List.filter_cons_of_pos hx, List.eraseDups_cons, ← hrest,
        List.filter_comm]
    -- What is left out anyway need not be looked for among the repeats.
    · have hsame : (xs.filter fun y => !y == x).filter p = xs.filter p := by
        rw [List.filter_filter]
        refine List.filter_congr fun y _ => ?_
        by_cases hyx : y = x
        · simp [hyx, hx]
        · simp [hyx]
      rw [List.filter_cons_of_neg hx, List.filter_cons_of_neg hx, ← hrest, hsame]
  termination_by xs => xs.length
  decreasing_by exact Nat.lt_succ_of_le (List.length_filter_le _ _)

/-- Repeats inside a part of a list can be dropped first. -/
theorem eraseDups_append_eraseDups (xs ys zs : List α) :
    (xs ++ (ys.eraseDups ++ zs)).eraseDups = (xs ++ (ys ++ zs)).eraseDups := by
  have hmem : ∀ x, (xs ++ ys.eraseDups).contains x = (xs ++ ys).contains x := by
    intro x
    simp [List.mem_eraseDups]
  have hlast : zs.removeAll (xs ++ ys.eraseDups) = zs.removeAll (xs ++ ys) :=
    List.filter_congr fun z _ => congrArg (! ·) (hmem z)
  have hmiddle : (ys.eraseDups.removeAll xs).eraseDups = (ys.removeAll xs).eraseDups := by
    unfold List.removeAll
    rw [eraseDups_filter, eraseDups_filter, eraseDups_of_nodup (nodup_eraseDups ys)]
  calc (xs ++ (ys.eraseDups ++ zs)).eraseDups
      = (xs ++ ys.eraseDups).eraseDups ++ (zs.removeAll (xs ++ ys.eraseDups)).eraseDups := by
        rw [← List.append_assoc, List.eraseDups_append]
    _ = (xs ++ ys).eraseDups ++ (zs.removeAll (xs ++ ys)).eraseDups := by
        rw [hlast, List.eraseDups_append, hmiddle, List.eraseDups_append]
    _ = (xs ++ (ys ++ zs)).eraseDups := by
        rw [← List.eraseDups_append, List.append_assoc]

end GrammarTypes
