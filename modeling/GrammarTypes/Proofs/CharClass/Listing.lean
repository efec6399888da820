import GrammarTypes.CharClass
import GrammarTypes.Proofs.Text.Literal
import Mathlib.Data.Char
import Mathlib.Data.List.Sort

/-!
# What a character class lists

`CharClass.Lists` says which texts a part of a class lists, in terms of characters and their order
only: a character lists its text, and a range every character between its endpoints, in ascending
order. A range is malformed when its endpoints are not single characters in order, and then it lists
nothing.

The expansion of a class does not charge a part for the texts that it lists. It charges a range for
the code points between its endpoints (`CharClass.demand`), and the surrogates among these are no
characters. So a part is charged for what it lists, except that a range which goes across all
surrogates is charged for 2048 texts more (`CharClass.Lists.demand_eq`).
-/

namespace GrammarTypes.CharClass

/-! ## Characters and their order -/

/-- Characters are in the order of their code points. -/
theorem le_iff_toNat_le {c d : Char} : c ≤ d ↔ c.toNat ≤ d.toNat :=
  UInt32.le_iff_toNat_le

/-- Characters are in the strict order of their code points. -/
theorem lt_iff_toNat_lt {c d : Char} : c < d ↔ c.toNat < d.toNat :=
  UInt32.lt_iff_toNat_lt

/-- The code point of a character is valid. -/
theorem isValidChar_toNat (c : Char) : c.toNat.isValidChar := c.valid

/-- A valid code point is that of its character. -/
theorem toNat_ofNat_of_valid {n : Nat} (h : n.isValidChar) : (Char.ofNat n).toNat = n := by
  rw [Char.ofNat, dif_pos h]
  rfl

variable {lo hi c : Char}

/-- The characters between two are those that are in order with both. -/
theorem mem_charsBetween (h : lo ≤ hi) : c ∈ charsBetween lo hi ↔ lo ≤ c ∧ c ≤ hi := by
  have hle := le_iff_toNat_le.1 h
  simp only [charsBetween, width, List.mem_map, List.mem_filter, List.mem_range'_1,
    decide_eq_true_eq, le_iff_toNat_le]
  constructor
  · rintro ⟨n, ⟨hrange, hvalid⟩, rfl⟩
    rw [toNat_ofNat_of_valid hvalid]
    omega
  · intro hc
    exact ⟨c.toNat, ⟨by omega, isValidChar_toNat c⟩, Char.ofNat_toNat c⟩

/-- The characters between two are listed in ascending order. -/
theorem charsBetween_sorted (lo hi : Char) : (charsBetween lo hi).Pairwise (· < ·) := by
  have hrange : ((List.range' lo.toNat (width lo hi)).filter fun n => Nat.isValidChar n).Pairwise
      (· < ·) :=
    (List.pairwise_lt_range' 1).filter _
  refine List.pairwise_map.2 (hrange.imp_of_mem fun {m n} hm hn hlt => ?_)
  have hmvalid : m.isValidChar := by simpa using (List.mem_filter.1 hm).2
  have hnvalid : n.isValidChar := by simpa using (List.mem_filter.1 hn).2
  rw [lt_iff_toNat_lt, toNat_ofNat_of_valid hmvalid, toNat_ofNat_of_valid hnvalid]
  exact hlt

/-! ## The code points of a range -/

/-- The number of surrogates, which are code points but no characters. -/
def surrogateCount : Nat := 2048

/-- All of some consecutive code points are valid when none of them is a surrogate. -/
theorem length_filter_valid {start count : Nat}
    (h : start + count ≤ 0xD800 ∨ 0xE000 ≤ start ∧ start + count ≤ 0x110000) :
    ((List.range' start count).filter fun n => Nat.isValidChar n).length = count := by
  have hall : ∀ n ∈ List.range' start count, decide n.isValidChar = true := by
    intro n hn
    have hrange := List.mem_range'_1.1 hn
    rw [decide_eq_true_eq, Nat.isValidChar]
    omega
  rw [List.filter_eq_self.2 hall, List.length_range']

/-- No surrogate is valid. -/
theorem filter_surrogates :
    ((List.range' 0xD800 surrogateCount).filter fun n => Nat.isValidChar n) = [] := by
  refine List.filter_eq_nil_iff.2 fun n hn => ?_
  have hrange := List.mem_range'_1.1 hn
  rw [surrogateCount] at hrange
  rw [decide_eq_true_eq, Nat.isValidChar]
  omega

/-- Between two characters there are as many code points as characters when both come before the
surrogates or both after them. -/
theorem width_eq_of_not_spans (h : lo ≤ hi) (hspans : ¬ (lo.toNat < 0xD800 ∧ 0xDFFF < hi.toNat)) :
    width lo hi = (charsBetween lo hi).length := by
  have hle := le_iff_toNat_le.1 h
  have hlo := Text.toNat_lt_or_gt lo
  have hhi := Text.toNat_lt_or_gt hi
  rw [charsBetween, List.length_map, length_filter_valid]
  unfold width
  omega

/-- Between two characters on both sides of the surrogates there are as many code points as
characters and surrogates. -/
theorem width_eq_of_spans (hlo : lo.toNat < 0xD800) (hhi : 0xDFFF < hi.toNat) :
    width lo hi = (charsBetween lo hi).length + surrogateCount := by
  have hbound := Text.toNat_lt_or_gt hi
  -- The code points before the surrogates, the surrogates, and the code points after them.
  have hwidth : width lo hi =
      (0xD800 - lo.toNat) + (surrogateCount + (hi.toNat - 0xDFFF)) := by
    unfold width surrogateCount
    omega
  have hbefore : ((List.range' lo.toNat (0xD800 - lo.toNat)).filter
      fun n => Nat.isValidChar n).length = 0xD800 - lo.toNat :=
    length_filter_valid (by omega)
  have hafter : ((List.range' 0xE000 (hi.toNat - 0xDFFF)).filter
      fun n => Nat.isValidChar n).length = hi.toNat - 0xDFFF :=
    length_filter_valid (by omega)
  have hmiddle : lo.toNat + 1 * (0xD800 - lo.toNat) = 0xD800 := by omega
  have hend : 0xD800 + 1 * surrogateCount = 0xE000 := rfl
  have hlength : (charsBetween lo hi).length =
      (0xD800 - lo.toNat) + (0 + (hi.toNat - 0xDFFF)) := by
    rw [charsBetween, List.length_map, hwidth, ← List.range'_append, hmiddle,
      ← List.range'_append, hend, List.filter_append, List.filter_append, List.length_append,
      List.length_append, hbefore, hafter, filter_surrogates, List.length_nil]
  rw [hwidth, hlength]
  omega

/-! ## What parts list -/

/-- The texts that a part of a class lists. -/
inductive Lists : ClassPart → List String → Prop
  /-- A character lists its own text. -/
  | char (value : String) : Lists (.char value) [value]
  /-- A range lists every character from its lower to its upper endpoint, in ascending order. -/
  | range {lower upper : String} {lo hi : Char} {chars : List Char}
    (lower_eq : lower.toList = [lo]) (upper_eq : upper.toList = [hi]) (le : lo ≤ hi)
    (sorted : chars.Pairwise (· < ·)) (mem_iff : ∀ c, c ∈ chars ↔ lo ≤ c ∧ c ≤ hi) :
    Lists (.range lower upper) (chars.map Char.toString)

/-- The endpoints of a range are not single characters in order. -/
def Malformed (lower upper : String) : Prop :=
  ¬ ∃ lo hi : Char, lower.toList = [lo] ∧ upper.toList = [hi] ∧ lo ≤ hi

/-- A range that goes from a character before the surrogates to one after them. -/
def SpansSurrogates : ClassPart → Prop
  | .char _ => False
  | .range lower upper => ∃ lo hi : Char, lower.toList = [lo] ∧ upper.toList = [hi] ∧
    lo.toNat < 0xD800 ∧ 0xDFFF < hi.toNat

/-- A text of one character consists of that character. -/
theorem single?_eq_some_iff {s : String} : single? s = some c ↔ s.toList = [c] := by
  unfold single?
  split
  · next h => simp [h]
  · next h => exact iff_of_false nofun (h c)

/-- A range has endpoints when these are single characters in order. -/
theorem endpoints?_eq_some_iff {lower upper : String} :
    endpoints? lower upper = some (lo, hi) ↔
      lower.toList = [lo] ∧ upper.toList = [hi] ∧ lo ≤ hi := by
  rw [← single?_eq_some_iff, ← single?_eq_some_iff, le_iff_toNat_le]
  unfold endpoints?
  split
  · next a b ha hb =>
    rw [ha, hb, Option.some.injEq, Option.some.injEq]
    split
    · next hle =>
      rw [Option.some.injEq, Prod.mk.injEq]
      constructor
      · rintro ⟨rfl, rfl⟩
        exact ⟨rfl, rfl, hle⟩
      · rintro ⟨rfl, rfl, -⟩
        exact ⟨rfl, rfl⟩
    · next hle =>
      refine iff_of_false nofun ?_
      rintro ⟨rfl, rfl, h⟩
      exact hle h
  · next h =>
    refine iff_of_false nofun ?_
    rintro ⟨hlo, hhi, -⟩
    exact h lo hi hlo hhi

/-- A range without endpoints is malformed. -/
theorem endpoints?_eq_none_iff {lower upper : String} :
    endpoints? lower upper = none ↔ Malformed lower upper := by
  rw [Option.eq_none_iff_forall_ne_some]
  constructor
  · rintro h ⟨lo, hi, hends⟩
    exact h (lo, hi) (endpoints?_eq_some_iff.2 hends)
  · rintro h ⟨lo, hi⟩ hends
    exact h ⟨lo, hi, endpoints?_eq_some_iff.1 hends⟩

/-- A range with endpoints lists the characters between them and nothing else. -/
theorem lists_range_iff {lower upper : String} {texts : List String}
    (h : endpoints? lower upper = some (lo, hi)) :
    Lists (.range lower upper) texts ↔ texts = (charsBetween lo hi).map Char.toString := by
  obtain ⟨hlower, hupper, hle⟩ := endpoints?_eq_some_iff.1 h
  constructor
  · rintro (_ | @⟨_, _, lo', hi', chars, hlower', hupper', hle', hsorted, hmem⟩)
    obtain rfl : lo' = lo := by simpa [hlower'] using hlower
    obtain rfl : hi' = hi := by simpa [hupper'] using hupper
    -- Characters in ascending order are determined by which they are.
    rw [hsorted.eq_of_mem_iff (charsBetween_sorted lo' hi') fun c =>
      (hmem c).trans (mem_charsBetween hle).symm]
  · rintro rfl
    exact .range hlower hupper hle (charsBetween_sorted lo hi) fun c => mem_charsBetween hle

/-- A malformed range lists nothing. -/
theorem Malformed.not_lists {lower upper : String} (h : Malformed lower upper)
    (texts : List String) : ¬ Lists (.range lower upper) texts := by
  rintro (_ | @⟨_, _, lo, hi, chars, hlower, hupper, hle, hsorted, hmem⟩)
  exact h ⟨lo, hi, hlower, hupper, hle⟩

/-- A part lists something, or it is a malformed range. -/
theorem lists_or_malformed (part : ClassPart) :
    (∃ texts, Lists part texts) ∨
      ∃ lower upper, part = .range lower upper ∧ Malformed lower upper := by
  cases part with
  | char value => exact .inl ⟨[value], .char value⟩
  | range lower upper =>
    cases h : endpoints? lower upper with
    | none => exact .inr ⟨lower, upper, rfl, endpoints?_eq_none_iff.1 h⟩
    | some ends => exact .inl ⟨_, (lists_range_iff h).2 rfl⟩

/-- What a part lists is not empty. -/
theorem Lists.ne_nil {part : ClassPart} {texts : List String} (h : Lists part texts) :
    texts ≠ [] := by
  cases h with
  | char value => exact List.cons_ne_nil value []
  | @range lower upper lo hi chars hlower hupper hle hsorted hmem =>
    have hlo : lo ∈ chars := (hmem lo).2 ⟨le_refl lo, hle⟩
    exact List.ne_nil_of_mem (List.mem_map_of_mem hlo)

/-! ## What parts are charged for -/

/-- The number of texts that there must be room for before a part is expanded. -/
def demand : ClassPart → Nat
  | .char _ => 1
  | .range lower upper =>
    match endpoints? lower upper with
    | some (lo, hi) => width lo hi
    | none => 0

/-- A part that lists something is charged for what it lists, and a range that spans the surrogates
for these too. -/
theorem Lists.demand_eq {part : ClassPart} {texts : List String} (h : Lists part texts) :
    (SpansSurrogates part → demand part = texts.length + surrogateCount) ∧
      (¬ SpansSurrogates part → demand part = texts.length) := by
  cases part with
  | char value =>
    cases h
    exact ⟨False.elim, fun _ => rfl⟩
  | range lower upper =>
    cases hends : endpoints? lower upper with
    | none => exact absurd h ((endpoints?_eq_none_iff.1 hends).not_lists texts)
    | some ends =>
      obtain ⟨lo, hi⟩ := ends
      obtain ⟨hlower, hupper, hle⟩ := endpoints?_eq_some_iff.1 hends
      obtain rfl := (lists_range_iff hends).1 h
      have hspans : SpansSurrogates (.range lower upper) ↔
          lo.toNat < 0xD800 ∧ 0xDFFF < hi.toNat := by
        simp [SpansSurrogates, hlower, hupper]
      simp only [hspans, demand, hends, List.length_map]
      exact ⟨fun hs => width_eq_of_spans hs.1 hs.2, width_eq_of_not_spans hle⟩

end GrammarTypes.CharClass
