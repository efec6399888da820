import GrammarTypes.Yield
import Std.Data.String.ToNat

/-!
# Names of helpers

A helper is named after its rule, and all but that of an action at the top of the rule have a number
after a dollar sign. A number has no dollar sign in it, so the rule and the number can be read off a
numbered name. The name of a rule may have dollar signs of its own: the helper of a rule is named
like a numbered helper of another exactly when the rules are so named
(`ruleName_eq_numberedName_iff`).
-/

namespace GrammarTypes

namespace Helper

/-- The helpers of two rules are named alike when the rules are. -/
theorem ruleName_inj {r s : String} : ruleName r = ruleName s ↔ r = s := by
  rw [ruleName, ruleName, String.append_right_inj]

/-- A number is written without a dollar sign. -/
theorem dollar_notMem_toString (n : Nat) : '$' ∉ (toString n).toList := by
  intro h
  have hmem : '$' ∈ Nat.toDigits 10 n := by simpa using h
  have hdigit := Nat.isDigit_of_mem_toDigits (by decide) (by decide) hmem
  exact absurd hdigit (by decide)

/-- What follows the last mark of a list is known when no mark is in it. -/
theorem eq_of_append_mark {α : Type} [DecidableEq α] {mark : α} {a b c d : List α} (hb : mark ∉ b)
    (hd : mark ∉ d) (h : a ++ mark :: b = c ++ mark :: d) : a = c ∧ b = d := by
  -- Read from the end, the list shows what follows the last mark before the mark itself.
  have key : ∀ l r : List α, mark ∉ r →
      (l ++ mark :: r).reverse.takeWhile (· != mark) = r.reverse := by
    intro l r hr
    have hall : ∀ x ∈ r.reverse, (x != mark) = true := by
      intro x hx
      exact bne_iff_ne.2 fun heq => hr (heq ▸ List.mem_reverse.1 hx)
    rw [List.reverse_append, List.reverse_cons, List.append_assoc,
      List.takeWhile_append_of_pos hall]
    simp
  have hbd : b = d := List.reverse_inj.1 (by rw [← key a b hb, h, key c d hd])
  subst hbd
  exact ⟨List.append_cancel_right h, rfl⟩

/-- The rule and the number can be read off a numbered name. -/
theorem numberedName_inj {r s : String} {m n : Nat} :
    numberedName r m = numberedName s n ↔ r = s ∧ m = n := by
  constructor
  · intro h
    have hchars : r.toList ++ '$' :: (toString m).toList =
        s.toList ++ '$' :: (toString n).toList := by
      have hcut : r ++ ("$" ++ toString m) = s ++ ("$" ++ toString n) := by
        rwa [numberedName, numberedName, ruleName, ruleName, String.append_assoc,
          String.append_assoc, String.append_assoc, String.append_assoc,
          String.append_right_inj] at h
      simpa using congrArg String.toList hcut
    obtain ⟨hrule, hnumber⟩ :=
      eq_of_append_mark (dollar_notMem_toString m) (dollar_notMem_toString n) hchars
    exact ⟨String.toList_inj.1 hrule, Nat.repr_injective (String.toList_inj.1 hnumber)⟩
  · rintro ⟨rfl, rfl⟩
    rfl

/-- The helper of a rule is named like a numbered helper of another when the rules are so named. -/
theorem ruleName_eq_numberedName_iff {r s : String} {n : Nat} :
    ruleName r = numberedName s n ↔ r = s ++ "$" ++ toString n := by
  rw [numberedName, ruleName, ruleName, String.append_assoc, String.append_assoc,
    String.append_right_inj, String.append_assoc]

/-- The helper of a rule is not named like a numbered helper of the same rule. -/
theorem ruleName_ne_numberedName (r : String) (n : Nat) : ruleName r ≠ numberedName r n := by
  intro h
  -- The name of a rule would be longer than itself.
  have hlength := congrArg String.length (ruleName_eq_numberedName_iff.1 h)
  rw [String.length_append, String.length_append] at hlength
  have hmark : "$".length = 1 := rfl
  omega

end Helper

end GrammarTypes
