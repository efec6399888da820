import GrammarTypes.Proofs.Expr.Code

/-!
# The captures of an expression

A capture with a label is exposed when no other capture with a label is above it; only visible nodes
count, so that nothing beneath a text or a lookahead is exposed (`Expr.Exposes`). `Expr.captures`
lists the exposed captures in the order of their paths, each with the number of nodes with code that
come before it (`mem_captures_iff`, `captures_sorted`).
-/

namespace GrammarTypes

namespace Expr

/-! ## Exposed captures -/

/-- The path leads to a capture under the label, and no other capture with a label is above it. -/
structure Exposes (e : Expr) (path : List Nat) (label : String) (inner : Expr) : Prop where
  /-- The capture is where the path leads to. -/
  leads : e.at? path = some (.labeled (some label) inner)
  /-- On the way to it there is no capture with a label. -/
  uncovered : ∀ above, above <+: path → above ≠ path → ∀ (label : String) (inner : Expr),
    e.at? above ≠ some (.labeled (some label) inner)

/-- The number of visible nodes with code that come before a path. -/
def codeBefore (e : Expr) (path : List Nat) : Nat :=
  e.codePreorder.countP fun x => x.path < path

/-- A capture with a label in its place. -/
structure Capture where
  /-- The places of the parts on the way to the capture. -/
  path : List Nat
  /-- The label. -/
  label : String
  /-- What is captured. -/
  inner : Expr
  /-- The number of visible nodes with code that come before it. -/
  before : Nat

/-- A capture of the part at a place that has `k` nodes with code before it, as one of the whole. -/
def Capture.under (i k : Nat) (c : Capture) : Capture :=
  { c with path := i :: c.path, before := k + c.before }

mutual

/-- The exposed captures of an expression from left to right. -/
def captures : Expr → List Capture
  | .labeled (some label) e => [⟨[], label, e, 0⟩]
  | .action _ e => (captures e).map (Capture.under 0 1)
  | .group e | .labeled none e | .named _ e | .oneOrMore e | .optional e | .zeroOrMore e =>
    (captures e).map (Capture.under 0 0)
  | .choice es | .sequence es => capturesAll 0 0 es
  | .any | .charClass .. | .literal .. | .ruleRef _ | .semanticAnd _ | .semanticNot _
  | .simpleAnd _ | .simpleNot _ | .text _ => []

/-- The exposed captures of parts that stand at consecutive places and have `k` nodes with code
before them. -/
def capturesAll : Nat → Nat → List Expr → List Capture
  | _, _, [] => []
  | i, k, e :: es =>
    (captures e).map (Capture.under i k) ++ capturesAll (i + 1) (k + helperCount e) es

end

variable {e part inner : Expr} {es : List Expr} {i k : Nat} {path : List Nat} {label : String}
  {c : Capture}

/-- An expression that is no capture with a label has the captures of its parts. -/
theorem captures_eq (h : ∀ label inner, e ≠ .labeled (some label) inner) :
    e.captures = capturesAll 0 (Node.code? ⟨[], e⟩).toList.length e.parts := by
  cases e with
  | labeled label inner =>
    cases label with
    | none => simp [captures, capturesAll, parts, Node.code?, code?]
    | some label => exact absurd rfl (h label inner)
  | _ => simp [captures, capturesAll, parts, Node.code?, code?]

/-! ## Exposure by recursion -/

/-- The capture at the top is exposed. -/
theorem exposes_nil : e.Exposes [] label inner ↔ e = .labeled (some label) inner := by
  refine ⟨fun h => Option.some.inj h.leads, fun h => ⟨congrArg some h, fun above habove hne => ?_⟩⟩
  exact absurd (List.prefix_nil.1 habove) hne

/-- The captures that a part exposes are exposed in the whole unless it is a capture itself. -/
theorem exposes_cons : e.Exposes (i :: path) label inner ↔
    (∀ label inner, e ≠ .labeled (some label) inner) ∧
      ∃ part, e.parts[i]? = some part ∧ part.Exposes path label inner := by
  have hstep : ∀ {part above}, e.parts[i]? = some part →
      e.at? (i :: above) = part.at? above := fun hpart => by rw [at?, hpart, Option.bind_some]
  constructor
  · rintro ⟨hleads, huncovered⟩
    refine ⟨fun l x he => ?_, ?_⟩
    · exact huncovered [] List.nil_prefix (List.cons_ne_nil i path).symm l x (congrArg some he)
    · obtain ⟨part, hpart, hat⟩ := Option.bind_eq_some_iff.1 hleads
      refine ⟨part, hpart, hat, fun above habove hne l x hx => ?_⟩
      exact huncovered (i :: above) (List.cons_prefix_cons.2 ⟨rfl, habove⟩)
        (fun h => hne (List.cons.inj h).2) l x ((hstep hpart).trans hx)
  · rintro ⟨htop, part, hpart, hleads, huncovered⟩
    refine ⟨(hstep hpart).trans hleads, fun above habove hne l x hx => ?_⟩
    rcases List.prefix_cons_iff.1 habove with rfl | ⟨rest, rfl, hrest⟩
    · exact htop l x (Option.some.inj hx)
    · exact huncovered rest hrest (fun h => hne (congrArg (i :: ·) h)) l x
        ((hstep hpart).symm.trans hx)

/-! ## The nodes with code before a path -/

/-- Nothing comes before the top. -/
theorem codeBefore_nil (e : Expr) : e.codeBefore [] = 0 := by
  simp [codeBefore]

/-- Before a path through one of several parts come the parts before it. -/
theorem countP_codePreorderAll {j : Nat} (hpart : es[j]? = some part) (path : List Nat) (i : Nat) :
    (codePreorderAll i es).countP (fun x => x.path < (i + j) :: path) =
      helperCountAll (es.take j) + part.codeBefore path := by
  induction es generalizing i j with
  | nil => exact nomatch hpart
  | cons e es ih =>
    rw [codePreorderAll_cons, List.countP_append, List.countP_map]
    cases j with
    -- The path goes through the first part, and the code of the others comes after it.
    | zero =>
      obtain rfl : e = part := Option.some.inj hpart
      have hrest : (codePreorderAll (i + 1) es).countP (fun x => x.path < (i + 0) :: path) = 0 := by
        refine List.countP_eq_zero.2 fun x hx => ?_
        obtain ⟨j, path', hj, hpath⟩ := path_of_mem_code? hx
        rw [hpath, decide_eq_true_eq, List.cons_lt_cons_iff]
        omega
      rw [hrest, List.take_zero, helperCountAll, Nat.zero_add, Nat.add_zero]
      exact List.countP_congr fun x _ => by simp [CodeNode.under]
    -- The path goes through a later part, and all code of the first one comes before it.
    | succ j =>
      have hfirst : e.codePreorder.countP
          ((fun x => decide (x.path < (i + (j + 1)) :: path)) ∘ CodeNode.under i) =
            e.helperCount := by
        rw [← length_codePreorder]
        refine List.countP_eq_length.2 fun x _ => ?_
        simp [CodeNode.under, List.cons_lt_cons_iff]
      have hplace : i + (j + 1) = i + 1 + j := by omega
      rw [hfirst, hplace, ih hpart, List.take_succ_cons, helperCountAll, Nat.add_assoc]

/-- Before a path through a part come the code of the whole and the parts before it. -/
theorem codeBefore_cons (hpart : e.parts[i]? = some part) (path : List Nat) :
    e.codeBefore (i :: path) = (Node.code? ⟨[], e⟩).toList.length +
      helperCountAll (e.parts.take i) + part.codeBefore path := by
  have hparts := countP_codePreorderAll hpart path 0
  rw [Nat.zero_add] at hparts
  have hown : (Node.code? ⟨[], e⟩).toList.countP (fun x => x.path < i :: path) =
      (Node.code? ⟨[], e⟩).toList.length := by
    refine List.countP_eq_length.2 fun x hx => ?_
    obtain ⟨_, -, rfl⟩ := Option.map_eq_some_iff.1 (Option.mem_toList.1 hx)
    simp
  rw [codeBefore, codePreorder_eq, List.countP_append, hparts, hown, Nat.add_assoc]

/-! ## What the listing holds -/

/-- The captures of several parts are those of each, in its place. -/
theorem mem_capturesAll : c ∈ capturesAll i k es ↔ ∃ (j : Nat) (part : Expr),
    es[j]? = some part ∧
      ∃ d ∈ part.captures, c = d.under (i + j) (k + helperCountAll (es.take j)) := by
  induction es generalizing i k with
  | nil => simp [capturesAll]
  | cons e es ih =>
    have hplace : ∀ (d : Capture) (j : Nat),
        d.under (i + 1 + j) (k + e.helperCount + helperCountAll (es.take j)) =
          d.under (i + (j + 1)) (k + helperCountAll ((e :: es).take (j + 1))) := by
      intro d j
      rw [List.take_succ_cons, helperCountAll, Nat.add_right_comm, Nat.add_assoc, Nat.add_assoc]
    rw [capturesAll, List.mem_append, List.mem_map, ih]
    constructor
    · rintro (⟨d, hd, rfl⟩ | ⟨j, part, hpart, d, hd, rfl⟩)
      · exact ⟨0, e, rfl, d, hd, rfl⟩
      · exact ⟨j + 1, part, hpart, d, hd, hplace d j⟩
    · rintro ⟨j, part, hpart, d, hd, rfl⟩
      cases j with
      | zero =>
        obtain rfl : e = part := Option.some.inj hpart
        exact .inl ⟨d, hd, rfl⟩
      | succ j => exact .inr ⟨j, part, hpart, d, hd, (hplace d j).symm⟩

/-- The captures listed are the exposed ones, each with the number of nodes with code before it. -/
theorem mem_captures_iff (e : Expr) : ∀ c : Capture, c ∈ e.captures ↔
    e.Exposes c.path c.label c.inner ∧ c.before = e.codeBefore c.path := by
  induction e using induction_on_parts with
  | h e ih =>
    rintro ⟨path, label, inner, before⟩
    by_cases htop : ∃ label inner, e = .labeled (some label) inner
    -- A capture with a label is the only one that it exposes.
    · obtain ⟨l, x, rfl⟩ := htop
      rw [captures, List.mem_singleton, Capture.mk.injEq]
      cases path with
      | nil => simp [exposes_nil, codeBefore_nil, eq_comm, and_assoc]
      | cons i path => simp [exposes_cons]
    · have hno : ∀ label inner, e ≠ .labeled (some label) inner := by simpa using htop
      rw [captures_eq hno, mem_capturesAll]
      constructor
      · rintro ⟨j, part, hpart, d, hd, hc⟩
        obtain ⟨hexposes, hbefore⟩ := (ih part (List.mem_of_getElem? hpart) d).1 hd
        rw [Capture.under, Capture.mk.injEq, Nat.zero_add] at hc
        obtain ⟨rfl, rfl, rfl, rfl⟩ := hc
        exact ⟨exposes_cons.2 ⟨hno, part, hpart, hexposes⟩,
          by rw [codeBefore_cons hpart, hbefore]⟩
      · rintro ⟨hexposes, hbefore⟩
        cases path with
        | nil => exact absurd (exposes_nil.1 hexposes) (hno label inner)
        | cons i path =>
          obtain ⟨-, part, hpart, hpartExposes⟩ := exposes_cons.1 hexposes
          refine ⟨i, part, hpart, ⟨path, label, inner, part.codeBefore path⟩,
            (ih part (List.mem_of_getElem? hpart) _).2 ⟨hpartExposes, rfl⟩, ?_⟩
          rw [Capture.under, Capture.mk.injEq, Nat.zero_add]
          exact ⟨rfl, rfl, rfl, hbefore.trans (codeBefore_cons hpart path)⟩

/-- The captures of parts are listed in the order of their paths when those of each part are. -/
theorem capturesAll_sorted : ∀ (i k : Nat) (es : List Expr),
    (∀ e ∈ es, e.captures.Pairwise fun c d => c.path < d.path) →
      (capturesAll i k es).Pairwise fun c d => c.path < d.path
  | _, _, [], _ => .nil
  | i, k, e :: es, h => by
    have hrest := capturesAll_sorted (i + 1) (k + e.helperCount) es fun e' he' =>
      h e' (List.mem_cons_of_mem _ he')
    rw [capturesAll]
    refine List.pairwise_append.2 ⟨?_, hrest, fun c hc d hd => ?_⟩
    · exact List.pairwise_map.2 ((h e List.mem_cons_self).imp fun hcd =>
        List.cons_lt_cons_iff.2 (.inr ⟨rfl, hcd⟩))
    -- A capture of the first part and one of a later part differ in the first place of their paths.
    · obtain ⟨c, -, rfl⟩ := List.mem_map.1 hc
      obtain ⟨j, _, -, d, -, rfl⟩ := mem_capturesAll.1 hd
      exact List.cons_lt_cons_iff.2 (.inl (by omega))

/-- The captures are listed in the order of their paths. -/
theorem captures_sorted (e : Expr) : e.captures.Pairwise fun c d => c.path < d.path := by
  induction e using induction_on_parts with
  | h e ih =>
    by_cases htop : ∃ label inner, e = .labeled (some label) inner
    · obtain ⟨l, x, rfl⟩ := htop
      rw [captures]
      exact List.pairwise_singleton _ _
    · rw [captures_eq (by simpa using htop)]
      exact capturesAll_sorted 0 _ e.parts ih

/-- The list holds the exposed captures of an expression, each once, from left to right. -/
structure CapturesInOrder (e : Expr) (cs : List Capture) : Prop where
  /-- The list holds the exposed captures, each with the number of nodes with code before it. -/
  mem_iff : ∀ c, c ∈ cs ↔ e.Exposes c.path c.label c.inner ∧ c.before = e.codeBefore c.path
  /-- An earlier path comes first. -/
  sorted : cs.Pairwise fun c d => c.path < d.path

/-- The captures are listed from left to right. -/
theorem capturesInOrder (e : Expr) : e.CapturesInOrder e.captures :=
  ⟨e.mem_captures_iff, e.captures_sorted⟩

end Expr

end GrammarTypes
