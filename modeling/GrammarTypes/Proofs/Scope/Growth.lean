import GrammarTypes.Proofs.Scope.Bindings
import Mathlib.Data.List.Forall2
import Mathlib.Data.List.Induction
import Mathlib.Logic.Function.Basic

/-!
# Growing scopes

Binding a label and merging a scope add to a scope and take nothing from it: the labels that it had
come first and in their order, and so do the candidates that each of them had (`Scope.Extends`). A
merge is one binding after another, so that it is enough to know what one binding adds
(`Scope.Adds`).

A program binds labels in scopes that it keeps at numbered places, merges one of them into another
or into itself, and puts the merge of two of them at a place of its own. It begins with empty
scopes. What a single operation keeps is kept by every program, and so each scope that a program
leads to is well formed, and the next operation on it lets it grow.
-/

namespace GrammarTypes

namespace Scope

variable {s t u : Scope} {name n : String} {types ts : List Ty}

/-! ## Look-up -/

/-- A label that is found has a binding. -/
theorem mem_of_get? (h : s.get? n = some ts) : (n, ts) ∈ s.bindings := by
  obtain ⟨before, after, hsplit, -⟩ := List.lookup_eq_some_iff.1 h
  rw [hsplit]
  exact List.mem_append_right _ List.mem_cons_self

/-- In a well-formed scope the candidates of a label are found. -/
theorem WellFormed.get?_of_mem (h : s.WellFormed) (hb : (n, ts) ∈ s.bindings) :
    s.get? n = some ts := by
  obtain ⟨before, after, hsplit⟩ := List.append_of_mem hb
  refine List.lookup_eq_some_iff.2 ⟨before, after, hsplit, fun b hbefore => ?_⟩
  have hnodup := h.names_nodup
  rw [names, hsplit, List.map_append, List.nodup_append] at hnodup
  have hne : b.1 ≠ n := hnodup.2.2 b.1 (List.mem_map_of_mem hbefore) n List.mem_cons_self
  simpa using hne.symm

/-- Binding a label leaves the candidates of the others alone. -/
theorem lookup_bindIn_of_ne (h : n ≠ name) (ts : List Ty) (bs : List (String × List Ty)) :
    (bindIn name ts bs).lookup n = bs.lookup n := by
  induction bs with
  | nil => simp [bindIn, h]
  | cons b bs ih =>
    obtain ⟨m, old⟩ := b
    rw [bindIn]
    split
    · next hm =>
      have hne : (n == m) = false := by simpa [hm] using h
      rw [List.lookup_cons, List.lookup_cons, hne]
    · rw [List.lookup_cons, List.lookup_cons, ih]

/-- The candidates of a bound label are the old ones and then types that were not among them. -/
theorem lookup_bindIn_self (name : String) (ts : List Ty) (bs : List (String × List Ty)) :
    ∃ added, (bindIn name ts bs).lookup name = some ((bs.lookup name).getD [] ++ added) ∧
      (∀ t ∈ added, t ∈ ts) ∧ ∀ t ∈ ts, t ∈ (bs.lookup name).getD [] ++ added := by
  induction bs with
  | nil => exact ⟨ts, by simp [bindIn], fun _ => id, fun _ => id⟩
  | cons b bs ih =>
    obtain ⟨m, old⟩ := b
    by_cases hm : m = name
    · subst hm
      -- Only a label that is bound again is rid of repeats, and only in what is new.
      refine ⟨(ts.filter fun t => !old.contains t).eraseDups, ?_, ?_, ?_⟩
      · simp [bindIn, addUnseen]
      · intro t ht
        exact List.mem_of_mem_filter (List.mem_eraseDups.1 ht)
      · intro t ht
        have hold : ((m, old) :: bs).lookup m = some old := by simp
        have hseen : t ∈ addUnseen old ts := mem_addUnseen.2 (.inr ht)
        rw [hold]
        exact hseen
    · have hne : (name == m) = false := by simpa using Ne.symm hm
      have hlookup : ((m, old) :: bs).lookup name = bs.lookup name := by
        rw [List.lookup_cons, hne]
      have hbound : (bindIn name ts ((m, old) :: bs)).lookup name =
          (bindIn name ts bs).lookup name := by
        rw [bindIn, if_neg hm, List.lookup_cons, hne]
      rw [hlookup, hbound]
      exact ih

/-! ## Growth -/

/-- A scope has grown into another: what it had comes first, and in the same order. -/
structure Extends (s t : Scope) : Prop where
  /-- Its labels come first. -/
  names : s.names <+: t.names
  /-- The candidates that a label had come first. -/
  candidates : ∀ n ts, s.get? n = some ts → ∃ us, t.get? n = some us ∧ ts <+: us

/-- A scope that does not change has grown by nothing. -/
theorem Extends.refl (s : Scope) : s.Extends s where
  names := List.prefix_rfl
  candidates _ ts h := ⟨ts, h, List.prefix_rfl⟩

/-- What grows twice has grown. -/
theorem Extends.trans (h : s.Extends t) (h' : t.Extends u) : s.Extends u where
  names := h.names.trans h'.names
  candidates n ts hts := by
    obtain ⟨us, hus, hprefix⟩ := h.candidates n ts hts
    obtain ⟨vs, hvs, hprefix'⟩ := h'.candidates n us hus
    exact ⟨vs, hvs, hprefix.trans hprefix'⟩

/-- What the binding of a label to a list of types makes of a scope. An empty list stands for
`unknown`. -/
structure Adds (s : Scope) (name : String) (types : List Ty) (t : Scope) : Prop where
  /-- A new label comes last. -/
  names : t.names = if name ∈ s.names then s.names else s.names ++ [name]
  /-- The label has the candidates that it had, all the types and nothing else. -/
  bound : ∃ added, t.get? name = some ((s.get? name).getD [] ++ added) ∧
    (∀ u ∈ added, u ∈ candidates types) ∧
    ∀ u ∈ candidates types, u ∈ (s.get? name).getD [] ++ added
  /-- Every other label has the candidates that it had. -/
  others : ∀ n, n ≠ name → t.get? n = s.get? n

/-- A binding adds the types to the label and nothing else. -/
theorem adds_bind (s : Scope) (name : String) (types : List Ty) :
    s.Adds name types (s.bind name types) where
  names := map_fst_bindIn _ _ _
  bound := lookup_bindIn_self _ _ _
  others _ h := lookup_bindIn_of_ne h _ _

/-- A scope to which a label is added has grown. -/
theorem Adds.extends (h : s.Adds name types t) : s.Extends t where
  names := by
    rw [h.names]
    split
    · exact List.prefix_rfl
    · exact List.prefix_append _ _
  candidates n ts hts := by
    by_cases hn : n = name
    · subst hn
      obtain ⟨added, hadded, -⟩ := h.bound
      rw [hts] at hadded
      exact ⟨ts ++ added, hadded, List.prefix_append _ _⟩
    · exact ⟨ts, (h.others n hn).trans hts, List.prefix_rfl⟩

/-- A scope into which another is merged has grown. -/
theorem extends_merge (s t : Scope) : s.Extends (s.merge t) := by
  obtain ⟨bs⟩ := t
  induction bs generalizing s with
  | nil => exact .refl s
  | cons b bs ih => exact (adds_bind s b.1 b.2).extends.trans (ih (s.bind b.1 b.2))

/-! ## Parameters -/

/-- The parameters are the labels in their order, each with its type. -/
def ListsParams (s : Scope) : Prop :=
  ∃ types, List.Forall₂ (fun name type => s.typeOf? name = some type) s.names types ∧
    s.params = ", ".intercalate
      (List.zipWith (fun name type => name ++ ": " ++ type.render) s.names types)

/-- The parameters of a well-formed scope show the type of each label. -/
theorem WellFormed.listsParams (h : s.WellFormed) : s.ListsParams := by
  refine ⟨s.bindings.map fun b => Ty.unionOf b.2, ?_, ?_⟩
  · unfold names
    rw [List.forall₂_map_left_iff, List.forall₂_map_right_iff, List.forall₂_same]
    intro b hb
    rw [typeOf?, h.get?_of_mem hb, Option.map_some]
  · unfold params names
    rw [List.zipWith_map, List.zipWith_self]

/-! ## Programs -/

/-- An operation of a program on scopes at numbered places. -/
inductive Op where
  /-- Binds a label in the scope at a place. -/
  | bind (place : Nat) (name : String) (types : List Ty)
  /-- Merges the scope at another place, or at the same, into that at a place. -/
  | merge (place other : Nat)
  /-- Puts the merge of the scopes at two places at a place. -/
  | concat (place left right : Nat)

namespace Op

/-- The place whose scope an operation replaces. -/
def place : Op → Nat
  | .bind place _ _ | .merge place _ | .concat place _ _ => place

/-- The place whose scope an operation adds to. -/
def base : Op → Nat
  | .bind place _ _ | .merge place _ => place
  | .concat _ left _ => left

/-- The scope that an operation makes of those at the places. -/
def result (scopes : Nat → Scope) : Op → Scope
  | .bind place name types => (scopes place).bind name types
  | .merge place other => (scopes place).merge (scopes other)
  | .concat _ left right => (scopes left).merge (scopes right)

end Op

/-- The scopes at all places after an operation. -/
def step (scopes : Nat → Scope) (op : Op) : Nat → Scope :=
  Function.update scopes op.place (op.result scopes)

/-- The scopes at all places after a program that begins with empty ones. -/
def run (ops : List Op) : Nat → Scope :=
  ops.foldl step fun _ => .empty

/-- A program with one more operation. -/
theorem run_concat (ops : List Op) (op : Op) : run (ops ++ [op]) = step (run ops) op :=
  List.foldl_concat step _ op ops

/-- The place of an operation has its result. -/
theorem run_concat_place (ops : List Op) (op : Op) :
    run (ops ++ [op]) op.place = op.result (run ops) := by
  rw [run_concat]
  exact Function.update_self ..

/-- The result of an operation on well-formed scopes is well formed. -/
theorem wellFormed_result {scopes : Nat → Scope} (h : ∀ place, (scopes place).WellFormed)
    (op : Op) : (op.result scopes).WellFormed := by
  cases op with
  | bind place name types => exact (h place).bind name types
  | merge place other => exact (h place).merge (scopes other)
  | concat place left right => exact (h left).merge (scopes right)

/-- An operation on well-formed scopes leaves well-formed scopes. -/
theorem wellFormed_step {scopes : Nat → Scope} (h : ∀ place, (scopes place).WellFormed) (op : Op)
    (place : Nat) : (step scopes op place).WellFormed := by
  by_cases hplace : place = op.place
  · subst hplace
    have hresult : step scopes op op.place = op.result scopes := Function.update_self ..
    rw [hresult]
    exact wellFormed_result h op
  · have hkept : step scopes op place = scopes place := Function.update_of_ne hplace ..
    rw [hkept]
    exact h place

/-- A program leads to well-formed scopes. -/
theorem wellFormed_run (ops : List Op) (place : Nat) : (run ops place).WellFormed := by
  -- The induction takes the last operation off, for that one acts on scopes a program leads to.
  induction ops using List.reverseRecOn generalizing place with
  | nil => exact .empty
  | append_singleton ops op ih =>
    rw [run_concat]
    exact wellFormed_step ih op place

/-- The result of an operation has grown from the scope that the operation adds to. -/
theorem extends_result (scopes : Nat → Scope) (op : Op) :
    (scopes op.base).Extends (op.result scopes) := by
  cases op with
  | bind place name types => exact (adds_bind (scopes place) name types).extends
  | merge place other => exact extends_merge (scopes place) (scopes other)
  | concat place left right => exact extends_merge (scopes left) (scopes right)

/-- Every scope that a program leads to has distinct labels and no label without candidates, and its
parameters are its labels in order with their types. Whatever operation comes next, what it leaves
at its place has grown from the scope that it adds to, which is the left one of two that are put
together. A label that is bound has all the types that it is bound to, and nothing else is added. -/
theorem programs_grow (ops : List Op) :
    (∀ place, (run ops place).WellFormed ∧ (run ops place).ListsParams) ∧
    (∀ op : Op, (run ops op.base).Extends (run (ops ++ [op]) op.place)) ∧
    ∀ place name types,
      (run ops place).Adds name types (run (ops ++ [.bind place name types]) place) := by
  refine ⟨fun place => ?_, fun op => ?_, fun place name types => ?_⟩
  · have hwell := wellFormed_run ops place
    exact ⟨hwell, hwell.listsParams⟩
  · rw [run_concat_place]
    exact extends_result (run ops) op
  · have hplace := run_concat_place ops (.bind place name types)
    have hbind : run (ops ++ [.bind place name types]) place = (run ops place).bind name types :=
      hplace
    rw [hbind]
    exact adds_bind (run ops place) name types

end Scope

end GrammarTypes
