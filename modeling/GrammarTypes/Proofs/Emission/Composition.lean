import GrammarTypes.Proofs.Emission

/-!
# Emission rule by rule

The text of a grammar and the summaries of its rules come from the same declarations, and each of
these is made from one rule alone. So a grammar is emitted when each of its rules is, it fails as
the first rule that fails, and its text is that of the rules in order after what stands before them.
The text of a rule can be put together again from its summary (`Declaration.render_eq`).
`Grammar.Composes` says all of this of the text of a grammar, its summaries and the texts of its
rules.
-/

namespace GrammarTypes

/-! ## Outcomes of lists -/

namespace Except

variable {ε α β γ : Type}

/-- A function of an outcome has a value when the outcome has one. -/
theorem exists_map_eq_ok_iff {f : α → β} {x : Except ε α} :
    (∃ b, f <$> x = .ok b) ↔ ∃ a, x = .ok a := by
  simp only [map_eq_ok_iff]
  constructor
  · rintro ⟨_, a, ha, -⟩
    exact ⟨a, ha⟩
  · rintro ⟨a, ha⟩
    exact ⟨f a, a, ha, rfl⟩

/-- A list of outcomes has values when each has one. -/
theorem exists_mapM_eq_ok_iff {f : α → Except ε β} {xs : List α} :
    (∃ ys, xs.mapM f = .ok ys) ↔ ∀ x ∈ xs, ∃ y, f x = .ok y := by
  simp only [mapM_eq_ok_iff]
  induction xs with
  | nil => simp
  | cons x xs ih =>
    rw [List.forall_mem_cons, ← ih]
    constructor
    · rintro ⟨_, h⟩
      obtain ⟨y, ys, hy, hys, rfl⟩ := List.forall₂_cons_left_iff.1 h
      exact ⟨⟨y, hy⟩, ys, hys⟩
    · rintro ⟨⟨y, hy⟩, ys, hys⟩
      exact ⟨y :: ys, .cons hy hys⟩

/-- The first element of a list on which the function fails, fails with the given error. -/
def FirstError (f : α → Except ε β) (xs : List α) (err : ε) : Prop :=
  ∃ before x after, xs = before ++ x :: after ∧ (∀ z ∈ before, ∃ y, f z = .ok y) ∧
    f x = .error err

/-- The first failure of a list is at its head, or it is that of the rest when the head succeeds. -/
theorem firstError_cons {f : α → Except ε β} {x : α} {xs : List α} {err : ε} :
    FirstError f (x :: xs) err ↔
      f x = .error err ∨ ∃ y, f x = .ok y ∧ FirstError f xs err := by
  constructor
  · rintro ⟨before, z, after, hxs, hbefore, hz⟩
    cases before with
    | nil =>
      obtain ⟨rfl, -⟩ := List.cons.inj hxs
      exact .inl hz
    | cons w before =>
      obtain ⟨rfl, rfl⟩ := List.cons.inj hxs
      obtain ⟨⟨y, hy⟩, hrest⟩ := List.forall_mem_cons.1 hbefore
      exact .inr ⟨y, hy, before, z, after, rfl, hrest, hz⟩
  · rintro (hx | ⟨y, hy, before, z, after, rfl, hbefore, hz⟩)
    · exact ⟨[], x, xs, rfl, by simp, hx⟩
    · exact ⟨x :: before, z, after, rfl, List.forall_mem_cons.2 ⟨⟨y, hy⟩, hbefore⟩, hz⟩

/-- A function of the outcomes makes no difference to which is the first to fail. -/
theorem firstError_map {f : α → Except ε β} {h : β → γ} {xs : List α} {err : ε} :
    FirstError (fun x => h <$> f x) xs err ↔ FirstError f xs err := by
  simp only [FirstError, exists_map_eq_ok_iff, map_eq_error_iff]

/-- A list of outcomes fails as the first that fails. -/
theorem mapM_eq_error_iff {f : α → Except ε β} {xs : List α} {err : ε} :
    xs.mapM f = .error err ↔ FirstError f xs err := by
  induction xs with
  | nil =>
    constructor
    · exact fun h => nomatch h
    · rintro ⟨before, x, after, hxs, -⟩
      simp at hxs
  | cons x xs ih =>
    rw [List.mapM_cons, firstError_cons, ← ih]
    cases f x with
    | error e => simp [Bind.bind, Except.bind]
    | ok y => cases xs.mapM f <;> simp [Bind.bind, Except.bind, Pure.pure, Except.pure]

end Except

/-! ## Texts and their parts -/

/-- The code of an initializer as it is written: each block verbatim, with a line break after it. -/
def Initializer.text : Option Initializer → String
  | none => ""
  | some (.one code) => code ++ "\n"
  | some (.many codes) => String.join (codes.map (· ++ "\n"))

/-- The text of a rule, put together from what its summary shows. -/
def Summary.text (s : Summary) : String :=
  "export type " ++ s.name ++ " = " ++ s.exportedType ++ ";\n" ++
    String.join (s.helpers.map fun h => h.declaration ++ "\n")

/-- The text of a declaration shows what its summary shows. -/
theorem Declaration.render_eq (d : Declaration) : d.render = d.summary.text := by
  have hlines : (d.summary.helpers.map fun h => h.declaration ++ "\n") =
      (d.ruleHelper?.toList ++ d.nestedHelpers).map fun h => h.render ++ "\n" :=
    List.map_map
  have hsummary : d.summary.text = "export type " ++ d.name ++ " = " ++ d.exportedType.render ++
      ";\n" ++ String.join (d.summary.helpers.map fun h => h.declaration ++ "\n") :=
    rfl
  rw [hsummary, hlines, List.map_append, String.join_append]
  unfold render
  -- The text has a line for the helper of the rule or none, and the summary a list of one or none.
  cases d.ruleHelper? with
  | none =>
    simp only [Option.toList_none, List.map_nil, String.join_nil, String.append_empty,
      String.empty_append]
  | some h =>
    simp only [Option.toList_some, List.map_singleton, String.join_cons, String.join_nil,
      String.append_empty, String.append_assoc]

/-- The code blocks of a grammar are written as those of its two initializers. -/
theorem Grammar.join_codeBlocks (g : Grammar) :
    String.join (g.codeBlocks.map (· ++ "\n")) =
      Initializer.text g.topLevelInitializer ++ Initializer.text g.initializer := by
  have hblocks : ∀ i : Option Initializer,
      String.join (((i.map Initializer.blocks).getD []).map (· ++ "\n")) = Initializer.text i := by
    rintro (_ | _ | _) <;> simp [Initializer.text, Initializer.blocks]
  rw [codeBlocks, List.flatMap_cons, List.flatMap_singleton, List.map_append, String.join_append,
    hblocks, hblocks]

/-! ## Emission from declarations -/

/-- A rule is emitted as it is declared. -/
theorem Rule.runFrom_emit (options : EmitOptions) (ruleNames : List String) (rule : Rule)
    (ledger : Ledger) :
    ((rule.emit options ruleNames).runFrom ledger).1 =
      Declaration.render <$> rule.declared options.classLimit := by
  rw [Rule.emit, Derivation.runFrom_map, runFrom_declare]
  rfl

namespace Grammar

/-- A grammar is emitted as its rules are declared. -/
theorem runFrom_emit (options : EmitOptions) (g : Grammar) (ledger : Ledger) :
    ((g.emit options).runFrom ledger).1 =
      (fun ds => g.header options ++ String.join (ds.map Declaration.render)) <$>
        g.rules.mapM (Rule.declared options.classLimit) := by
  rw [← runFrom_declarations options g ledger]
  exact congrArg Prod.fst (Derivation.runFrom_map _ (g.declarations options) ledger)

/-- A grammar is summarized as its rules are declared. -/
theorem runFrom_summaries (options : EmitOptions) (g : Grammar) (ledger : Ledger) :
    ((g.summaries options).runFrom ledger).1 =
      List.map Declaration.summary <$> g.rules.mapM (Rule.declared options.classLimit) := by
  rw [← runFrom_declarations options g ledger]
  exact congrArg Prod.fst (Derivation.runFrom_map _ (g.declarations options) ledger)

/-- The text of a grammar and the summaries of its rules go with the texts of the rules alone. -/
structure Composes (options : EmitOptions) (g : Grammar) (alone : Rule → Except InvalidRange String)
    (whole : Except InvalidRange String) (views : Except InvalidRange (List Summary)) : Prop where
  /-- The grammar is emitted when each of its rules is. -/
  emits_iff : (∃ text, whole = .ok text) ↔ ∀ rule ∈ g.rules, ∃ text, alone rule = .ok text
  /-- The grammar is summarized when each of its rules is emitted. -/
  views_iff : (∃ ss, views = .ok ss) ↔ ∀ rule ∈ g.rules, ∃ text, alone rule = .ok text
  /-- The grammar is not emitted, with the error of the first rule that is not. -/
  emits_error_iff : ∀ err, whole = .error err ↔ Except.FirstError alone g.rules err
  /-- The grammar is not summarized, with the error of the first rule that is not emitted. -/
  views_error_iff : ∀ err, views = .error err ↔ Except.FirstError alone g.rules err
  /-- The text is the preamble, the code of the two initializers, and the texts of the rules. -/
  layout : ∀ text, whole = .ok text → ∃ texts,
    List.Forall₂ (fun rule t => alone rule = .ok t) g.rules texts ∧
      text = (if options.preamble then preamble else "") ++
        (if options.initializers then
          Initializer.text g.topLevelInitializer ++ Initializer.text g.initializer else "") ++
        String.join texts
  /-- The text of each rule is that of the summary at its place. -/
  summarized : ∀ ss, views = .ok ss →
    List.Forall₂ (fun rule s => s.name = rule.name ∧ alone rule = .ok s.text) g.rules ss

/-- A grammar is emitted, and summarized, rule by rule: all of its rules or none. -/
theorem emission_composes (options : EmitOptions) (g : Grammar)
    (ledger ledger₁ ledger₂ : Ledger) :
    g.Composes options (fun rule => ((rule.emit options g.ruleNames).runFrom ledger).1)
      ((g.emit options).runFrom ledger₁).1 ((g.summaries options).runFrom ledger₂).1 := by
  have halone : (fun rule : Rule => ((rule.emit options g.ruleNames).runFrom ledger).1) =
      fun rule => Declaration.render <$> rule.declared options.classLimit :=
    funext fun rule => rule.runFrom_emit options g.ruleNames ledger
  rw [halone, runFrom_emit, runFrom_summaries]
  constructor
  case emits_iff => simp only [Except.exists_map_eq_ok_iff, Except.exists_mapM_eq_ok_iff]
  case views_iff => simp only [Except.exists_map_eq_ok_iff, Except.exists_mapM_eq_ok_iff]
  case emits_error_iff =>
    intro err
    rw [Except.map_eq_error_iff, Except.mapM_eq_error_iff, Except.firstError_map]
  case views_error_iff =>
    intro err
    rw [Except.map_eq_error_iff, Except.mapM_eq_error_iff, Except.firstError_map]
  case layout =>
    intro text htext
    obtain ⟨ds, hds, rfl⟩ := Except.map_eq_ok_iff.1 htext
    refine ⟨ds.map Declaration.render, ?_, ?_⟩
    · refine List.forall₂_map_right_iff.2 ((Except.mapM_eq_ok_iff.1 hds).imp fun rule d hd => ?_)
      exact Except.map_eq_ok_iff.2 ⟨d, hd, rfl⟩
    · rw [header, join_codeBlocks]
  case summarized =>
    intro ss hss
    obtain ⟨ds, hds, rfl⟩ := Except.map_eq_ok_iff.1 hss
    refine List.forall₂_map_right_iff.2 ((Except.mapM_eq_ok_iff.1 hds).imp fun rule d hd => ?_)
    obtain ⟨y, -, rfl⟩ := Except.map_eq_ok_iff.1 hd
    exact ⟨rfl, Except.map_eq_ok_iff.2 ⟨_, hd, Declaration.render_eq _⟩⟩

end Grammar

end GrammarTypes
