import GrammarTypes.Proofs.Derivation.Result
import GrammarTypes.Proofs.Expr.Nodes
import GrammarTypes.Proofs.Yield

/-!
# What a derivation logs

The log is kept on the side: it gets an event when a reference is met and another when the helper of
an action is made, while the helpers themselves are handed up and put together from the yields of
the parts. `Derivation.Notes` says of a derivation what it notes by the time it succeeds, with one
rule for each way to put derivations together. By these rules the events of a derivation account for
two lists (`Accounts`): the warnings for the visible references to rules that the grammar does not
have, from left to right, and the traces for the helpers of actions, in the order of the yield.
Labels that are bound again are noted at another level and count for neither.
-/

namespace GrammarTypes

variable {α β : Type}

/-! ## What derivations note -/

namespace Derivation

/-- When the derivation succeeds, it has noted events after those noted before, and the property
holds of its outcome and of these events. -/
def Notes (d : Derivation α) (P : α → List Event → Prop) : Prop :=
  ∀ (ledger ledger' : Ledger) (a : α), d.runFrom ledger = (.ok a, ledger') →
    ∃ events, ledger'.log = ledger.log ++ events ∧ P a events

namespace Notes

variable {P Q : α → List Event → Prop} {R : β → List Event → Prop}

/-- A value notes nothing. -/
theorem pure {a : α} (h : P a []) : (Pure.pure a : Derivation α).Notes P := by
  intro ledger ledger' b hrun
  cases hrun
  exact ⟨[], (List.append_nil _).symm, h⟩

/-- A failure does not succeed. -/
theorem throw (e : InvalidRange) : (MonadExcept.throw e : Derivation α).Notes P := by
  intro ledger ledger' b hrun
  cases hrun

/-- The events given are noted and no others. -/
theorem note (events : List Event) : (Derivation.note events).Notes fun _ xs => xs = events := by
  intro ledger ledger' u hrun
  cases hrun
  exact ⟨events, rfl, rfl⟩

/-- A number is taken without a note. -/
theorem takeName (rule : String) : (Derivation.takeName rule).Notes fun _ xs => xs = [] := by
  intro ledger ledger' name hrun
  cases hrun
  exact ⟨[], (List.append_nil _).symm, rfl⟩

/-- A property that implies another. -/
theorem mono {d : Derivation α} (h : d.Notes P) (hPQ : ∀ a events, P a events → Q a events) :
    d.Notes Q := by
  intro ledger ledger' a hrun
  obtain ⟨events, hlog, hP⟩ := h ledger ledger' a hrun
  exact ⟨events, hlog, hPQ a events hP⟩

/-- A function of the outcome notes nothing more. -/
theorem map {d : Derivation α} {f : α → β} (h : d.Notes fun a events => R (f a) events) :
    (f <$> d).Notes R := by
  intro ledger ledger' b hrun
  rw [runFrom_map] at hrun
  rcases hd : d.runFrom ledger with ⟨e | a, left⟩
  · rw [hd] at hrun
    cases hrun
  · rw [hd] at hrun
    cases hrun
    exact h ledger left a hd

/-- The second derivation notes its events after those of the first. -/
theorem bind {d : Derivation α} {f : α → Derivation β} (hd : d.Notes P)
    (hf : ∀ a xs, P a xs → (f a).Notes fun b ys => R b (xs ++ ys)) : (d >>= f).Notes R := by
  intro ledger ledger' b hrun
  rw [runFrom_bind] at hrun
  rcases hrd : d.runFrom ledger with ⟨e | a, left⟩
  · rw [hrd] at hrun
    cases hrun
  · rw [hrd] at hrun
    -- The second runs from the ledger that the first leaves, with the events of the first in it.
    obtain ⟨xs, hleft, hxs⟩ := hd ledger left a hrd
    obtain ⟨ys, hlog, hys⟩ := hf a xs hxs left ledger' b hrun
    refine ⟨xs ++ ys, ?_, hys⟩
    rw [hlog, hleft, List.append_assoc]

end Notes

end Derivation

/-! ## Events that account for references and helpers -/

/-- The events of a level. -/
def Event.atLevel (level : Level) (events : List Event) : List Event :=
  events.filter fun e => e.level = level

/-- Events whose warnings are those of the given references to no rule, and whose traces are those
of the helpers of actions among the given helpers. -/
structure Accounts (rule : String) (references : List String) (helpers : List Helper)
    (events : List Event) : Prop where
  /-- There is a warning for each reference. -/
  warnings : Event.atLevel .warn events = references.map (.danglingReference rule)
  /-- There is a trace for each helper of an action. -/
  traces : Event.atLevel .trace events =
    (helpers.filter fun h => h.kind = .action).map fun h =>
      .actionWrapped rule h.name h.params.params

namespace Accounts

variable {rule : String} {references references' : List String} {helpers helpers' : List Helper}
  {events events' : List Event}

/-- No events account for nothing. -/
theorem nil : Accounts rule [] [] [] := ⟨rfl, rfl⟩

/-- Events one after another account for what they do one after another. -/
theorem append (h : Accounts rule references helpers events)
    (h' : Accounts rule references' helpers' events') :
    Accounts rule (references ++ references') (helpers ++ helpers') (events ++ events') where
  warnings := by
    have hsplit : Event.atLevel .warn (events ++ events') =
        Event.atLevel .warn events ++ Event.atLevel .warn events' := List.filter_append ..
    rw [hsplit, h.warnings, h'.warnings, List.map_append]
  traces := by
    have hsplit : Event.atLevel .trace (events ++ events') =
        Event.atLevel .trace events ++ Event.atLevel .trace events' := List.filter_append ..
    rw [hsplit, h.traces, h'.traces, List.filter_append, List.map_append]

/-- Labels that are bound again account for nothing. -/
theorem labelRebound (labels : List String) :
    Accounts rule [] [] (labels.map .labelRebound) where
  warnings := by simp [Event.atLevel, Event.level]
  traces := by simp [Event.atLevel, Event.level]

/-- The helper of a condition needs no event. -/
theorem predicate (name code : String) (params : Scope) :
    Accounts rule [] [⟨name, .predicate, params, code⟩] [] := ⟨rfl, rfl⟩

/-- The helper of an action is traced. -/
theorem action (name code : String) (params : Scope) :
    Accounts rule [] [⟨name, .action, params, code⟩] [.actionWrapped rule name params.params] :=
  ⟨rfl, rfl⟩

end Accounts

namespace Expr

open GrammarTypes.Derivation (Notes noteClashes)

/-! ## References to no rule -/

/-- The rule that an expression refers to when it is not among the names. -/
def dangling? (names : List String) : Expr → Option String
  | .ruleRef name => if names.contains name then none else some name
  | _ => none

/-- The rules that visible nodes refer to and that are not among the names, from left to right. -/
def danglingNames (names : List String) (e : Expr) : List String :=
  e.preorder.filterMap fun x => x.expr.dangling? names

/-- The visible references to rules that are not among the names, each with its path. -/
def danglingReferences (names : List String) (e : Expr) : List (List Nat × String) :=
  e.preorder.filterMap fun x => (x.expr.dangling? names).map fun name => (x.path, name)

variable {names : List String} {e inner : Expr} {name : String}

/-- An expression refers to a rule that is not among the names. -/
theorem dangling?_eq_some_iff :
    e.dangling? names = some name ↔ e = .ruleRef name ∧ name ∉ names := by
  cases e with
  | ruleRef rule =>
    have hown : (Expr.ruleRef rule).dangling? names =
        if rule ∈ names then none else some rule := by
      simp [dangling?]
    rw [hown, Expr.ruleRef.injEq]
    split
    · next hrule => exact ⟨nofun, fun ⟨heq, hname⟩ => absurd (heq ▸ hrule) hname⟩
    · next hrule =>
      rw [Option.some.injEq]
      exact ⟨fun heq => ⟨heq, heq ▸ hrule⟩, And.left⟩
  | _ => exact ⟨nofun, fun h => nomatch h.1⟩

/-- The references of parts at consecutive places are listed part by part. -/
theorem filterMap_dangling?_beneathAll (names : List String) : ∀ (i : Nat) (es : List Expr),
    (beneathAll List.cons i es).filterMap (fun x => x.expr.dangling? names) =
      es.flatMap (danglingNames names)
  | _, [] => rfl
  | i, e :: es => by
    have hfirst : (e.preorder.map (Node.under i)).filterMap (fun x => x.expr.dangling? names) =
        e.danglingNames names := by
      rw [List.filterMap_map]
      rfl
    rw [beneathAll, List.filterMap_append, filterMap_dangling?_beneathAll names (i + 1) es,
      List.flatMap_cons, ← hfirst]
    rfl

/-- An expression that is no reference to no rule has the references of its parts. -/
theorem danglingNames_of_parts (hown : e.dangling? names = none) :
    e.danglingNames names = e.parts.flatMap (danglingNames names) := by
  have hbeneath : e.danglingNames names =
      (beneath List.cons e).filterMap fun x => x.expr.dangling? names :=
    List.filterMap_cons_none hown
  rw [hbeneath, beneath_eq, filterMap_dangling?_beneathAll]

/-- An expression that is no reference to no rule and has one part has the references of the
part. -/
theorem danglingNames_of_part (hown : e.dangling? names = none) (hparts : e.parts = [inner]) :
    e.danglingNames names = inner.danglingNames names := by
  rw [danglingNames_of_parts hown, hparts, List.flatMap_singleton]

/-- The list holds the visible references to rules that are not among the names, each once, from
left to right. -/
structure DanglingInOrder (names : List String) (e : Expr) (refs : List (List Nat × String)) :
    Prop where
  /-- The list holds the references with their paths. -/
  mem_iff : ∀ path name,
    (path, name) ∈ refs ↔ e.at? path = some (.ruleRef name) ∧ name ∉ names
  /-- An earlier path comes first. -/
  sorted : refs.Pairwise fun r r' => r.1 < r'.1

/-- The references to no rule are listed from left to right. -/
theorem danglingInOrder (names : List String) (e : Expr) :
    e.DanglingInOrder names (e.danglingReferences names) where
  mem_iff path name := by
    rw [danglingReferences, List.mem_filterMap]
    constructor
    · rintro ⟨x, hx, hname⟩
      obtain ⟨name', hdangling, heq⟩ := Option.map_eq_some_iff.1 hname
      cases heq
      obtain ⟨hexpr, hnew⟩ := dangling?_eq_some_iff.1 hdangling
      rw [← hexpr]
      exact ⟨(e.mem_preorder_iff x).1 hx, hnew⟩
    · rintro ⟨hat, hnew⟩
      refine ⟨⟨path, .ruleRef name⟩, (e.mem_preorder_iff _).2 hat, ?_⟩
      rw [dangling?_eq_some_iff.2 ⟨rfl, hnew⟩, Option.map_some]
  sorted := by
    refine List.pairwise_filterMap.2 (e.preorder_sorted.imp fun {x y} hxy r hr r' hr' => ?_)
    obtain ⟨_, -, rfl⟩ := Option.map_eq_some_iff.1 hr
    obtain ⟨_, -, rfl⟩ := Option.map_eq_some_iff.1 hr'
    exact hxy

/-- The references with their paths are the names that they refer to. -/
theorem map_snd_danglingReferences (names : List String) (e : Expr) :
    (e.danglingReferences names).map Prod.snd = e.danglingNames names := by
  rw [danglingReferences, List.map_filterMap, danglingNames]
  congr 1
  funext x
  cases x.expr.dangling? names <;> rfl

/-! ## Derivations account for references and helpers -/

/-- A reference is warned of when there is no such rule. -/
theorem checkReference_notes (cx : RuleContext) (name : String) :
    (cx.checkReference name).Notes fun _ events =>
      Accounts cx.rule ((Expr.ruleRef name).danglingNames cx.ruleNames) [] events := by
  have hnames : (Expr.ruleRef name).danglingNames cx.ruleNames =
      ((Expr.ruleRef name).dangling? cx.ruleNames).toList := by
    cases hown : (Expr.ruleRef name).dangling? cx.ruleNames <;>
      simp [danglingNames, preorder, beneath, hown]
  rw [hnames, dangling?]
  unfold RuleContext.checkReference
  split
  · exact .pure .nil
  · refine (Notes.note _).mono ?_
    rintro _ _ rfl
    exact ⟨rfl, rfl⟩

/-- A character class notes nothing. -/
theorem classType_notes (cx : RuleContext) (parts : List ClassPart) (inverted ignoreCase : Bool) :
    (cx.classType parts inverted ignoreCase).Notes fun _ events =>
      Accounts cx.rule [] [] events := by
  unfold RuleContext.classType
  cases CharClass.type cx.classLimit parts inverted ignoreCase with
  | ok t => exact .pure .nil
  | error range => exact .throw _

/-- A condition notes nothing and has a helper that is none of an action. -/
theorem predicate_notes (cx : RuleContext) (code : String) (s : Scope) :
    (cx.predicate code s).Notes fun y events => Accounts cx.rule [] y.helpers events := by
  refine .bind (.takeName cx.rule) ?_
  rintro name _ rfl
  exact .pure (.predicate name code s)

/-- Labels that are bound again are noted, and account for nothing. -/
theorem noteClashes_notes (rule : String) (s t : Scope) :
    (noteClashes s t).Notes fun _ events => Accounts rule [] [] events := by
  refine (Notes.note _).mono ?_
  rintro _ _ rfl
  exact .labelRebound _

/-- An action is traced after what its part accounts for. -/
theorem action_notes (cx : RuleContext) (name code : String) (s : Scope) (y : Yield) :
    (cx.action name code s y).Notes fun z events => ∃ own,
      z.helpers = y.helpers ++ own ∧ Accounts cx.rule [] own events := by
  refine .bind (noteClashes_notes cx.rule s y.labels) fun _ xs hxs => ?_
  refine .bind (.note _) ?_
  rintro _ _ rfl
  exact .pure ⟨_, rfl, hxs.append (.action name code _)⟩

mutual

/-- The events of a derivation account for its references and its helpers. -/
theorem derive_notes (cx : RuleContext) : ∀ (e : Expr) (s : Scope),
    (e.derive cx s).Notes fun y events =>
      Accounts cx.rule (e.danglingNames cx.ruleNames) y.helpers events
  | .any, _ | .text _, _ | .literal .., _ | .simpleAnd _, _ | .simpleNot _, _ => .pure .nil
  | .charClass parts inverted ignoreCase, _ => .map (classType_notes cx parts inverted ignoreCase)
  | .ruleRef name, _ => .bind (checkReference_notes cx name) fun _ xs hxs =>
    .pure ((List.append_nil xs).symm ▸ hxs)
  | .semanticAnd code, s | .semanticNot code, s => predicate_notes cx code s
  | .named _ e, s | .labeled none e, s => by
    rw [danglingNames_of_part rfl rfl]
    exact derive_notes cx e s
  | .group e, s | .zeroOrMore e, s | .oneOrMore e, s | .optional e, s
  | .labeled (some _) e, s => by
    rw [danglingNames_of_part rfl rfl]
    exact .map (derive_notes cx e s)
  | .action code e, s => by
    rw [danglingNames_of_part rfl rfl]
    refine .bind (.takeName cx.rule) ?_
    rintro name _ rfl
    refine .bind (derive_notes cx e s) fun y xs hxs => ?_
    refine (action_notes cx name code s y).mono ?_
    rintro z ys ⟨own, hhelpers, hown⟩
    -- The trace comes after the events of the part, as the helper comes after its helpers.
    have haccounts := hxs.append hown
    rw [List.append_nil] at haccounts
    rw [hhelpers]
    exact haccounts
  | .sequence es, s => by
    rw [danglingNames_of_parts rfl]
    refine .map ((deriveElements_notes cx es s .empty).mono fun ys events hys => ?_)
    rw [Yield.helpers_sequence]
    exact hys
  | .choice es, _ => by
    rw [danglingNames_of_parts rfl]
    refine .map ((deriveAlternatives_notes cx es .empty).mono fun ys events hys => ?_)
    rw [Yield.helpers_choice]
    exact hys

/-- The events of the elements of a sequence account for them one after another. -/
theorem deriveElements_notes (cx : RuleContext) : ∀ (es : List Expr) (s collected : Scope),
    (deriveElements cx es s collected).Notes fun ys events =>
      Accounts cx.rule (es.flatMap (danglingNames cx.ruleNames)) (ys.flatMap Yield.helpers) events
  | [], _, _ => .pure .nil
  | e :: es, s, collected => by
    refine .bind (derive_notes cx e s) fun y xs hxs => ?_
    refine .bind (noteClashes_notes cx.rule s y.labels) fun _ us hus => ?_
    refine .bind (noteClashes_notes cx.rule collected y.labels) fun _ vs hvs => ?_
    refine .bind (deriveElements_notes cx es _ _) fun ys ws hws => .pure ?_
    -- Labels that clash are noted between an element and the next, and they count for neither list.
    have haccounts := hxs.append (hus.append (hvs.append hws))
    rw [List.append_nil, List.flatMap_cons, List.flatMap_cons]
    exact haccounts

/-- The events of the alternatives of a choice account for them one after another. -/
theorem deriveAlternatives_notes (cx : RuleContext) : ∀ (es : List Expr) (collected : Scope),
    (deriveAlternatives cx es collected).Notes fun ys events =>
      Accounts cx.rule (es.flatMap (danglingNames cx.ruleNames)) (ys.flatMap Yield.helpers) events
  | [], _ => .pure .nil
  | e :: es, collected => by
    refine .bind (derive_notes cx e .empty) fun y xs hxs => ?_
    refine .bind (noteClashes_notes cx.rule collected y.labels) fun _ vs hvs => ?_
    refine .bind (deriveAlternatives_notes cx es _) fun ys ws hws => .pure ?_
    have haccounts := hxs.append (hvs.append hws)
    rw [List.append_nil, List.flatMap_cons, List.flatMap_cons]
    exact haccounts

end

/-- A derivation that succeeds adds events to the log. Its warnings are one for each visible
reference to a rule that there is not, from left to right, and name the rule that is derived and the
one referred to. Its traces are one for each helper of an action that it yields, in their order, and
show the name and the parameters of the helper. -/
theorem log_accounts (cx : RuleContext) (e : Expr) (s : Scope) (ledger ledger' : Ledger) (y : Yield)
    (hrun : (e.derive cx s).runFrom ledger = (.ok y, ledger')) :
    ∃ events refs, ledger'.log = ledger.log ++ events ∧ e.DanglingInOrder cx.ruleNames refs ∧
      Event.atLevel .warn events = refs.map (fun r => .danglingReference cx.rule r.2) ∧
      (Event.atLevel .warn events).map Event.message = refs.map (fun r =>
        "rule `" ++ cx.rule ++ "` references undefined rule `" ++ r.2 ++ "`") ∧
      Event.atLevel .trace events = (y.helpers.filter fun h => h.kind = .action).map
        (fun h => .actionWrapped cx.rule h.name h.params.params) ∧
      (Event.atLevel .trace events).map Event.message =
        (y.helpers.filter fun h => h.kind = .action).map fun h =>
          "rule `" ++ cx.rule ++ "`: helper " ++ h.name ++ "(" ++ h.params.params ++ ")" := by
  obtain ⟨events, hlog, haccounts⟩ := derive_notes cx e s ledger ledger' y hrun
  have hwarnings := haccounts.warnings
  rw [← map_snd_danglingReferences, List.map_map] at hwarnings
  refine ⟨events, e.danglingReferences cx.ruleNames, hlog, danglingInOrder cx.ruleNames e,
    hwarnings, ?_, haccounts.traces, ?_⟩
  · rw [hwarnings, List.map_map]
    rfl
  · rw [haccounts.traces, List.map_map]
    rfl

/-- References to rules that there are not, one of them repeated and one beneath a text, beside
actions in a choice and in another action. -/
def danglingAround : Expr :=
  .sequence [.labeled (some "a") (.ruleRef "X"),
    .choice [.action "first" (.labeled (some "b") (.ruleRef "X")), .semanticAnd "test"],
    .text (.ruleRef "Hidden"),
    .action "outer"
      (.sequence [.labeled (some "a") (.ruleRef "Y"), .action "inner" (.ruleRef "R")])]

/-- The reference beneath the text is not warned of, the repeated one is warned of twice, and the
inner action is traced before the outer one although its number comes after. -/
theorem log_accounts_around : ∃ y ledger',
    (danglingAround.derive ⟨"R", ["R"], 256⟩ (Scope.empty.bind "s" [.text])).runFrom {} =
        (.ok y, ledger') ∧
      (∃ refs, danglingAround.DanglingInOrder ["R"] refs ∧
        Event.atLevel .warn ledger'.log = refs.map fun r => .danglingReference "R" r.2) ∧
      Event.atLevel .warn ledger'.log = [.danglingReference "R" "X", .danglingReference "R" "X",
        .danglingReference "R" "Y"] ∧
      (Event.atLevel .trace ledger'.log).map Event.message =
        ["rule `R`: helper peg$parseR$1(b: X)",
          "rule `R`: helper peg$parseR$4(s: string, a: X|Y, b: X)",
          "rule `R`: helper peg$parseR$3(s: string, a: X|Y, b: X)"] := by
  obtain ⟨events, refs, hlog, hrefs, hwarnings, -, -, -⟩ := log_accounts ⟨"R", ["R"], 256⟩
    danglingAround (Scope.empty.bind "s" [.text]) {} _ _ rfl
  obtain rfl : _ = events := hlog
  exact ⟨_, _, rfl, ⟨refs, hrefs, hwarnings⟩, by decide +kernel, by decide +kernel⟩

end Expr

end GrammarTypes
