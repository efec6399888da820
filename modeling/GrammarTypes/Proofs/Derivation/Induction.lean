import GrammarTypes.Proofs.Derivation.Result
import GrammarTypes.Proofs.Outcome

/-!
# Induction on results

The eighteen kinds of expression yield their results in eight ways. `Expr.Preserved` lists, one
field for each way, what a property of results needs in order to be handed up from the parts of an
expression to the whole, and `Expr.Preserved.of_result` concludes that every result has it. A
property of derivations is proved by filling in the record.
-/

namespace GrammarTypes

namespace Expr

/-! ## The ways to yield -/

/-- The expressions of which no part is looked into and that have no code. -/
inductive Leaf : Expr → Prop
  | any : Leaf .any
  | charClass (parts : List ClassPart) (inverted ignoreCase : Bool) :
    Leaf (.charClass parts inverted ignoreCase)
  | literal (value : String) (ignoreCase : Bool) : Leaf (.literal value ignoreCase)
  | ruleRef (name : String) : Leaf (.ruleRef name)
  | simpleAnd (e : Expr) : Leaf (.simpleAnd e)
  | simpleNot (e : Expr) : Leaf (.simpleNot e)
  | text (e : Expr) : Leaf (.text e)

/-- The conditions, with their code. -/
inductive Condition : Expr → String → Prop
  | semanticAnd (code : String) : Condition (.semanticAnd code) code
  | semanticNot (code : String) : Condition (.semanticNot code) code

/-- The expressions that yield what their part yields. -/
inductive Passes : Expr → Expr → Prop
  | named (name : String) (e : Expr) : Passes (.named name e) e
  | unlabeled (e : Expr) : Passes (.labeled none e) e

/-- The expressions that make one type of the candidates of their part. -/
inductive Wraps : Expr → Expr → (List Ty → Ty) → Prop
  | group (e : Expr) : Wraps (.group e) e Ty.groupOf
  | zeroOrMore (e : Expr) :
    Wraps (.zeroOrMore e) e fun ts => .array (Ty.itemOf ts [.marker .never])
  | oneOrMore (e : Expr) : Wraps (.oneOrMore e) e fun ts => .array (Ty.itemOf ts [])
  | optional (e : Expr) :
    Wraps (.optional e) e fun ts => Ty.unionOf [Ty.groupOf ts, .marker .null]

/-- The yields of expressions derived one after another. Each has the property `P`, in the scope
that `after` makes of the scope and the yield before it, and with the numbers that those before it
leave. -/
inductive Chain (P : Expr → Scope → Nat → Yield → Prop) (after : Scope → Yield → Scope) :
    List Expr → Scope → Nat → List Yield → Prop
  | nil (s : Scope) (n : Nat) : Chain P after [] s n []
  | cons {e : Expr} {es : List Expr} {s : Scope} {n : Nat} {y : Yield} {ys : List Yield} :
    P e s n y → Chain P after es (after s y) (n + e.helperCount) ys →
      Chain P after (e :: es) s n (y :: ys)

/-- The scope after an element of a sequence: its labels are bound. -/
def bound (s : Scope) (y : Yield) : Scope := s.merge y.labels

/-- The scope after an alternative of a choice: nothing is bound. -/
def unbound (_ : Scope) (_ : Yield) : Scope := .empty

/-- A property that implies another does so along a chain. -/
theorem Chain.imp {P Q : Expr → Scope → Nat → Yield → Prop} {after : Scope → Yield → Scope}
    {es : List Expr} {s : Scope} {n : Nat} {ys : List Yield} (h : Chain P after es s n ys)
    (hPQ : ∀ {e s n y}, P e s n y → Q e s n y) : Chain Q after es s n ys := by
  induction h with
  | nil s n => exact .nil s n
  | cons hy _ ih => exact .cons (hPQ hy) ih

/-- A chain has a yield for each expression. -/
theorem Chain.length_eq {P : Expr → Scope → Nat → Yield → Prop} {after : Scope → Yield → Scope}
    {es : List Expr} {s : Scope} {n : Nat} {ys : List Yield} (h : Chain P after es s n ys) :
    ys.length = es.length := by
  induction h with
  | nil => rfl
  | cons _ _ ih => rw [List.length_cons, List.length_cons, ih]

/-- Each yield of a chain has the property with one of the expressions. -/
theorem Chain.exists_of_mem {P : Expr → Scope → Nat → Yield → Prop}
    {after : Scope → Yield → Scope} {es : List Expr} {s : Scope} {n : Nat} {ys : List Yield}
    (h : Chain P after es s n ys) : ∀ y ∈ ys, ∃ e ∈ es, ∃ s n, P e s n y := by
  induction h with
  | nil => exact fun y hy => nomatch hy
  | @cons e es s n y ys hy _ ih =>
    refine List.forall_mem_cons.2 ⟨⟨e, List.mem_cons_self, s, n, hy⟩, fun z hz => ?_⟩
    obtain ⟨e', he', hP⟩ := ih z hz
    exact ⟨e', List.mem_cons_of_mem e he', hP⟩

/-- Each expression of a chain has the property with one of the yields. -/
theorem Chain.exists_yield_of_mem {P : Expr → Scope → Nat → Yield → Prop}
    {after : Scope → Yield → Scope} {es : List Expr} {s : Scope} {n : Nat} {ys : List Yield}
    (h : Chain P after es s n ys) : ∀ e ∈ es, ∃ y ∈ ys, ∃ s n, P e s n y := by
  induction h with
  | nil => exact fun e he => nomatch he
  | @cons e es s n y ys hy _ ih =>
    refine List.forall_mem_cons.2 ⟨⟨y, List.mem_cons_self, s, n, hy⟩, fun e' he' => ?_⟩
    obtain ⟨z, hz, hP⟩ := ih e' he'
    exact ⟨z, List.mem_cons_of_mem y hz, hP⟩

/-- Each alternative of a choice has the property in the empty scope. -/
theorem Chain.of_unbound {P : Expr → Scope → Nat → Yield → Prop} {es : List Expr} {n : Nat}
    {ys : List Yield} (h : Chain P unbound es .empty n ys) :
    ∀ y ∈ ys, ∃ e ∈ es, ∃ m, P e .empty m y := by
  generalize hs : Scope.empty = s at h
  induction h with
  | nil => exact fun y hy => nomatch hy
  | @cons e es s n y ys hy _ ih =>
    subst hs
    intro z hz
    rcases List.mem_cons.1 hz with rfl | hz
    · exact ⟨e, List.mem_cons_self, n, hy⟩
    · obtain ⟨e', he', hP⟩ := ih rfl z hz
      exact ⟨e', List.mem_cons_of_mem e he', hP⟩

/-- A property of an expression, the scope and number it is derived at, and its yield, that every
kind of expression hands up from its parts. -/
structure Preserved (rule : String) (limit : Nat) (P : Expr → Scope → Nat → Yield → Prop) :
    Prop where
  /-- It holds of the expressions without parts and code. -/
  leaf : ∀ {e s n t}, Leaf e → result rule limit e s n = .ok (.of t) → P e s n (.of t)
  /-- It holds of the conditions. -/
  condition : ∀ {e code s n}, Condition e code →
    P e s n (.ofPredicate (Helper.numberedName rule n) code s)
  /-- It goes through display names and captures without a label. -/
  passes : ∀ {e inner s n y}, Passes e inner → P inner s n y → P e s n y
  /-- It goes through groups, repetitions and options. -/
  wraps : ∀ {e inner f s n y}, Wraps e inner f → P inner s n y → P e s n (y.wrap f)
  /-- It goes through captures with a label. -/
  capture : ∀ {label inner s n y}, P inner s n y →
    P (.labeled (some label) inner) s n (y.capture label)
  /-- It goes through actions. -/
  action : ∀ {code inner s n y}, P inner s (n + 1) y →
    P (.action code inner) s n (y.underAction (Helper.numberedName rule n) code s)
  /-- It goes from the elements of a sequence to the sequence. -/
  sequence : ∀ {es s n ys}, Chain P bound es s n ys →
    P (.sequence es) s n (Yield.sequence ys)
  /-- It goes from the alternatives of a choice to the choice. -/
  choice : ∀ {es s n ys}, Chain P unbound es .empty n ys → P (.choice es) s n (Yield.choice ys)

/-! ## Every result has a preserved property -/

variable {rule : String} {limit : Nat} {P : Expr → Scope → Nat → Yield → Prop}

/-- An expression without parts and code yields a single type. -/
theorem Leaf.result_eq_of {e : Expr} {s : Scope} {n : Nat} {y : Yield} (he : Leaf e)
    (hy : result rule limit e s n = .ok y) : ∃ t, y = .of t := by
  cases he with
  | charClass =>
    obtain ⟨t, -, rfl⟩ := Except.map_eq_ok_iff.1 hy
    exact ⟨t, rfl⟩
  | _ => exact ⟨_, (Except.ok.inj hy).symm⟩

/-- A preserved property holds of what an expression without parts and code yields. -/
theorem Preserved.of_leaf (h : Preserved rule limit P) {e : Expr} {s : Scope} {n : Nat} {y : Yield}
    (he : Leaf e) (hy : result rule limit e s n = .ok y) : P e s n y := by
  obtain ⟨t, rfl⟩ := he.result_eq_of hy
  exact h.leaf he hy

/-- A preserved property goes through groups, repetitions and options. -/
theorem Preserved.of_wraps (h : Preserved rule limit P) {e inner : Expr} {f : List Ty → Ty}
    {s : Scope} {n : Nat} {y : Yield} (he : Wraps e inner f)
    (hinner : ∀ y, result rule limit inner s n = .ok y → P inner s n y)
    (hy : Yield.wrap f <$> result rule limit inner s n = .ok y) : P e s n y := by
  obtain ⟨z, hz, rfl⟩ := Except.map_eq_ok_iff.1 hy
  exact h.wraps he (hinner z hz)

mutual

/-- A preserved property holds of every result. -/
theorem Preserved.of_result (h : Preserved rule limit P) : ∀ (e : Expr) (s : Scope) (n : Nat)
    (y : Yield), result rule limit e s n = .ok y → P e s n y
  | .any, _, _, _, hy => h.of_leaf .any hy
  | .text e, _, _, _, hy => h.of_leaf (.text e) hy
  | .literal v i, _, _, _, hy => h.of_leaf (.literal v i) hy
  | .charClass ps v i, _, _, _, hy => h.of_leaf (.charClass ps v i) hy
  | .ruleRef name, _, _, _, hy => h.of_leaf (.ruleRef name) hy
  | .simpleAnd e, _, _, _, hy => h.of_leaf (.simpleAnd e) hy
  | .simpleNot e, _, _, _, hy => h.of_leaf (.simpleNot e) hy
  | .semanticAnd code, _, _, _, hy => Except.ok.inj hy ▸ h.condition (.semanticAnd code)
  | .semanticNot code, _, _, _, hy => Except.ok.inj hy ▸ h.condition (.semanticNot code)
  | .named name e, s, n, y, hy => h.passes (.named name e) (h.of_result e s n y hy)
  | .labeled none e, s, n, y, hy => h.passes (.unlabeled e) (h.of_result e s n y hy)
  | .group e, s, n, _, hy => h.of_wraps (.group e) (h.of_result e s n) hy
  | .zeroOrMore e, s, n, _, hy => h.of_wraps (.zeroOrMore e) (h.of_result e s n) hy
  | .oneOrMore e, s, n, _, hy => h.of_wraps (.oneOrMore e) (h.of_result e s n) hy
  | .optional e, s, n, _, hy => h.of_wraps (.optional e) (h.of_result e s n) hy
  | .labeled (some label) e, s, n, y, hy => by
    obtain ⟨z, hz, rfl⟩ := Except.map_eq_ok_iff.1 hy
    exact h.capture (h.of_result e s n z hz)
  | .action code e, s, n, y, hy => by
    obtain ⟨z, hz, rfl⟩ := Except.map_eq_ok_iff.1 hy
    exact h.action (h.of_result e s (n + 1) z hz)
  | .sequence es, s, n, y, hy => by
    obtain ⟨ys, hys, rfl⟩ := Except.map_eq_ok_iff.1 hy
    exact h.sequence (h.of_elementResults es s n ys hys)
  | .choice es, s, n, y, hy => by
    obtain ⟨ys, hys, rfl⟩ := Except.map_eq_ok_iff.1 hy
    exact h.choice (h.of_alternativeResults es n ys hys)

/-- A preserved property holds along the elements of a sequence. -/
theorem Preserved.of_elementResults (h : Preserved rule limit P) : ∀ (es : List Expr) (s : Scope)
    (n : Nat) (ys : List Yield), elementResults rule limit es s n = .ok ys →
      Chain P bound es s n ys
  | [], s, n, _, hys => Except.ok.inj hys ▸ .nil s n
  | e :: es, s, n, ys, hys => by
    obtain ⟨y, hy, hrest⟩ := Except.bind_eq_ok_iff.1 hys
    obtain ⟨zs, hzs, hpure⟩ := Except.bind_eq_ok_iff.1 hrest
    obtain rfl := Except.ok.inj hpure
    exact .cons (h.of_result e s n y hy) (h.of_elementResults es _ _ zs hzs)

/-- A preserved property holds along the alternatives of a choice. -/
theorem Preserved.of_alternativeResults (h : Preserved rule limit P) : ∀ (es : List Expr) (n : Nat)
    (ys : List Yield), alternativeResults rule limit es n = .ok ys →
      Chain P unbound es .empty n ys
  | [], n, _, hys => Except.ok.inj hys ▸ .nil .empty n
  | e :: es, n, ys, hys => by
    obtain ⟨y, hy, hrest⟩ := Except.bind_eq_ok_iff.1 hys
    obtain ⟨zs, hzs, hpure⟩ := Except.bind_eq_ok_iff.1 hrest
    obtain rfl := Except.ok.inj hpure
    exact .cons (h.of_result e .empty n y hy) (h.of_alternativeResults es _ zs hzs)

end

/-! ## Results one by one -/

/-- The elements of a sequence succeed together when they do one after another. -/
theorem elementResults_of_chain {es : List Expr} {s : Scope} {n : Nat} {ys : List Yield}
    (h : Chain (fun e s n y => result rule limit e s n = .ok y) bound es s n ys) :
    elementResults rule limit es s n = .ok ys := by
  induction h with
  | nil => rfl
  | cons hy _ ih =>
    rw [elementResults_cons hy]
    exact congrArg (_ <$> ·) ih

/-- The alternatives of a choice succeed together when they do one after another. -/
theorem alternativeResults_of_chain {es : List Expr} {n : Nat} {ys : List Yield}
    (h : Chain (fun e s n y => result rule limit e s n = .ok y) unbound es .empty n ys) :
    alternativeResults rule limit es n = .ok ys := by
  generalize hs : Scope.empty = s at h
  induction h with
  | nil => rfl
  | cons hy _ ih =>
    subst hs
    rw [alternativeResults, hy]
    exact congrArg (· >>= fun zs => pure (_ :: zs)) (ih rfl)

/-- To be the result is handed up from the parts of an expression to the whole. So the elements of a
sequence that succeeds have results one after another, and so have the alternatives of a choice. -/
theorem result_preserved :
    Preserved rule limit fun e s n y => result rule limit e s n = .ok y where
  leaf _ h := h
  condition he := by cases he <;> rfl
  passes he h := by cases he <;> exact h
  wraps he h := by cases he <;> exact congrArg (Yield.wrap _ <$> ·) h
  capture h := congrArg (Yield.capture _ <$> ·) h
  action h := congrArg (Yield.underAction _ _ _ <$> ·) h
  sequence h := congrArg (Yield.sequence <$> ·) (elementResults_of_chain h)
  choice h := congrArg (Yield.choice <$> ·) (alternativeResults_of_chain h)

/-- An expression yields `y` in a scope when the next helper has the given number, whatever was noted
before. -/
def Yields (cx : RuleContext) (e : Expr) (s : Scope) (n : Nat) (y : Yield) : Prop :=
  ∀ log, ((e.derive cx s).runFrom ⟨n, log⟩).1 = .ok y

/-- An expression yields its result. -/
theorem yields_of_result {cx : RuleContext} {e : Expr} {s : Scope} {n : Nat} {y : Yield}
    (h : result cx.rule cx.classLimit e s n = .ok y) : e.Yields cx s n y :=
  fun log => (derive_computes cx e s ⟨n, log⟩).1.trans h

/-- A choice that succeeds is made of what its alternatives yield one after another. -/
theorem exists_of_result_choice {cx : RuleContext} {es : List Expr} {s : Scope} {n : Nat}
    {y : Yield} (h : result cx.rule cx.classLimit (.choice es) s n = .ok y) :
    ∃ ys, Chain (Yields cx) unbound es .empty n ys ∧ y = Yield.choice ys := by
  obtain ⟨ys, hys, rfl⟩ := Except.map_eq_ok_iff.1 h
  exact ⟨ys, (result_preserved.of_alternativeResults es n ys hys).imp yields_of_result, rfl⟩

end Expr

end GrammarTypes
