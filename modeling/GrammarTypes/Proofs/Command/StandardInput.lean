import GrammarTypes.Proofs.Command.Session

/-!
# When the standard input matters

The outcome of a command depends on the standard input exactly when reading the sources in order
comes to it. Whether a source is the standard input is asked of the names that inputs stand for, and
so a pattern that finds a file named by a dash makes the outcome depend on the standard input, and
not on that file.
-/

namespace GrammarTypes.Command

open Session

/-! ## Sources before it -/

/-- Two worlds that differ at most in the standard input. -/
def SameButStdin (w w' : World) : Prop := w' = { w with stdin := w'.stdin }

theorem change_respects (attempt : FileTree → FileTree.Attempt) (reason : FileError → RunError) :
    Respects SameButStdin (change attempt reason) := by
  intro w w' same
  rw [runFrom_change, runFrom_change, same]
  exact ⟨rfl, rfl⟩

/-- A text is delivered without a look at the standard input. -/
theorem deliver_respects (out : Option String) (text : String) :
    Respects SameButStdin (deliver out text) := by
  cases out with
  | none =>
    intro w w' same
    rw [same]
    exact ⟨rfl, rfl⟩
  | some path =>
    have parent : Respects SameButStdin (makeParent path) := by
      unfold makeParent
      split
      · exact .pure ()
      · exact change_respects _ _
    exact parent.bind fun _ _ => change_respects _ _

/-- A command that does not come to the standard input does the same whatever it is. -/
theorem Args.session_sameButStdin {a : Args} {w w' : World} (same : SameButStdin w w')
    (apart : inputsReachStdin w.files a.inputs = false) :
    (a.session.runFrom w).1 = (a.session.runFrom w').1 ∧
      SameButStdin (a.session.runFrom w).2 (a.session.runFrom w').2 := by
  let Same (v v' : World) : Prop := v.files = w.files ∧ SameButStdin v v'
  have reading : Reading w.files Same := {
    left := And.left
    right := fun ⟨files, same⟩ => same ▸ files
    noted := fun _ ⟨files, same⟩ => ⟨files, same ▸ rfl⟩ }
  obtain ⟨result, -, left⟩ := outputText_respects reading (.inr apart) w w' ⟨rfl, same⟩
  rw [Args.session, runFrom_bind, runFrom_bind]
  rcases made : (outputText a).runFrom w with ⟨e | text, v⟩ <;>
    rcases made' : (outputText a).runFrom w' with ⟨e' | text', v'⟩ <;>
    rw [made, made'] at result left
  · obtain rfl := Except.error.inj result
    exact ⟨rfl, left⟩
  · cases result
  · cases result
  · obtain rfl := Except.ok.inj result
    exact deliver_respects a.out text v v' left

/-! ## Coming to it -/

/-- The grammar that is loaded from the standard input. -/
def stdinGrammar (stdin : Content) : Except RunError Grammar := do
  let text ← stdin.readText.mapError .unreadableStdin
  (Grammar.ofText text).mapError (.undecodable stdinLabel)

/-- A standard input that holds no grammar ends the run where it is read. -/
theorem loadSource_stdin_error {path : String} (stdin : Path.isStdin path = true) {w : World}
    {e : RunError} (h : stdinGrammar w.stdin = .error e) :
    (loadSource path).runFrom w = (.error e, { w with stdin := .text "" }) := by
  rw [runFrom_loadSource, runFrom_readSource_stdin stdin]
  rw [stdinGrammar] at h
  cases read : w.stdin.readText with
  | error e' =>
    rw [read] at h
    obtain rfl := Except.error.inj h
    rfl
  | ok text =>
    rw [read] at h
    obtain ⟨failure, undecoded, rfl⟩ := Except.mapError_eq_error_iff.1 h
    dsimp only [Except.mapError_ok, Except.map]
    rw [undecoded]

/-- A file that holds a grammar is loaded, and only the log changes. -/
theorem loadSource_file {t : FileTree} {path : String} (file : Path.isStdin path = false)
    (h : hasGrammar t path = true) :
    ∃ source events, ∀ w : World, w.files = t →
      (loadSource path).runFrom w = (.ok source, { w with log := w.log ++ events }) := by
  obtain ⟨g, h⟩ := Option.isSome_iff_exists.1 h
  obtain ⟨text, read, decoded⟩ := Option.bind_eq_some_iff.1 h
  refine ⟨(path, g), [.loaded path g.rules.length], ?_⟩
  rintro w rfl
  rw [runFrom_loadSource, runFrom_readSource_file file, Except.toOption_eq_some_iff.1 read]
  dsimp only [Except.mapError_ok, Except.map]
  rw [Except.toOption_eq_some_iff.1 decoded]

/-- Where the standard input is come to and holds no grammar, the run ends there, with a log that
does not depend on it. -/
theorem loadSources_reached {t : FileTree} {paths : List String}
    (reached : reachesStdin t paths = true) :
    ∃ events, ∀ (w : World) (e : RunError), w.files = t → stdinGrammar w.stdin = .error e →
      (paths.mapM loadSource).runFrom w =
        (.error e, { w with stdin := .text "", log := w.log ++ events }) := by
  induction paths with
  | nil => cases reached
  | cons path paths ih =>
    simp only [List.mapM_cons]
    cases stdin : Path.isStdin path with
    | true =>
      refine ⟨[], fun w e _ fails => ?_⟩
      rw [runFrom_bind, loadSource_stdin_error stdin fails, List.append_nil]
    | false =>
      rw [reachesStdin, stdin, Bool.false_or, Bool.and_eq_true] at reached
      obtain ⟨source, first, loads⟩ := loadSource_file stdin reached.1
      obtain ⟨rest, ends⟩ := ih reached.2
      refine ⟨first ++ rest, fun w e files fails => ?_⟩
      have ended := ends { w with log := w.log ++ first } e files fails
      rw [runFrom_bind, loads w files]
      dsimp only
      rw [runFrom_bind, ended, List.append_assoc]

/-- A command that comes to the standard input and finds no grammar there tells the error after
lines that do not depend on it. -/
theorem Args.run_reached {a : Args} {t : FileTree} (level : Option Level) (acts : a.noOp = false)
    (reached : inputsReachStdin t a.inputs = true) :
    ∃ lines, ∀ stdin e, stdinGrammar stdin = .error e →
      a.run level t stdin = ⟨1, "", lines ++ errorText e, t⟩ := by
  unfold inputsReachStdin at reached
  split at reached
  · rename_i paths found
    obtain ⟨events, ends⟩ := loadSources_reached reached
    refine ⟨Event.lines level events, fun stdin e fails => ?_⟩
    have ended : (loadInputs a.inputs).runFrom ⟨t, stdin, "", []⟩ =
        (.error e, ⟨t, .text "", "", events⟩) := by
      rw [runFrom_loadInputs, found]
      exact ends ⟨t, stdin, "", []⟩ e rfl fails
    exact Args.run_of_error acts (Args.session_of_error ended)
  · cases reached

/-! ## Commands -/

/-- Whether a command comes to the standard input: it does not only show itself, its inputs are
found, and the sources before the standard input are files that hold grammars. -/
def Args.reachesStdin (a : Args) (t : FileTree) : Bool :=
  !a.noOp && inputsReachStdin t a.inputs

theorem Args.run_eq_of_not_reachesStdin {a : Args} {t : FileTree} (level : Option Level)
    (apart : a.reachesStdin t = false) (stdin stdin' : Content) :
    a.run level t stdin = a.run level t stdin' := by
  cases acts : a.noOp with
  | true => rw [Args.run, Args.run, if_pos acts, if_pos acts]
  | false =>
    rw [Args.reachesStdin, acts, Bool.not_false, Bool.true_and] at apart
    have start : SameButStdin ⟨t, stdin, "", []⟩ ⟨t, stdin', "", []⟩ := rfl
    obtain ⟨result, left⟩ := Args.session_sameButStdin start apart
    rcases ended : a.session.runFrom ⟨t, stdin, "", []⟩ with ⟨e | ⟨⟩, v⟩ <;>
      rcases ended' : a.session.runFrom ⟨t, stdin', "", []⟩ with ⟨e' | ⟨⟩, v'⟩ <;>
      rw [ended, ended'] at result left <;>
      change v' = { v with stdin := v'.stdin } at left
    · obtain rfl := Except.error.inj result
      rw [Args.run_of_error acts ended, Args.run_of_error acts ended', left]
    · cases result
    · cases result
    · rw [Args.run_of_ok acts ended, Args.run_of_ok acts ended', left]

/-- The outcome of a command is the same for all contents of the standard input if and only if the
command does not come to it. -/
theorem Args.run_stdin_irrelevant_iff (a : Args) (level : Option Level) (t : FileTree) :
    (∀ stdin stdin', a.run level t stdin = a.run level t stdin') ↔ a.reachesStdin t = false := by
  refine ⟨fun same => ?_, Args.run_eq_of_not_reachesStdin level⟩
  refine Bool.eq_false_iff.2 fun comes => ?_
  rw [Args.reachesStdin, Bool.and_eq_true, Bool.not_eq_true'] at comes
  obtain ⟨acts, reached⟩ := comes
  -- No text at all and bytes that are no text fail with different messages.
  obtain ⟨lines, outcome⟩ := Args.run_reached level acts reached
  have empty := outcome (.text "") _ rfl
  have bytes := outcome (.binary ⟨#[0xff]⟩) (.unreadableStdin .notText) rfl
  have stderr := congrArg Outcome.stderr (empty.symm.trans ((same _ _).trans bytes))
  have messages := (String.append_right_inj lines).1 stderr
  revert messages
  decide +kernel

/-- A tree with one file, which is named by a dash and holds a grammar without rules. -/
def dashFile : FileTree :=
  ⟨[(["-"], .file (.text "\x7b\"rules\":[]\x7d"))]⟩

/-- A command with a pattern as its only input. -/
def onPattern (pattern : String) : Args := ⟨.declarations false, [pattern], true, false, 256, none⟩

/-- A pattern that finds the file makes the outcome depend on the standard input, though no input is
a dash. -/
theorem Args.run_stdin_relevant_of_pattern :
    "-" ∉ (onPattern "*").inputs ∧ dashFile.has "-" = true ∧
      ((onPattern "*").run none dashFile (.text "")).exitCode = 1 ∧
      ((onPattern "*").run none dashFile (.text "\x7b\"rules\":[]\x7d")).exitCode = 0 := by
  refine ⟨by decide, by decide, ?_, ?_⟩ <;> decide +kernel

end GrammarTypes.Command
