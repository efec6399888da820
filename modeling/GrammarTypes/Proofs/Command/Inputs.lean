import GrammarTypes.Proofs.Command.Session
import Mathlib.Data.Option.NAry

/-!
# Several inputs

A command on two lists of inputs does what it does on each of them. All inputs are found before one
is read, and all are read before one is derived, so the two runs fail at other points than the one;
they agree in whether they fail, and in what comes out. The standard input can be read only once:
this is why it must not be in both lists.
-/

namespace GrammarTypes.Command

variable {α β : Type}

/-! ## Values -/

namespace Session

/-- What a session returns, if it returns. -/
def value? (s : Session α) (w : World) : Option α :=
  (s.runFrom w).1.toOption

theorem value?_bind (s : Session α) (f : α → Session β) (w : World) :
    (s >>= f).value? w = (s.value? w).bind fun a => (f a).value? (s.runFrom w).2 := by
  rw [value?, value?, runFrom_bind]
  rcases s.runFrom w with ⟨e | a, v⟩ <;> rfl

@[simp] theorem value?_map (f : α → β) (s : Session α) (w : World) :
    (f <$> s).value? w = (s.value? w).map f := by
  rw [value?, value?, runFrom_map, Except.toOption_map]

theorem Respects.value?_eq {R : World → World → Prop} {s : Session α} (h : Respects R s)
    {w w' : World} (related : R w w') : s.value? w = s.value? w' :=
  congrArg Except.toOption (h w w' related).1

/-- What is made of two lists is made of each of them, if the second can do without what the first
has changed. -/
theorem value?_mapM_append {f : α → Session β} {xs ys : List α} {w : World}
    (apart : (ys.mapM f).value? ((xs.mapM f).runFrom w).2 = (ys.mapM f).value? w) :
    ((xs ++ ys).mapM f).value? w =
      Option.map₂ (· ++ ·) ((xs.mapM f).value? w) ((ys.mapM f).value? w) := by
  simp only [List.mapM_append, value?_bind _ _ w, bind_pure_comp, value?_map, apart]
  rfl

end Session

open Session

/-! ## Reading -/

section Reading

variable {t : FileTree} {paths before after : List String} {w : World}

/-- Two worlds have the files `t`, whatever else is in them. -/
def SameTree (t : FileTree) (w w' : World) : Prop := w.files = t ∧ w'.files = t

theorem sameTree_reading (t : FileTree) : Reading t (SameTree t) :=
  ⟨And.left, And.right, fun _ same => same⟩

theorem reachesStdin_eq_false (h : ∀ path ∈ paths, Path.isStdin path = false) :
    reachesStdin t paths = false := by
  induction paths with
  | nil => rfl
  | cons path paths ih =>
    rw [reachesStdin, h path List.mem_cons_self, ih fun p hp => h p (List.mem_cons_of_mem path hp)]
    simp

/-- Sources that are files can be read in any world with the same files. -/
theorem loadSources_value?_of_files (h : ∀ path ∈ paths, Path.isStdin path = false) {w' : World}
    (same : SameTree t w w') :
    (paths.mapM loadSource).value? w = (paths.mapM loadSource).value? w' :=
  (loadSources_respects (sameTree_reading t) (.inr (reachesStdin_eq_false h))).value?_eq same

/-- Any sources can be read in any world with the same files and the same standard input. -/
theorem loadSources_value?_of_stdin (paths : List String) {w' : World} (same : SameTree t w w')
    (stdin : w.stdin = w'.stdin) :
    (paths.mapM loadSource).value? w = (paths.mapM loadSource).value? w' := by
  let Same (w w' : World) : Prop := SameTree t w w' ∧ w.stdin = w'.stdin
  have reading : Reading t Same := ⟨fun h => h.1.1, fun h => h.1.2, fun _ h => h⟩
  have taken : Respects Same takeStdin :=
    fun _ _ ⟨same, stdin⟩ => ⟨congrArg Except.ok stdin, same, rfl⟩
  exact (loadSources_respects reading (.inl taken)).value?_eq ⟨same, stdin⟩

/-- The same world, which has the files `t`. -/
def SameWorld (t : FileTree) (w w' : World) : Prop := w = w' ∧ w.files = t

theorem sameWorld_reading (t : FileTree) : Reading t (SameWorld t) :=
  .ofKept (fun _ files => files) fun _ _ files => files

theorem sameWorld_takeStdin (t : FileTree) : Respects (SameWorld t) takeStdin :=
  fun _ _ ⟨same, files⟩ => ⟨same ▸ rfl, same ▸ rfl, files⟩

/-- Reading sources changes no file. -/
theorem loadSources_files (paths : List String) (w : World) :
    ((paths.mapM loadSource).runFrom w).2.files = w.files :=
  (loadSources_respects (sameWorld_reading w.files) (.inl (sameWorld_takeStdin w.files))).keeps rfl

/-- Reading files leaves the standard input as it is. -/
theorem loadSources_stdin (h : ∀ path ∈ paths, Path.isStdin path = false) (w : World) :
    ((paths.mapM loadSource).runFrom w).2.stdin = w.stdin := by
  let Kept (v : World) : Prop := v.files = w.files ∧ v.stdin = w.stdin
  have reading : Reading w.files fun v v' => v = v' ∧ Kept v :=
    .ofKept (fun _ => And.left) fun _ _ kept => kept
  exact ((loadSources_respects reading (.inr (reachesStdin_eq_false h))).keeps ⟨rfl, rfl⟩).2

/-- Sources that have the standard input among them at most once are read as well in two parts. -/
theorem loadSources_append (once : (before ++ after).countP Path.isStdin ≤ 1) (w : World) :
    ((before ++ after).mapM loadSource).value? w =
      Option.map₂ (· ++ ·) ((before.mapM loadSource).value? w)
        ((after.mapM loadSource).value? w) := by
  refine value?_mapM_append ?_
  have same : SameTree w.files ((before.mapM loadSource).runFrom w).2 w :=
    ⟨loadSources_files before w, rfl⟩
  have apart : before.countP Path.isStdin = 0 ∨ after.countP Path.isStdin = 0 := by
    rw [List.countP_append] at once
    omega
  obtain none_before | none_after := apart
  · have files : ∀ path ∈ before, Path.isStdin path = false := by
      simpa using List.countP_eq_zero.1 none_before
    exact loadSources_value?_of_stdin after same (loadSources_stdin files w)
  · have files : ∀ path ∈ after, Path.isStdin path = false := by
      simpa using List.countP_eq_zero.1 none_after
    exact loadSources_value?_of_files files same

end Reading

/-! ## Inputs -/

section Inputs

variable {t : FileTree} {xs ys : List String} {w : World}

/-- Inputs are found as well in two parts. -/
theorem resolveInputs_append (t : FileTree) (xs ys : List String) :
    (resolveInputs t (xs ++ ys)).toOption =
      Option.map₂ (· ++ ·) (resolveInputs t xs).toOption (resolveInputs t ys).toOption := by
  simp only [resolveInputs, List.mapM_append, Except.toOption_map, Except.toOption_bind]
  cases xs.mapM (resolveInput t) <;> cases ys.mapM (resolveInput t) <;> simp

/-- Inputs are loaded by finding them and reading what is found. -/
theorem loadInputs_value? (inputs : List String) (w : World) :
    (loadInputs inputs).value? w =
      (resolveInputs w.files inputs).toOption.bind fun paths =>
        (paths.mapM loadSource).value? w := by
  rw [value?, runFrom_loadInputs]
  cases resolveInputs w.files inputs <;> rfl

theorem loadInputs_append
    (once : ∀ paths, resolveInputs w.files (xs ++ ys) = .ok paths → paths.countP Path.isStdin ≤ 1) :
    (loadInputs (xs ++ ys)).value? w =
      Option.map₂ (· ++ ·) ((loadInputs xs).value? w) ((loadInputs ys).value? w) := by
  have found := resolveInputs_append w.files xs ys
  rw [loadInputs_value?, loadInputs_value?, loadInputs_value?]
  cases before : (resolveInputs w.files xs).toOption with
  | none => rw [found, before]; simp
  | some px =>
    cases after : (resolveInputs w.files ys).toOption with
    | none => rw [found, before, after]; simp
    | some py =>
      rw [before, after] at found
      rw [found]
      exact loadSources_append (once _ (Except.toOption_eq_some_iff.1 found)) w

variable {a : Args} {make : String × Grammar → Session α}

/-- What is made of inputs is made of what is loaded for them, and can as well be made in the world
before they are loaded. -/
theorem eachInput_value? (makes : ∀ source, Respects (SameTree w.files) (make source)) :
    (eachInput a make).value? w =
      ((loadInputs a.inputs).value? w).bind fun sources => (sources.mapM make).value? w := by
  have files : ((loadInputs a.inputs).runFrom w).2.files = w.files :=
    (loadInputs_respects (sameWorld_reading w.files)
      (.inl (sameWorld_takeStdin w.files))).keeps rfl
  have early (sources : List (String × Grammar)) :
      (sources.mapM make).value? ((loadInputs a.inputs).runFrom w).2 =
        (sources.mapM make).value? w :=
    (Respects.mapM fun source _ => makes source).value?_eq ⟨files, rfl⟩
  rw [eachInput, value?_bind]
  simp only [early]

/-- What is made of inputs is made as well in two parts. -/
theorem eachInput_append (makes : ∀ source, Respects (SameTree w.files) (make source))
    (once : ∀ paths, resolveInputs w.files (xs ++ ys) = .ok paths → paths.countP Path.isStdin ≤ 1) :
    (eachInput { a with inputs := xs ++ ys } make).value? w =
      Option.map₂ (· ++ ·) ((eachInput { a with inputs := xs } make).value? w)
        ((eachInput { a with inputs := ys } make).value? w) := by
  have made (before after : List (String × Grammar)) :
      ((before ++ after).mapM make).value? w =
        Option.map₂ (· ++ ·) ((before.mapM make).value? w) ((after.mapM make).value? w) := by
    have all (sources : List (String × Grammar)) :
        Respects (SameTree w.files) (sources.mapM make) := .mapM fun source _ => makes source
    have files := (all before w w ⟨rfl, rfl⟩).2.1
    exact value?_mapM_append ((all after).value?_eq ⟨files, rfl⟩)
  rw [eachInput_value? makes, eachInput_value? makes, eachInput_value? makes,
    loadInputs_append once]
  -- The two runs make the first list before they load the second; a failure is a failure.
  cases (loadInputs xs).value? w with
  | none => rfl
  | some before =>
    cases (loadInputs ys).value? w with
    | none => simp
    | some after => exact made before after

end Inputs

/-! ## Commands -/

section Commands

variable {a : Args} (level : Option Level) (t : FileTree) (stdin : Content)

/-- A command for the standard output ends well if its text can be made, and writes that text. -/
theorem Args.run_stdout (acts : a.noOp = false) (shown : a.out = none) (text : String) :
    ((a.run level t stdin).exitCode = 0 ∧ (a.run level t stdin).stdout = text) ↔
      (outputText a).value? ⟨t, stdin, "", []⟩ = some text := by
  obtain ⟨-, quiet⟩ := outputText_keeps a ⟨t, stdin, "", []⟩
  rw [value?]
  rcases made : (outputText a).runFrom ⟨t, stdin, "", []⟩ with ⟨e | text', v⟩ <;>
    rw [made] at quiet
  · have failed : a.session.runFrom ⟨t, stdin, "", []⟩ = (.error e, v) := by
      rw [Args.session, runFrom_bind, made]
    rw [Args.run_of_error acts failed]
    simp
  · have ended : a.session.runFrom ⟨t, stdin, "", []⟩ =
        (.ok (), { v with stdout := v.stdout ++ text' }) := by
      rw [Args.session, runFrom_bind, made, shown]
      rfl
    rw [Args.run_of_ok acts ended, show v.stdout = "" from quiet]
    simp

variable {make : String × Grammar → Session α} {render : List α → String}

/-- A command that renders what is made of its inputs ends well if that can be made of them, and
writes it rendered. -/
theorem Args.run_renders (acts : a.noOp = false) (shown : a.out = none)
    (renders : outputText a = render <$> eachInput a make) :
    let made? := (eachInput a make).value? ⟨t, stdin, "", []⟩
    ((a.run level t stdin).exitCode = 0 ↔ made?.isSome = true) ∧
      ∀ made, made? = some made → (a.run level t stdin).stdout = render made := by
  intro made?
  have writes (text : String) : ((a.run level t stdin).exitCode = 0 ∧
      (a.run level t stdin).stdout = text) ↔ made?.map render = some text := by
    rw [Args.run_stdout level t stdin acts shown, renders, value?_map]
  refine ⟨⟨fun ended => ?_, fun h => ?_⟩, fun made h => ?_⟩
  · have some_text := (writes _).1 ⟨ended, rfl⟩
    obtain ⟨made, h, -⟩ := Option.map_eq_some_iff.1 some_text
    simp [h]
  · obtain ⟨made, h⟩ := Option.isSome_iff_exists.1 h
    exact ((writes (render made)).2 (by rw [h]; rfl)).1
  · exact ((writes (render made)).2 (by rw [h]; rfl)).2

/-- A command that renders what is made of its inputs can be run in two parts. -/
theorem Args.run_append_renders {xs ys : List String} (acts : a.noOp = false)
    (shown : a.out = none) (makes : ∀ source, Respects (SameTree t) (make source))
    (renders : ∀ inputs,
      outputText { a with inputs } = render <$> eachInput { a with inputs } make)
    (once : ∀ paths, resolveInputs t (xs ++ ys) = .ok paths → paths.countP Path.isStdin ≤ 1) :
    let run (inputs : List String) := ({ a with inputs } : Args).run level t stdin
    let madeOf (inputs : List String) :=
      (eachInput { a with inputs } make).value? ⟨t, stdin, "", []⟩
    ((run (xs ++ ys)).exitCode = 0 ↔ (run xs).exitCode = 0 ∧ (run ys).exitCode = 0) ∧
    ((run (xs ++ ys)).exitCode = 0 → ∃ first second,
      madeOf xs = some first ∧ (run xs).stdout = render first ∧
      madeOf ys = some second ∧ (run ys).stdout = render second ∧
      madeOf (xs ++ ys) = some (first ++ second) ∧
        (run (xs ++ ys)).stdout = render (first ++ second)) := by
  intro run madeOf
  have each (inputs : List String) :
      ((run inputs).exitCode = 0 ↔ (madeOf inputs).isSome = true) ∧
        ∀ made, madeOf inputs = some made → (run inputs).stdout = render made :=
    Args.run_renders level t stdin acts shown (renders inputs)
  have both : madeOf (xs ++ ys) = Option.map₂ (· ++ ·) (madeOf xs) (madeOf ys) :=
    eachInput_append makes once
  rw [(each (xs ++ ys)).1, (each xs).1, (each ys).1]
  cases hx : madeOf xs with
  | none => simp [both, hx]
  | some first =>
    cases hy : madeOf ys with
    | none => simp [both, hx, hy]
    | some second =>
      rw [hx, hy] at both
      refine ⟨by simp [both], fun _ => ⟨first, second, rfl, ?_, rfl, ?_, both, ?_⟩⟩
      · exact (each xs).2 first hx
      · exact (each ys).2 second hy
      · exact (each (xs ++ ys)).2 _ both

/-- For the standard output, a command on two lists of inputs that have the standard input among
them at most once ends well if and only if the commands on each of them do. It then writes the
declarations of the one and of the other, or the list of reports of the one and of the other. -/
theorem Args.run_append_inputs (a : Args) (xs ys : List String) (acts : a.noOp = false)
    (shown : a.out = none)
    (once : ∀ paths, resolveInputs t (xs ++ ys) = .ok paths → paths.countP Path.isStdin ≤ 1) :
    let run (inputs : List String) := ({ a with inputs } : Args).run level t stdin
    let reportsOn (inputs : List String) :=
      (reports { a with inputs }).value? ⟨t, stdin, "", []⟩
    ((run (xs ++ ys)).exitCode = 0 ↔ (run xs).exitCode = 0 ∧ (run ys).exitCode = 0) ∧
    ((run (xs ++ ys)).exitCode = 0 →
      match a.task with
      | .declarations _ => (run (xs ++ ys)).stdout = (run xs).stdout ++ (run ys).stdout
      | .inspect => ∃ first second,
          reportsOn xs = some first ∧ (run xs).stdout = reportText first ∧
          reportsOn ys = some second ∧ (run ys).stdout = reportText second ∧
          reportsOn (xs ++ ys) = some (first ++ second) ∧
            (run (xs ++ ys)).stdout = reportText (first ++ second)) := by
  intro run reportsOn
  cases task : a.task with
  | declarations noOp =>
    have renders (inputs : List String) : outputText { a with inputs } =
        String.join <$> eachInput { a with inputs } (sourceDeclarations a.options) := by
      simp only [outputText, task, declarations, Args.options]
    obtain ⟨ends, parts⟩ := Args.run_append_renders level t stdin acts shown
      (sourceDeclarations_respects (sameTree_reading t) a.options) renders once
    refine ⟨ends, fun ended => ?_⟩
    obtain ⟨first, second, -, hx, -, hy, -, hxy⟩ := parts ended
    calc (run (xs ++ ys)).stdout = String.join (first ++ second) := hxy
      _ = String.join first ++ String.join second := String.join_append
      _ = (run xs).stdout ++ (run ys).stdout := by rw [← hx, ← hy]
  | inspect =>
    have renders (inputs : List String) : outputText { a with inputs } =
        reportText <$> eachInput { a with inputs } (sourceReport a.options) := by
      simp only [outputText, task, reports, Args.options]
    exact Args.run_append_renders level t stdin acts shown
      (sourceReport_respects (sameTree_reading t) a.options) renders once

end Commands

/-- Two files that hold grammars, one of them without rules. -/
def twoGrammars : FileTree :=
  let rule := "\x7b\"name\":\"A\",\"expression\":\x7b\"type\":\"any\"\x7d\x7d"
  ⟨[(["a.json"], .file (.text ("\x7b\"rules\":[" ++ rule ++ "]\x7d"))),
    (["b.json"], .file (.text "\x7b\"rules\":[]\x7d"))]⟩

/-- A command for the standard output, without inputs so far. -/
def onInputs (task : Task) : Args := ⟨task, [], true, false, 256, none⟩

theorem onInputs_once (paths : List String)
    (h : resolveInputs twoGrammars (["b.json", "-"] ++ ["*.json"]) = .ok paths) :
    paths.countP Path.isStdin ≤ 1 := by
  have found : resolveInputs twoGrammars (["b.json", "-"] ++ ["*.json"]) =
    .ok ["b.json", "-", "a.json", "b.json"] := rfl
  obtain rfl := Except.ok.inj (found.symm.trans h)
  decide

/-- A file and the standard input, and then a pattern that finds the file again. -/
theorem Args.run_append_inputs_again :
    let stdin : Content := .text "\x7b\"rules\":[]\x7d"
    let declare (inputs : List String) :=
      ({ onInputs (.declarations false) with inputs } : Args).run none twoGrammars stdin
    let inspect (inputs : List String) :=
      ({ onInputs .inspect with inputs } : Args).run none twoGrammars stdin
    let reportsOn (inputs : List String) :=
      (reports { onInputs .inspect with inputs }).value? ⟨twoGrammars, stdin, "", []⟩
    ((declare (["b.json", "-"] ++ ["*.json"])).exitCode = 0 ∧
      (declare (["b.json", "-"] ++ ["*.json"])).stdout =
        (declare ["b.json", "-"]).stdout ++ (declare ["*.json"]).stdout) ∧
    ((inspect ["b.json", "-"]).exitCode = 0 ∧ (inspect ["*.json"]).exitCode = 0 ∧
      ∃ first second, reportsOn ["b.json", "-"] = some first ∧ reportsOn ["*.json"] = some second ∧
        (inspect (["b.json", "-"] ++ ["*.json"])).stdout = reportText (first ++ second)) := by
  intro stdin declare inspect reportsOn
  have declared : (declare (["b.json", "-"] ++ ["*.json"])).exitCode = 0 := by decide +kernel
  have inspected : (inspect (["b.json", "-"] ++ ["*.json"])).exitCode = 0 := by decide +kernel
  have declaring := Args.run_append_inputs none twoGrammars stdin (onInputs (.declarations false))
    ["b.json", "-"] ["*.json"] rfl rfl onInputs_once
  have inspecting := Args.run_append_inputs none twoGrammars stdin (onInputs .inspect)
    ["b.json", "-"] ["*.json"] rfl rfl onInputs_once
  obtain ⟨first, second, hx, -, hy, -, -, both⟩ := inspecting.2 inspected
  obtain ⟨ended, ended'⟩ := inspecting.1.1 inspected
  exact ⟨⟨declared, declaring.2 declared⟩, ended, ended', first, second, hx, hy, both⟩

end GrammarTypes.Command
