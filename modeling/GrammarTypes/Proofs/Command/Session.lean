import GrammarTypes.Command.Run
import GrammarTypes.Proofs.Outcome

/-!
# Sessions in related worlds

What a session does in one world compared with what it does in another. A session respects a
relation of worlds when related worlds give it the same result and are left related: what it reads
of a world and what it leaves alone are both said by the choice of the relation. Up to the point
where the text to be written is there, a command respects every relation under which the files can
be read, unless it comes to read the standard input and the relation does not allow that.
-/

namespace GrammarTypes.Command

variable {α β : Type}

namespace Session

/-! ## Runs -/

@[simp] theorem runFrom_pure (a : α) (w : World) :
    (pure a : Session α).runFrom w = (.ok a, w) := rfl

/-- A session runs in the world that the one before it leaves, unless that one fails. -/
theorem runFrom_bind (s : Session α) (f : α → Session β) (w : World) :
    (s >>= f).runFrom w =
      match s.runFrom w with
      | (.ok a, v) => (f a).runFrom v
      | (.error e, v) => (.error e, v) := by
  simp only [runFrom, ExceptT.run_bind, StateT.run_bind]
  rcases s.run.run w with ⟨_ | _, _⟩ <;> rfl

/-- A session that fails keeps the ones after it from running. -/
theorem runFrom_bind_of_error {s : Session α} {w v : World} {e : RunError}
    (h : s.runFrom w = (.error e, v)) (f : α → Session β) :
    (s >>= f).runFrom w = (.error e, v) := by
  rw [runFrom_bind, h]

/-- A function of the result leaves the world as it is. -/
@[simp] theorem runFrom_map (f : α → β) (s : Session α) (w : World) :
    (f <$> s).runFrom w = ((s.runFrom w).1.map f, (s.runFrom w).2) := by
  simp only [runFrom, ExceptT.run_map, StateT.run_map]
  rcases s.run.run w with ⟨_ | _, _⟩ <;> rfl

@[simp] theorem runFrom_ofResult (x : Except RunError α) (w : World) :
    (ofResult x).runFrom w = (x, w) := by
  cases x <;> rfl

@[simp] theorem runFrom_note (events : List Event) (w : World) :
    (note events).runFrom w = (.ok (), { w with log := w.log ++ events }) := rfl

@[simp] theorem runFrom_files (w : World) : files.runFrom w = (.ok w.files, w) := rfl

@[simp] theorem runFrom_takeStdin (w : World) :
    takeStdin.runFrom w = (.ok w.stdin, { w with stdin := .text "" }) := rfl

@[simp] theorem runFrom_print (text : String) (w : World) :
    (print text).runFrom w = (.ok (), { w with stdout := w.stdout ++ text }) := rfl

@[simp] theorem runFrom_change (attempt : FileTree → FileTree.Attempt)
    (reason : FileError → RunError) (w : World) :
    (change attempt reason).runFrom w =
      ((attempt w.files).result.mapError reason, { w with files := (attempt w.files).files }) :=
  runFrom_ofResult _ _

/-! ## Related worlds -/

/-- Related worlds give a session the same result and are left related. -/
def Respects (R : World → World → Prop) (s : Session α) : Prop :=
  ∀ w w', R w w' → (s.runFrom w).1 = (s.runFrom w').1 ∧ R (s.runFrom w).2 (s.runFrom w').2

namespace Respects

variable {R : World → World → Prop} {s : Session α}

theorem pure (a : α) : Respects R (Pure.pure a) := fun _ _ related => ⟨rfl, related⟩

theorem ofResult (x : Except RunError α) : Respects R (Session.ofResult x) := by
  intro w w' related
  rw [runFrom_ofResult, runFrom_ofResult]
  exact ⟨rfl, related⟩

theorem map (f : α → β) (h : Respects R s) : Respects R (f <$> s) := by
  intro w w' related
  obtain ⟨same, left⟩ := h w w' related
  rw [runFrom_map, runFrom_map, same]
  exact ⟨rfl, left⟩

/-- Two sessions respect a relation if the first does, and so does the second after every value that
the first can return. -/
theorem bind {f : α → Session β} (hs : Respects R s)
    (hf : ∀ a, (∃ w w', R w w' ∧ (s.runFrom w).1 = .ok a) → Respects R (f a)) :
    Respects R (s >>= f) := by
  intro w w' related
  obtain ⟨same, left⟩ := hs w w' related
  rw [runFrom_bind, runFrom_bind]
  rcases h : s.runFrom w with ⟨result, v⟩
  rcases h' : s.runFrom w' with ⟨result', v'⟩
  rw [h, h'] at same left
  obtain rfl : result = result' := same
  cases result with
  | error e => exact ⟨rfl, left⟩
  | ok a => exact hf a ⟨w, w', related, congrArg Prod.fst h⟩ v v' left

theorem mapM {f : β → Session α} {xs : List β} (h : ∀ x ∈ xs, Respects R (f x)) :
    Respects R (xs.mapM f) := by
  induction xs with
  | nil => exact .pure []
  | cons x xs ih =>
    rw [List.mapM_cons]
    refine (h x List.mem_cons_self).bind fun _ _ => ?_
    exact (ih fun y hy => h y (List.mem_cons_of_mem x hy)).bind fun _ _ => .pure _

/-- A session that respects equality of the worlds with some property keeps the property. -/
theorem keeps {I : World → Prop} (h : Respects (fun w w' => w = w' ∧ I w) s) {w : World}
    (hw : I w) : I (s.runFrom w).2 :=
  (h w w ⟨rfl, hw⟩).2.2

end Respects

/-- A relation under which files can be read: the worlds have the same files `t`, and noting the
same events leaves them related. -/
structure Reading (t : FileTree) (R : World → World → Prop) : Prop where
  /-- The files of the one world. -/
  left : ∀ {w w'}, R w w' → w.files = t
  /-- The files of the other. -/
  right : ∀ {w w'}, R w w' → w'.files = t
  /-- The same events can be noted in both worlds. -/
  noted : ∀ {w w'} (events : List Event), R w w' →
    R { w with log := w.log ++ events } { w' with log := w'.log ++ events }

namespace Reading

variable {t : FileTree} {R : World → World → Prop}

/-- Files can be read under equality of worlds with a property that gives the files and does not
depend on the log. -/
theorem ofKept {I : World → Prop} (files : ∀ v, I v → v.files = t)
    (noted : ∀ v (events : List Event), I v → I { v with log := v.log ++ events }) :
    Reading t fun v v' => v = v' ∧ I v where
  left := fun ⟨_, kept⟩ => files _ kept
  right := fun ⟨same, kept⟩ => files _ (same ▸ kept)
  noted := fun events ⟨same, kept⟩ => ⟨same ▸ rfl, noted _ events kept⟩

theorem note (hR : Reading t R) (events : List Event) : Respects R (note events) :=
  fun _ _ related => ⟨rfl, hR.noted events related⟩

/-- What is done with the files of related worlds is done with `t`. -/
theorem withFiles (hR : Reading t R) {f : FileTree → Session α} (h : Respects R (f t)) :
    Respects R (files >>= f) := by
  have reads : Respects R files := fun w w' related =>
    ⟨congrArg Except.ok ((hR.left related).trans (hR.right related).symm), related⟩
  refine reads.bind fun t' ⟨w, w', related, returned⟩ => ?_
  obtain rfl : t = t' := (hR.left related).symm.trans (Except.ok.inj returned)
  exact h

end Reading

end Session

open Session

/-! ## Reading sources -/

/-- Whether a file can be read and holds a grammar. -/
def hasGrammar (t : FileTree) (path : String) : Bool :=
  ((t.readText path).toOption.bind fun text => (Grammar.ofText text).toOption).isSome

/-- Whether the standard input is come to when sources are read in order: what stands before it are
files that hold grammars. -/
def reachesStdin (t : FileTree) : List String → Bool
  | [] => false
  | path :: paths => Path.isStdin path || (hasGrammar t path && reachesStdin t paths)

/-- Whether the standard input is come to when the files of inputs are read in order. -/
def inputsReachStdin (t : FileTree) (inputs : List String) : Bool :=
  match resolveInputs t inputs with
  | .ok paths => reachesStdin t paths
  | .error _ => false

variable {t : FileTree} {R : World → World → Prop}

theorem readSource_respects (hR : Reading t R) {path : String}
    (stdin : Path.isStdin path = true → Respects R takeStdin) : Respects R (readSource path) := by
  unfold readSource
  split
  · exact (stdin ‹_›).bind fun _ _ => (Respects.ofResult _).bind fun _ _ => .pure _
  · exact hR.withFiles ((Respects.ofResult _).bind fun _ _ => .pure _)

theorem loadSource_respects (hR : Reading t R) {path : String}
    (stdin : Path.isStdin path = true → Respects R takeStdin) : Respects R (loadSource path) := by
  refine (readSource_respects hR stdin).bind fun source _ => ?_
  refine (Respects.ofResult _).bind fun g _ => ?_
  exact (hR.note _).bind fun _ _ => .pure _

/-- A file is read as it is in the tree. -/
theorem runFrom_readSource_file {path : String} (file : Path.isStdin path = false) (w : World) :
    (readSource path).runFrom w =
      (((w.files.readText path).mapError (.unreadable path)).map (path, ·), w) := by
  rw [readSource, if_neg (by simp [file]), runFrom_bind, runFrom_files]
  dsimp only
  rw [bind_pure_comp, runFrom_map, runFrom_ofResult]

/-- The standard input is read to its end. -/
theorem runFrom_readSource_stdin {path : String} (stdin : Path.isStdin path = true) (w : World) :
    (readSource path).runFrom w =
      ((w.stdin.readText.mapError .unreadableStdin).map (stdinLabel, ·),
        { w with stdin := .text "" }) := by
  rw [readSource, if_pos stdin, runFrom_bind, runFrom_takeStdin]
  dsimp only
  rw [bind_pure_comp, runFrom_map, runFrom_ofResult]

/-- What is loaded is the grammar that is decoded from what is read. -/
theorem runFrom_loadSource (path : String) (w : World) :
    (loadSource path).runFrom w =
      match (readSource path).runFrom w with
      | (.error e, v) => (.error e, v)
      | (.ok (label, text), v) =>
        match Grammar.ofText text with
        | .error e => (.error (.undecodable label e), v)
        | .ok g => (.ok (label, g), { v with log := v.log ++ [.loaded label g.rules.length] }) := by
  rw [loadSource, runFrom_bind]
  rcases (readSource path).runFrom w with ⟨e | ⟨label, text⟩, v⟩
  · rfl
  · dsimp only
    rw [runFrom_bind, runFrom_ofResult]
    cases Grammar.ofText text <;> rfl

/-- A file from which a grammar is loaded holds one. -/
theorem hasGrammar_of_loadSource {path : String} (file : Path.isStdin path = false) {w : World}
    {source : String × Grammar} (h : ((loadSource path).runFrom w).1 = .ok source) :
    hasGrammar w.files path = true := by
  rw [runFrom_loadSource, runFrom_readSource_file file] at h
  cases read : w.files.readText path with
  | error e => rw [read] at h; cases h
  | ok text =>
    rw [read] at h
    dsimp only [Except.mapError_ok, Except.map] at h
    split at h
    · cases h
    · rename_i g decoded
      rw [hasGrammar, read, Except.toOption_ok, Option.bind_some, decoded]
      rfl

/-- Sources can be read in order under a relation that allows to take the standard input, or if that
is not come to. -/
theorem loadSources_respects (hR : Reading t R) {paths : List String}
    (stdin : Respects R takeStdin ∨ reachesStdin t paths = false) :
    Respects R (paths.mapM loadSource) := by
  induction paths with
  | nil => exact .pure []
  | cons path paths ih =>
    rw [List.mapM_cons]
    obtain taken | apart := stdin
    · refine (loadSource_respects hR fun _ => taken).bind fun _ _ => ?_
      exact (ih (.inl taken)).bind fun _ _ => .pure _
    · obtain ⟨file, rest⟩ := Bool.or_eq_false_iff.1 apart
      refine (loadSource_respects hR fun h => absurd h (by simp [file])).bind ?_
      -- The rest is read only if there is a grammar in the first file.
      rintro source ⟨w, w', related, loaded⟩
      have first : hasGrammar t path = true :=
        hR.left related ▸ hasGrammar_of_loadSource file loaded
      rw [first, Bool.true_and] at rest
      exact (ih (.inr rest)).bind fun _ _ => .pure _

/-- Inputs are loaded by finding all of them and then reading what is found. -/
theorem runFrom_loadInputs (inputs : List String) (w : World) :
    (loadInputs inputs).runFrom w =
      match resolveInputs w.files inputs with
      | .error e => (.error e, w)
      | .ok paths => (paths.mapM loadSource).runFrom w := by
  rw [loadInputs, runFrom_bind, runFrom_files]
  dsimp only
  rw [runFrom_bind, runFrom_ofResult]
  cases resolveInputs w.files inputs <;> rfl

theorem loadInputs_respects (hR : Reading t R) {inputs : List String}
    (stdin : Respects R takeStdin ∨ inputsReachStdin t inputs = false) :
    Respects R (loadInputs inputs) := by
  refine hR.withFiles ((Respects.ofResult _).bind ?_)
  rintro paths ⟨w, -, -, found⟩
  rw [runFrom_ofResult] at found
  rw [inputsReachStdin, show resolveInputs t inputs = .ok paths from found] at stdin
  exact loadSources_respects hR stdin

/-! ## Making the text -/

theorem deriveSource_respects (hR : Reading t R) (label : String) (d : Derivation α) :
    Respects R (deriveSource label d) :=
  (hR.note _).bind fun _ _ => .ofResult _

theorem sourceDeclarations_respects (hR : Reading t R) (options : EmitOptions)
    (source : String × Grammar) : Respects R (sourceDeclarations options source) :=
  deriveSource_respects hR _ _

theorem sourceReport_respects (hR : Reading t R) (options : EmitOptions)
    (source : String × Grammar) : Respects R (sourceReport options source) :=
  (deriveSource_respects hR _ _).map _

theorem eachInput_respects (hR : Reading t R) {a : Args} {make : String × Grammar → Session α}
    (makes : ∀ source, Respects R (make source))
    (stdin : Respects R takeStdin ∨ inputsReachStdin t a.inputs = false) :
    Respects R (eachInput a make) :=
  (loadInputs_respects hR stdin).bind fun _ _ => .mapM fun source _ => makes source

/-- The text that a command writes is made under every relation under which files can be read, if it
allows to take the standard input or that is not come to. -/
theorem outputText_respects (hR : Reading t R) {a : Args}
    (stdin : Respects R takeStdin ∨ inputsReachStdin t a.inputs = false) :
    Respects R (outputText a) := by
  unfold outputText
  split
  · exact (eachInput_respects hR (sourceDeclarations_respects hR a.options) stdin).map _
  · exact (eachInput_respects hR (sourceReport_respects hR a.options) stdin).map _

/-- Making the text leaves the files and the standard output as they are. -/
theorem outputText_keeps (a : Args) (w : World) :
    ((outputText a).runFrom w).2.files = w.files ∧
      ((outputText a).runFrom w).2.stdout = w.stdout := by
  let Kept (v : World) : Prop := v.files = w.files ∧ v.stdout = w.stdout
  have reading : Reading w.files fun v v' => v = v' ∧ Kept v :=
    .ofKept (fun _ => And.left) fun _ _ kept => kept
  have taken : Respects (fun v v' => v = v' ∧ Kept v) takeStdin :=
    fun _ _ ⟨same, kept⟩ => ⟨same ▸ rfl, same ▸ rfl, kept⟩
  exact (outputText_respects reading (.inl taken)).keeps ⟨rfl, rfl⟩

/-- A failure to load the inputs is the failure of the command. -/
theorem Args.session_of_error {a : Args} {w v : World} {e : RunError}
    (h : (loadInputs a.inputs).runFrom w = (.error e, v)) :
    a.session.runFrom w = (.error e, v) := by
  have each {γ : Type} (make : String × Grammar → Session γ) :
      (eachInput a make).runFrom w = (.error e, v) := runFrom_bind_of_error h _
  have text : (outputText a).runFrom w = (.error e, v) := by
    unfold outputText
    split
    · rw [runFrom_map, declarations, each]
      rfl
    · rw [runFrom_map, reports, each]
      rfl
  exact runFrom_bind_of_error text _

/-! ## Outcomes -/

section Outcomes

variable {a : Args} {level : Option Level} {stdin : Content} {v : World}

/-- A command that does more than show itself and ends well leaves what its session leaves. -/
theorem Args.run_of_ok (acts : a.noOp = false)
    (h : a.session.runFrom ⟨t, stdin, "", []⟩ = (.ok (), v)) :
    a.run level t stdin = ⟨0, v.stdout, Event.lines level v.log, v.files⟩ := by
  rw [Args.run, acts, h]
  rfl

/-- A command that fails leaves what its session leaves, and tells the reason. -/
theorem Args.run_of_error (acts : a.noOp = false) {e : RunError}
    (h : a.session.runFrom ⟨t, stdin, "", []⟩ = (.error e, v)) :
    a.run level t stdin = ⟨1, v.stdout, Event.lines level v.log ++ errorText e, v.files⟩ := by
  rw [Args.run, acts, h]
  rfl

end Outcomes

end GrammarTypes.Command
