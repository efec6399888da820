import GrammarTypes.Proofs.Command.Session
import GrammarTypes.Proofs.FileTree.Changes

/-!
# All or nothing

A command that fails has written nothing: the standard output is empty and every file is as it was,
whether the failure is in an input, in a derivation, in the directory of the output or in the output
itself. A command that ends well has written the whole text to the one place that was asked for.
-/

namespace GrammarTypes.Command

namespace Session

variable {α β : Type} {s : Session α} {w : World} {P : α → World → Prop} {F : World → Prop}

/-- A session that returns leaves a world as `P` says of what it returned, and one that fails leaves
a world as `F` says. -/
def Ends (s : Session α) (w : World) (P : α → World → Prop) (F : World → Prop) : Prop :=
  match s.runFrom w with
  | (.ok a, v) => P a v
  | (.error _, v) => F v

/-- What the first of two sessions fails with, the second must be able to fail with. -/
theorem Ends.bind {f : α → Session β} {Q : β → World → Prop} (hs : s.Ends w P F)
    (hf : ∀ a v, P a v → (f a).Ends v Q F) : (s >>= f).Ends w Q F := by
  rw [Ends, runFrom_bind]
  rw [Ends] at hs
  generalize s.runFrom w = ending at hs
  obtain ⟨e | a, v⟩ := ending
  · exact hs
  · exact hf a v hs

theorem Ends.mono {P' : α → World → Prop} {F' : World → Prop} (hs : s.Ends w P F)
    (hP : ∀ a v, P a v → P' a v) (hF : ∀ v, F v → F' v) : s.Ends w P' F' := by
  rw [Ends] at hs ⊢
  generalize s.runFrom w = ending at hs
  obtain ⟨e | a, v⟩ := ending
  · exact hF v hs
  · exact hP a v hs

end Session

open Session

/-- A world in which nothing has been written since another: no file is changed, though directories
may have been made. -/
def World.Unwritten (w v : World) : Prop :=
  v.stdout = w.stdout ∧ w.files.SameFiles v.files

theorem World.Unwritten.refl (w : World) : w.Unwritten w := ⟨rfl, .refl w.files⟩

/-! ## Up to the text -/

theorem outputText_ends (a : Args) (w : World) :
    (outputText a).Ends w
      (fun text v => ((outputText a).runFrom w).1 = .ok text ∧ v.files = w.files ∧
        v.stdout = w.stdout)
      w.Unwritten := by
  obtain ⟨files, stdout⟩ := outputText_keeps a w
  rw [Ends]
  rcases made : (outputText a).runFrom w with ⟨e | text, v⟩ <;> rw [made] at files stdout
  · exact ⟨stdout, show w.files.SameFiles v.files from files ▸ .refl _⟩
  · exact ⟨rfl, files, stdout⟩

/-! ## Delivery -/

/-- An attempt to make the directory of a file changes no file. -/
theorem makeParent_ends (path : String) (w : World) :
    (makeParent path).Ends w (fun _ => w.Unwritten) w.Unwritten := by
  unfold makeParent
  split
  · exact .refl w
  · rename_i directory _
    have same := FileTree.makeDirectories_sameFiles w.files directory
    rw [Ends, runFrom_change]
    cases (w.files.makeDirectories directory).result with
    | error e => exact ⟨rfl, same⟩
    | ok _ => exact ⟨rfl, same⟩

/-- An attempt to write a file writes all of it or changes no file. -/
theorem writeFile_ends (path text : String) (w : World) :
    (writeFile path text).Ends w
      (fun _ v => v.stdout = w.stdout ∧ w.files.Wrote path (.text text) v.files) w.Unwritten := by
  refine (makeParent_ends path w).bind fun _ v ⟨quiet, same⟩ => ?_
  rw [Ends, runFrom_change]
  cases written : v.files.write path (.text text) with
  | error e => exact ⟨quiet, same⟩
  | ok files => exact ⟨quiet, same.wrote (FileTree.write_wrote written)⟩

/-- A text is where it was asked for, in full, and nothing else is changed. -/
def Delivered (out : Option String) (text : String) (t : FileTree) (stdout : String)
    (files : FileTree) : Prop :=
  match out with
  | none => stdout = text ∧ files = t
  | some path => stdout = "" ∧ t.Wrote path (.text text) files

theorem deliver_ends (out : Option String) (text : String) {w : World} (fresh : w.stdout = "") :
    (deliver out text).Ends w (fun _ v => Delivered out text w.files v.stdout v.files)
      w.Unwritten := by
  cases out with
  | none => simp [Ends, deliver, Delivered, fresh]
  | some path =>
    refine (writeFile_ends path text w).mono ?_ fun _ => id
    rintro _ v ⟨quiet, wrote⟩
    exact ⟨quiet.trans fresh, wrote⟩

/-! ## Commands -/

/-- The session of a command delivers the whole text, or writes nothing. -/
theorem Args.session_ends (a : Args) {w : World} (fresh : w.stdout = "") :
    a.session.Ends w
      (fun _ v => ∃ text, ((outputText a).runFrom w).1 = .ok text ∧
        Delivered a.out text w.files v.stdout v.files)
      w.Unwritten := by
  refine (outputText_ends a w).bind fun text v ⟨made, files, stdout⟩ => ?_
  refine (deliver_ends a.out text (stdout.trans fresh)).mono ?_ ?_
  · intro _ v' delivered
    exact ⟨text, made, files ▸ delivered⟩
  · rintro v' ⟨quiet, same⟩
    exact ⟨quiet.trans stdout, files ▸ same⟩

/-- A command that fails has written nothing to the standard output, and all files are the same with
the same contents; a command that ends well has delivered the whole of its text. -/
theorem Args.run_all_or_nothing (a : Args) (level : Option Level) (t : FileTree)
    (stdin : Content) :
    let o := a.run level t stdin
    (o.exitCode ≠ 0 → o.stdout = "" ∧ t.SameFiles o.files) ∧
      (o.exitCode = 0 → a.noOp = false →
        ∃ text, ((outputText a).runFrom ⟨t, stdin, "", []⟩).1 = .ok text ∧
          Delivered a.out text t o.stdout o.files) := by
  intro o
  cases acts : a.noOp with
  | true =>
    have shown : o = ⟨0, "", a.show, t⟩ := if_pos acts
    rw [shown]
    exact ⟨fun failed => absurd rfl failed, nofun⟩
  | false =>
    have ends : a.session.Ends ⟨t, stdin, "", []⟩ _ _ := a.session_ends rfl
    rw [Ends] at ends
    rcases result : a.session.runFrom ⟨t, stdin, "", []⟩ with ⟨e | ⟨⟩, v⟩ <;> rw [result] at ends
    · rw [show o = _ from Args.run_of_error acts result]
      exact ⟨fun _ => ends, nofun⟩
    · rw [show o = _ from Args.run_of_ok acts result]
      exact ⟨fun failed => absurd rfl failed, fun _ _ => ends⟩

/-- A tree with one file, which holds a grammar without rules. -/
def oneGrammar : FileTree :=
  ⟨[(["g.json"], .file (.text "\x7b\"rules\":[]\x7d"))]⟩

/-- A command that writes declarations for that file to another. -/
def declareInto (path : String) : Args :=
  ⟨.declarations false, ["g.json"], true, false, 256, some path⟩

/-- A name that asks for a directory fails when the directory around it has been made, and the input
itself can be overwritten. -/
theorem Args.run_all_or_nothing_directory :
    let failed := (declareInto "a/b/").run none oneGrammar (.text "")
    let ended := (declareInto "g.json").run none oneGrammar (.text "")
    (failed.exitCode ≠ 0 ∧ failed.files.isDirectory "a" = true ∧
      failed.stdout = "" ∧ oneGrammar.SameFiles failed.files) ∧
    (ended.exitCode = 0 ∧
      ∃ text, ((outputText (declareInto "g.json")).runFrom ⟨oneGrammar, .text "", "", []⟩).1 =
          .ok text ∧
        Delivered (some "g.json") text oneGrammar ended.stdout ended.files) :=
  ⟨⟨by decide, by decide, (Args.run_all_or_nothing _ _ _ _).1 (by decide)⟩,
    by decide, (Args.run_all_or_nothing _ _ _ _).2 (by decide) rfl⟩

end GrammarTypes.Command
