import GrammarTypes.FileTree.Basic
import GrammarTypes.Proofs.Outcome

/-!
# Changes of a file tree

What the operations that change a file tree leave as it was. An attempt to make directories changes
no file, also when it fails half-way; a file that is written can be read again, and no other file is
touched.
-/

namespace GrammarTypes.FileTree

variable {t t' t'' : FileTree} {key : Key} {e : Entry}

/-! ## One entry -/

/-- A key whose entry can change: those that are always directories are not among them. -/
theorem get?_eq_lookup (h : t.get? key ≠ some .directory) (t' : FileTree) :
    t'.get? key = t'.entries.lookup key := by
  by_cases always : (key.all (· = "..") || key = ["/"]) = true
  · exact absurd (if_pos always) h
  · exact if_neg always

/-- An association list without the entries of a key has the other entries. -/
theorem lookup_filter_ne {k : Key} (h : k ≠ key) (entries : List (Key × Entry)) :
    (entries.filter fun (k, _) => k ≠ key).lookup k = entries.lookup k := by
  induction entries with
  | nil => rfl
  | cons entry entries ih => grind

/-- An association list without the entries of a key has none for it. -/
theorem lookup_filter_self (entries : List (Key × Entry)) :
    (entries.filter fun (k, _) => k ≠ key).lookup key = none := by
  induction entries with
  | nil => rfl
  | cons entry entries ih => grind

/-- Once an entry is set, its key leads to it. -/
theorem get?_set_self (h : t.get? key ≠ some .directory) : (t.set key e).get? key = some e := by
  rw [get?_eq_lookup h, set, List.lookup_append, lookup_filter_self]
  simp

/-- Once an entry is set, the other keys lead to what they led to. -/
theorem get?_set_of_ne {k : Key} (h : k ≠ key) : (t.set key e).get? k = t.get? k := by
  have kept : (t.set key e).entries.lookup k = t.entries.lookup k := by
    rw [set, List.lookup_append, lookup_filter_ne h, List.lookup_cons, beq_false_of_ne h]
    simp
  simp only [get?, kept]

/-! ## Directories -/

/-- Two trees have the same files with the same contents, whatever their directories are. -/
def SameFiles (t t' : FileTree) : Prop :=
  ∀ key content, t'.get? key = some (.file content) ↔ t.get? key = some (.file content)

theorem SameFiles.refl (t : FileTree) : t.SameFiles t := fun _ _ => Iff.rfl

theorem SameFiles.trans (h : t.SameFiles t') (h' : t'.SameFiles t'') : t.SameFiles t'' :=
  fun key content => (h' key content).trans (h key content)

/-- A directory where nothing was changes no file. -/
theorem sameFiles_set_directory (h : t.get? key = none) : t.SameFiles (t.set key .directory) := by
  intro k content
  by_cases at_key : k = key
  · rw [at_key, get?_set_self (by simp [h]), h]
    simp
  · rw [get?_set_of_ne at_key]

theorem makeDirectory_sameFiles {cs : List String} (h : t.makeDirectory key cs = .ok t') :
    t.SameFiles t' := by
  obtain ⟨made, -, h⟩ := Except.bind_eq_ok_iff.1 h
  split at h
  · obtain rfl := Except.ok.inj h
    exact SameFiles.refl t
  · cases h
  · obtain rfl := Except.ok.inj h
    exact sameFiles_set_directory ‹_›

/-- An attempt at a single change leaves the files alone if the change does. -/
theorem attempt_sameFiles {change : Except FileError FileTree}
    (h : ∀ t', change = .ok t' → t.SameFiles t') : t.SameFiles (t.attempt change).files := by
  cases change with
  | ok changed => exact h changed rfl
  | error e => exact SameFiles.refl t

theorem makeAlong_sameFiles (t : FileTree) (key : Key) (cs : List String) :
    t.SameFiles (t.makeAlong key cs).files := by
  -- The directories around the last one are made first, by a call of the same kind.
  induction cs with
  | nil => exact SameFiles.refl t
  | cons c before ih =>
    rw [makeAlong]
    split
    · dsimp only
      split
      · exact ih.trans (attempt_sameFiles fun _ => makeDirectory_sameFiles)
      · exact ih
    · exact attempt_sameFiles fun _ => makeDirectory_sameFiles

/-- An attempt to make directories changes no file, whether it succeeds or not. -/
theorem makeDirectories_sameFiles (t : FileTree) (path : String) :
    t.SameFiles (t.makeDirectories path).files := by
  unfold makeDirectories
  split
  · exact SameFiles.refl t
  · exact makeAlong_sameFiles t _ _

/-! ## Writing -/

/-- A way that can be followed can still be followed where all directories are kept. -/
theorem walk_of_directories_kept
    (kept : ∀ k, t.get? k = some .directory → t'.get? k = some .directory)
    {cs : List String} {found : Key} (h : t.walk key cs = .ok found) :
    t'.walk key cs = .ok found := by
  induction cs generalizing key with
  | nil => exact h
  | cons c cs ih =>
    rw [walk] at h ⊢
    split at h
    · rw [kept key ‹_›]
      dsimp only at h ⊢
      split at h
      · cases h
      · rw [if_neg ‹_›]
        exact ih h
    · cases h
    · cases h

/-- A tree is another with a file written: the file can be read, and every other file is as it
was. -/
structure Wrote (t : FileTree) (path : String) (content : Content) (t' : FileTree) : Prop where
  /-- The file has the content. -/
  read : t'.read path = .ok content
  /-- The other files are the same, with the same contents. -/
  others : ∃ key, t'.resolve path = .ok key ∧
    ∀ k ≠ key, ∀ c, t'.get? k = some (.file c) ↔ t.get? k = some (.file c)

/-- A write that succeeds writes the whole content to the one file that is named. -/
theorem write_wrote {path : String} {content : Content} (h : t.write path content = .ok t') :
    t.Wrote path content t' := by
  obtain ⟨_, checked, h⟩ := Except.bind_eq_ok_iff.1 h
  split at h
  · obtain ⟨-, -, h⟩ := Except.bind_eq_ok_iff.1 h
    cases h
  · rename_i noDirectory
    obtain ⟨key, walked, h⟩ := Except.bind_eq_ok_iff.1 h
    split at h
    · cases h
    · rename_i noDirectoryThere
      obtain rfl := Except.ok.inj h
      -- The key was no directory, so every directory on the way to it is still there.
      have kept (k : Key) (hk : t.get? k = some .directory) :
          (t.set key (.file content)).get? k = some .directory := by
        have apart : k ≠ key := by
          rintro rfl
          exact noDirectoryThere hk
        rw [get?_set_of_ne apart, hk]
      have resolved : (t.set key (.file content)).resolve path = .ok key := by
        rw [resolve, checked, if_neg noDirectory]
        exact walk_of_directories_kept kept walked
      refine ⟨?_, key, resolved, fun k apart c => by rw [get?_set_of_ne apart]⟩
      rw [read, resolved]
      simp only [bind, Except.bind, get?_set_self noDirectoryThere]
      rfl

/-- Files that are the same before a write are the same, but for the one written. -/
theorem SameFiles.wrote {path : String} {content : Content} (h : t.SameFiles t')
    (wrote : t'.Wrote path content t'') : t.Wrote path content t'' := by
  obtain ⟨key, resolved, others⟩ := wrote.others
  exact ⟨wrote.read, key, resolved, fun k apart c => (others k apart c).trans (h k c)⟩

end GrammarTypes.FileTree
