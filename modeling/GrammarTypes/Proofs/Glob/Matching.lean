import GrammarTypes.Glob.Search

/-!
# What a pattern of file names finds

The test of a name against a pattern keeps a row of answers for all suffixes of the name, so its
definition says little of what a pattern means. `Glob.Matches` says it: a token that is no run
stands for one character that it has, and a run for any characters at all. `Glob.tokensMatch_iff`
shows that the test decides this relation.

The search goes through a file tree and collects names as it goes. `Glob.Leads` says where the
components of a pattern lead from a directory, one component at a time, and
`Glob.Pattern.mem_files_iff` shows that the files found are those that the components lead to. Two
stars lead to files any number of levels down, of which the search tries one more than the tree has
entries (`Glob.Below`).
-/

namespace GrammarTypes.Glob

/-! ## Names -/

/-- Tokens match a whole name: each takes a part of it, in order. -/
inductive Matches : List Token → List Char → Prop
  /-- No tokens match the empty name. -/
  | nil : Matches [] []
  /-- A token that is no run takes one character that it has. -/
  | one {t : Token} {ts : List Token} {c : Char} {cs : List Char} (hone : t.isRun = false)
    (hhas : t.has c = true) (hrest : Matches ts cs) : Matches (t :: ts) (c :: cs)
  /-- A run takes any characters. -/
  | run {t : Token} {ts : List Token} {cs : List Char} (hrun : t.isRun = true) (taken : List Char)
    (hrest : Matches ts cs) : Matches (t :: ts) (taken ++ cs)

/-- No tokens match the empty name only. -/
theorem tokensMatch_nil (cs : List Char) : tokensMatch [] cs = cs.isEmpty := by
  cases cs <;> simp [tokensMatch, matchedSuffixes]

/-- Of the empty name a run takes nothing, and another token has nothing to take. -/
theorem tokensMatch_cons_nil (t : Token) (ts : List Token) :
    tokensMatch (t :: ts) [] = (t.isRun && tokensMatch ts []) := by
  have hrow : matchedSuffixes (t :: ts) [] = (matchedSuffixes ts []).map (t.isRun && ·) := by
    rw [matchedSuffixes]
    cases matchedSuffixes ts [] <;> rfl
  unfold tokensMatch
  rw [hrow]
  cases matchedSuffixes ts [] <;> simp

/-- A run leaves a suffix of the name to the tokens after it. -/
theorem tokensMatch_run_iff {t : Token} {ts : List Token} {cs : List Char} (h : t.isRun = true) :
    tokensMatch (t :: ts) cs = true ↔
      ∃ taken rest, cs = taken ++ rest ∧ tokensMatch ts rest = true := by
  induction cs with
  | nil =>
    rw [tokensMatch_cons_nil, h, Bool.true_and]
    constructor
    · intro hnil
      exact ⟨[], [], rfl, hnil⟩
    · rintro ⟨taken, rest, hcs, hrest⟩
      obtain ⟨-, rfl⟩ := List.append_eq_nil_iff.1 hcs.symm
      exact hrest
  | cons c cs ih =>
    rw [tokensMatch_run t ts c cs h, Bool.or_eq_true, ih]
    constructor
    · rintro (hall | ⟨taken, rest, rfl, hrest⟩)
      · exact ⟨[], c :: cs, rfl, hall⟩
      · exact ⟨c :: taken, rest, rfl, hrest⟩
    -- The run takes nothing, or the first character and more.
    · rintro ⟨taken, rest, hcs, hrest⟩
      cases taken with
      | nil => exact .inl (hcs ▸ hrest)
      | cons d taken =>
        obtain ⟨rfl, rfl⟩ := List.cons.inj hcs
        exact .inr ⟨taken, rest, rfl, hrest⟩

/-- The test of a name is whether the tokens match it. -/
theorem tokensMatch_iff {ts : List Token} {cs : List Char} :
    tokensMatch ts cs = true ↔ Matches ts cs := by
  induction ts generalizing cs with
  | nil =>
    rw [tokensMatch_nil, List.isEmpty_iff]
    constructor
    · rintro rfl
      exact .nil
    · rintro ⟨⟩
      rfl
  | cons t ts ih =>
    cases hrun : t.isRun with
    | true =>
      rw [tokensMatch_run_iff hrun]
      constructor
      · rintro ⟨taken, rest, rfl, hrest⟩
        exact .run hrun taken (ih.1 hrest)
      · intro h
        cases h with
        | one hone => exact absurd (hrun.symm.trans hone) Bool.noConfusion
        | run _ taken hrest => exact ⟨taken, _, rfl, ih.2 hrest⟩
    | false =>
      constructor
      · intro h
        cases cs with
        | nil =>
          rw [tokensMatch_cons_nil, hrun] at h
          exact absurd h Bool.noConfusion
        | cons c cs =>
          rw [tokensMatch_one t ts c cs hrun, Bool.and_eq_true] at h
          exact .one hrun h.1 (ih.1 h.2)
      · intro h
        cases h with
        | one _ hhas hrest =>
          rw [tokensMatch_one _ _ _ _ hrun, Bool.and_eq_true]
          exact ⟨hhas, ih.2 hrest⟩
        | run htrue => exact absurd (hrun.symm.trans htrue) Bool.noConfusion

/-- A component of a pattern names a file: it is the name, two stars, or tokens that match it. -/
def Component.Names (p : Component) (name : String) : Prop :=
  match p with
  | .name text => text = name
  | .directories => True
  | .wild ts => Matches ts name.toList

/-- The test of a component is whether it names the file. -/
theorem Component.matchesName_iff {p : Component} {name : String} :
    p.matchesName name = true ↔ p.Names name := by
  cases p with
  | name text => exact beq_iff_eq
  | directories => exact iff_of_true rfl trivial
  | wild ts => exact tokensMatch_iff

/-! ## Files below a directory -/

variable {t : FileTree} {directoriesOnly : Bool}

/-- A file is below a directory, at most the given number of levels down. -/
inductive Below (t : FileTree) : Nat → String → String → Prop
  /-- The files in the directory are one level down. -/
  | inside {n : Nat} {directory file : String} (h : file ∈ filesIn t directory) :
    Below t (n + 1) directory file
  /-- What is below a directory in it is one level further down. -/
  | deeper {n : Nat} {directory next file : String} (h : next ∈ filesIn t directory)
    (hnext : t.isDirectory next = true) (hbelow : Below t n next file) :
    Below t (n + 1) directory file

/-- The descent finds what is found at the files below the directory. -/
theorem mem_descend_iff {found : String → List String} {n : Nat} {directory x : String} :
    x ∈ descend t found n directory ↔ ∃ file, Below t n directory file ∧ x ∈ found file := by
  induction n generalizing directory with
  | zero =>
    rw [descend]
    constructor
    · intro hx
      exact absurd hx List.not_mem_nil
    · rintro ⟨file, hbelow, -⟩
      cases hbelow
  | succ n ih =>
    rw [descend, List.mem_flatMap]
    constructor
    · rintro ⟨next, hnext, hx⟩
      rcases List.mem_append.1 hx with hx | hx
      · exact ⟨next, .inside hnext, hx⟩
      · obtain ⟨hdirectory, hx⟩ := List.mem_ite_nil_right.1 hx
        obtain ⟨file, hbelow, hfound⟩ := ih.1 hx
        exact ⟨file, .deeper hnext hdirectory hbelow, hfound⟩
    · rintro ⟨file, hbelow, hfound⟩
      cases hbelow with
      | inside hfile => exact ⟨file, hfile, List.mem_append_left _ hfound⟩
      | deeper hnext hdirectory hbelow =>
        refine ⟨_, hnext, List.mem_append_right _ (List.mem_ite_nil_right.2 ⟨hdirectory, ?_⟩)⟩
        exact ih.2 ⟨file, hbelow, hfound⟩

/-! ## Where components lead -/

/-- A component other than two stars leads from a directory to a file. -/
inductive Enters (t : FileTree) (directory : String) : Component → String → Prop
  /-- A name leads to the file of that name. -/
  | name {text : String} (hdot : text ≠ "." ∧ text ≠ "..")
    (hthere : t.has (nameIn directory text) = true) :
    Enters t directory (.name text) (nameIn directory text)
  /-- A name of the directory itself or of the one above leads there from directories only. -/
  | dotName {text : String} (hdot : text = "." ∨ text = "..")
    (hdirectory : t.isDirectory directory = true) :
    Enters t directory (.name text) (nameIn directory text)
  /-- Tokens lead to the files in the directory whose names they match. -/
  | wild {ts : List Token} {file : String} (hdirectory : t.isDirectory directory = true)
    (hfile : file ∈ filesIn t directory)
    (hmatches : Matches ts (Path.lastComponent file).toList) : Enters t directory (.wild ts) file
  /-- Tokens that begin with a dot also lead to the directory itself and to the one above. -/
  | dotWild {ts : List Token} {dots : String} (hdirectory : t.isDirectory directory = true)
    (hdots : dots = ".." ∨ dots = ".") (hmatches : Matches (.char '.' :: ts) dots.toList) :
    Enters t directory (.wild (.char '.' :: ts)) (Path.join directory dots)

/-- Components lead from a directory to a file. -/
inductive Leads (t : FileTree) (directoriesOnly : Bool) : List Component → String → String → Prop
  /-- Without components it is the file itself, which has to be a directory if one is asked for. -/
  | here {file : String} (h : directoriesOnly = true → t.isDirectory file = true) :
    Leads t directoriesOnly [] file file
  /-- The other components lead on from where the first one leads. -/
  | step {p : Component} {ps : List Component} {directory next file : String}
    (henters : Enters t directory p next) (hleads : Leads t directoriesOnly ps next file) :
    Leads t directoriesOnly (p :: ps) directory file
  /-- Two stars at the end lead to the directories below. -/
  | directories {directory file : String} (hdirectory : t.isDirectory directory = true)
    (hbelow : Below t (t.entries.length + 1) directory file)
    (hfile : t.isDirectory file = true) : Leads t directoriesOnly [.directories] directory file
  /-- Two stars lead to the files below that the next component names. -/
  | through {p : Component} {ps : List Component} {directory next file : String}
    (hdirectory : t.isDirectory directory = true)
    (hbelow : Below t (t.entries.length + 1) directory next)
    (hnames : p.Names (Path.lastComponent next)) (hleads : Leads t directoriesOnly ps next file) :
    Leads t directoriesOnly (.directories :: p :: ps) directory file

/-- A file is found at itself unless a directory is asked for and it is none. -/
theorem mem_found_iff {file x : String} :
    x ∈ found t directoriesOnly file ↔
      x = file ∧ (directoriesOnly = true → t.isDirectory file = true) := by
  cases directoriesOnly <;> cases hfile : t.isDirectory file <;> simp [found, hfile]

/-- The names of the directory itself and of the one above are tried with tokens that begin with a
dot. -/
theorem mem_dotNames_iff {ts : List Token} {name : String} :
    name ∈ dotNames (.wild ts) ↔ ∃ us, ts = .char '.' :: us ∧ (name = ".." ∨ name = ".") ∧
      Matches ts name.toList := by
  unfold dotNames
  split
  · next us heq =>
    obtain rfl := Component.wild.inj heq
    simp [Component.matchesName_iff, Component.Names]
  · next hne =>
    constructor
    · intro hname
      exact absurd hname List.not_mem_nil
    · rintro ⟨us, rfl, -⟩
      exact absurd rfl (hne us)

/-- Where a name leads. -/
theorem enters_name_iff {text directory next : String} :
    Enters t directory (.name text) next ↔ next = nameIn directory text ∧
      (if text = "." || text = ".." then t.isDirectory directory
        else t.has (nameIn directory text)) = true := by
  constructor
  · intro h
    cases h with
    | name hdot hthere =>
      rw [if_neg (by simpa using hdot)]
      exact ⟨rfl, hthere⟩
    | dotName hdot hdirectory =>
      rw [if_pos (by simpa using hdot)]
      exact ⟨rfl, hdirectory⟩
  · rintro ⟨rfl, hthere⟩
    split at hthere
    · next hdot => exact .dotName (by simpa using hdot) hthere
    · next hdot => exact .name (by simpa using hdot) hthere

/-- Where tokens lead. -/
theorem enters_wild_iff {ts : List Token} {directory next : String} :
    Enters t directory (.wild ts) next ↔ t.isDirectory directory = true ∧
      next ∈ (dotNames (.wild ts)).map (Path.join directory) ++
        (filesIn t directory).filter fun file =>
          tokensMatch ts (Path.lastComponent file).toList := by
  rw [List.mem_append, List.mem_map, List.mem_filter, tokensMatch_iff]
  constructor
  · intro h
    cases h with
    | wild hdirectory hfile hmatches => exact ⟨hdirectory, .inr ⟨hfile, hmatches⟩⟩
    | dotWild hdirectory hdots hmatches =>
      exact ⟨hdirectory, .inl ⟨_, mem_dotNames_iff.2 ⟨_, rfl, hdots, hmatches⟩, rfl⟩⟩
  · rintro ⟨hdirectory, ⟨dots, hname, rfl⟩ | ⟨hfile, hmatches⟩⟩
    · obtain ⟨us, rfl, hdots, hmatches⟩ := mem_dotNames_iff.1 hname
      exact .dotWild hdirectory hdots hmatches
    · exact .wild hdirectory hfile hmatches

/-- After a component other than two stars the search goes on where the component leads. -/
theorem mem_search_cons_iff {p : Component} (hp : p ≠ .directories) {ps : List Component}
    {directory file : String} :
    file ∈ search t directoriesOnly (p :: ps) directory ↔
      ∃ next, Enters t directory p next ∧ file ∈ search t directoriesOnly ps next := by
  cases p with
  | name text =>
    simp only [enters_name_iff, and_assoc, exists_eq_left]
    rw [search, List.mem_ite_nil_right]
  | wild ts =>
    simp only [enters_wild_iff, and_assoc, exists_and_left]
    rw [search, List.mem_ite_nil_left, List.mem_flatMap, Bool.not_eq_true, Bool.not_eq_false']
  | directories => exact absurd rfl hp

/-- After two stars the search goes on at the files below that the next component names. -/
theorem mem_search_through_iff {p : Component} {ps : List Component} {directory file : String} :
    file ∈ search t directoriesOnly (.directories :: p :: ps) directory ↔
      t.isDirectory directory = true ∧
        ∃ next, Below t (t.entries.length + 1) directory next ∧
          p.Names (Path.lastComponent next) ∧ file ∈ search t directoriesOnly ps next := by
  simp only [search, List.mem_ite_nil_left, List.mem_ite_nil_right, mem_descend_iff,
    Component.matchesName_iff, Bool.not_eq_true, Bool.not_eq_false']

/-- Two stars at the end find the directories below. -/
theorem mem_search_last_iff {directory file : String} :
    file ∈ search t directoriesOnly [.directories] directory ↔
      t.isDirectory directory = true ∧ Below t (t.entries.length + 1) directory file ∧
        t.isDirectory file = true := by
  have hfound : (∃ next, Below t (t.entries.length + 1) directory next ∧
        file ∈ found t true next) ↔
      Below t (t.entries.length + 1) directory file ∧ t.isDirectory file = true := by
    constructor
    · rintro ⟨next, hbelow, hfile⟩
      obtain ⟨rfl, hdirectory⟩ := mem_found_iff.1 hfile
      exact ⟨hbelow, hdirectory rfl⟩
    · rintro ⟨hbelow, hdirectory⟩
      exact ⟨file, hbelow, mem_found_iff.2 ⟨rfl, fun _ => hdirectory⟩⟩
  rw [search, List.mem_ite_nil_left, mem_descend_iff, hfound, Bool.not_eq_true,
    Bool.not_eq_false']

/-- The search finds the files that the components lead to. -/
theorem mem_search_iff : ∀ {ps : List Component} {directory file : String},
    file ∈ search t directoriesOnly ps directory ↔ Leads t directoriesOnly ps directory file
  | [], directory, file => by
    rw [search, mem_found_iff]
    constructor
    · rintro ⟨rfl, hfile⟩
      exact .here hfile
    · rintro ⟨hfile⟩
      exact ⟨rfl, hfile⟩
  | .name text :: ps, directory, file | .wild text :: ps, directory, file => by
    rw [mem_search_cons_iff Component.noConfusion]
    constructor
    · rintro ⟨next, henters, hfile⟩
      exact .step henters (mem_search_iff.1 hfile)
    · intro h
      cases h with
      | step henters hleads => exact ⟨_, henters, mem_search_iff.2 hleads⟩
  | [.directories], directory, file => by
    rw [mem_search_last_iff]
    constructor
    · rintro ⟨hdirectory, hbelow, hfile⟩
      exact .directories hdirectory hbelow hfile
    · intro h
      cases h with
      | step henters => cases henters
      | directories hdirectory hbelow hfile => exact ⟨hdirectory, hbelow, hfile⟩
  | .directories :: p :: ps, directory, file => by
    rw [mem_search_through_iff]
    constructor
    · rintro ⟨hdirectory, next, hbelow, hnames, hfile⟩
      exact .through hdirectory hbelow hnames (mem_search_iff.1 hfile)
    · intro h
      cases h with
      | step henters => cases henters
      | through hdirectory hbelow hnames hleads =>
        exact ⟨hdirectory, _, hbelow, hnames, mem_search_iff.2 hleads⟩

/-- A pattern finds the files that its components lead to from its base. One without components
finds nothing. -/
theorem Pattern.mem_files_iff {p : Pattern} {file : String} :
    file ∈ p.files t ↔ p.components ≠ [] ∧ Leads t p.directoriesOnly p.components p.base file := by
  unfold Pattern.files
  rw [← mem_search_iff]
  cases hcomponents : p.components with
  | nil => simp
  | cons q qs => simp

end GrammarTypes.Glob
