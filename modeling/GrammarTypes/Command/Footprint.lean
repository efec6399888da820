import GrammarTypes.Command.Run

/-!
# The footprint of a command

The parts of the file tree that a run can look at (`Args.regions`), so that only they have to be
read from a disk.
-/

namespace GrammarTypes.Command

/-- A part of a file tree: what is on the way to a name, and some levels below it. -/
structure Region where
  /-- The name. -/
  path : String
  /-- The number of levels below it. -/
  depth : Nat
  deriving DecidableEq, Repr

/-- The number of levels that a pattern for any directories is followed down. -/
def deepest : Nat := 64

/-- The name that the leading plain components of a pattern make, and the other components. -/
def leadingNames (base : String) : List Glob.Component → String × List Glob.Component
  | .name text :: ps => leadingNames (Glob.nameIn base text) ps
  | ps => (base, ps)

/-- The region that a pattern looks at. -/
def patternRegion (p : Glob.Pattern) : Region :=
  let (path, rest) := leadingNames p.base p.components
  ⟨path, if rest.contains .directories then deepest else rest.length⟩

/-- The region that an input looks at. -/
def inputRegion (input : String) : Region :=
  if Glob.isPattern input then
    match Glob.Pattern.ofText input with
    | .ok pattern => patternRegion pattern
    | .error _ => ⟨input, 0⟩
  else ⟨input, 0⟩

/-- The regions that a command looks at. -/
def Args.regions (a : Args) : List Region :=
  a.inputs.map inputRegion ++ a.out.toList.map (⟨·, 0⟩)

/-- Whether a command reads the standard input. -/
def Args.readsStdin (a : Args) (t : FileTree) : Bool :=
  match resolveInputs t a.inputs with
  | .ok paths => paths.any Path.isStdin
  | .error _ => false

end GrammarTypes.Command
