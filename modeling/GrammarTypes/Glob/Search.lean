import GrammarTypes.FileTree.Basic
import GrammarTypes.Glob.Pattern

/-!
# Files that match a pattern

The search goes through a file tree component by component. The names in a directory are tried in
order, and what is below one comes before the next.
-/

namespace GrammarTypes.Glob

/-- The name of a file in a directory, where the working directory is left out. -/
def nameIn (directory name : String) : String :=
  if Path.isHere directory then name else Path.join directory name

/-- The files in a directory. -/
def filesIn (t : FileTree) (directory : String) : List String :=
  (t.list directory).map (nameIn directory)

/-- What is found at the files below a directory, each before the files below it. The fuel bounds
the depth. -/
def descend (t : FileTree) (found : String → List String) : (fuel : Nat) → String → List String
  | 0, _ => []
  | fuel + 1, directory =>
    (filesIn t directory).flatMap fun file =>
      found file ++ if t.isDirectory file then descend t found fuel file else []

/-- The file itself, unless only directories are asked for and it is none. -/
def found (t : FileTree) (directoriesOnly : Bool) (file : String) : List String :=
  if directoriesOnly && !t.isDirectory file then [] else [file]

/-- The names of the directory itself and the one above it, which only a pattern that begins with a
dot can match. -/
def dotNames (p : Component) : List String :=
  match p with
  | .wild (.char '.' :: _) => ["..", "."].filter fun name => p.matchesName name
  | _ => []

/-- The files that components match, from a directory on. -/
def search (t : FileTree) (directoriesOnly : Bool) : List Component → String → List String
  | [], file => found t directoriesOnly file
  | .name text :: ps, directory =>
    let next := nameIn directory text
    let there := if text = "." || text = ".." then t.isDirectory directory else t.has next
    if there then search t directoriesOnly ps next else []
  | .wild ts :: ps, directory =>
    if !t.isDirectory directory then []
    else
      ((dotNames (.wild ts)).map (Path.join directory) ++
        (filesIn t directory).filter fun file =>
          tokensMatch ts (Path.lastComponent file).toList).flatMap
        (search t directoriesOnly ps)
  | [.directories], directory =>
    if !t.isDirectory directory then []
    else descend t (found t true) (t.entries.length + 1) directory
  | .directories :: p :: ps, directory =>
    if !t.isDirectory directory then []
    else
      descend t
        (fun file =>
          if p.matchesName (Path.lastComponent file) then search t directoriesOnly ps file else [])
        (t.entries.length + 1) directory

/-- The files that a pattern matches. -/
def Pattern.files (p : Pattern) (t : FileTree) : List String :=
  if p.components.isEmpty then [] else search t p.directoriesOnly p.components p.base

end GrammarTypes.Glob
