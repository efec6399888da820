/-!
# File names

A file name is a text of components between slashes. Empty components and dots inside a name stand
for nothing; a dot at the beginning of a relative name counts.
-/

namespace GrammarTypes.Path

/-- Whether a name begins at the root. -/
def isAbsolute (path : String) : Bool :=
  path.toList.head? = some '/'

/-- Whether a name ends with a slash, which asks for a directory. -/
def asksDirectory (path : String) : Bool :=
  path.toList.getLast? = some '/'

/-- The runs of characters between slashes. -/
def runs : List Char → List (List Char)
  | [] => [[]]
  | c :: cs =>
    if c = '/' then [] :: runs cs
    else
      match runs cs with
      | [] => [[c]]
      | run :: rest => (c :: run) :: rest

/-- The parts of a name between slashes, empty ones included. -/
def parts (path : String) : List String :=
  (runs path.toList).map String.ofList

/-- The components of a name, each with its index among the parts. -/
def indexedComponents (path : String) : List (String × Nat) :=
  (parts path).zipIdx.filter fun (part, i) => part ≠ "" && (part ≠ "." || i = 0)

/-- The components of a name. -/
def components (path : String) : List String :=
  (indexedComponents path).map Prod.fst

/-- The name of the directory that a name is in: the text up to its last component but one. -/
def parent? (path : String) : Option String :=
  match (indexedComponents path).reverse with
  | [] => none
  | [_] => some (if isAbsolute path then "/" else "")
  | _ :: (_, i) :: _ => some ("/".intercalate ((parts path).take (i + 1)))

/-- The name of a file in a directory. -/
def join (directory name : String) : String :=
  if isAbsolute name || directory = "" then name
  else if asksDirectory directory then directory ++ name
  else directory ++ "/" ++ name

/-- The last component of a name. -/
def lastComponent (path : String) : String :=
  (components path).getLastD ""

/-- Whether a name stands for the working directory itself. -/
def isHere (path : String) : Bool :=
  !isAbsolute path && components path = ["."]

/-- Whether a name stands for the standard input. -/
def isStdin (path : String) : Bool :=
  !isAbsolute path && components path = ["-"]

end GrammarTypes.Path
