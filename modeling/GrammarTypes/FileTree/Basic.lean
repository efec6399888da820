import GrammarTypes.FileTree.Path

/-!
# File trees

The files and directories that a program can see from its working directory. A key is the list of
components from there; a key that begins with a slash is counted from the root, and one that begins
with two dots from the directory above.
-/

namespace GrammarTypes

/-- Why a file operation fails. -/
inductive FileError where
  | notFound | exists | notDirectory | isDirectory | nameTooLong | notText
  deriving DecidableEq, Repr

/-- The text of a file error. -/
def FileError.message : FileError → String
  | .notFound => "No such file or directory (os error 2)"
  | .exists => "File exists (os error 17)"
  | .notDirectory => "Not a directory (os error 20)"
  | .isDirectory => "Is a directory (os error 21)"
  | .nameTooLong => "File name too long (os error 36)"
  | .notText => "stream did not contain valid UTF-8"

/-- The content of a file or a stream. -/
inductive Content where
  /-- A text, encoded as UTF-8. -/
  | text (s : String)
  /-- Bytes that encode no text. -/
  | binary (bytes : ByteArray)

instance : DecidableEq Content
  | .text s, .text t =>
    if h : s = t then isTrue (congrArg Content.text h)
    else isFalse fun e => h (Content.text.inj e)
  | .binary a, .binary b =>
    match ByteArray.instDecidableEq a b with
    | isTrue h => isTrue (congrArg Content.binary h)
    | isFalse h => isFalse fun e => h (Content.binary.inj e)
  | .text _, .binary _ | .binary _, .text _ => isFalse Content.noConfusion

namespace Content

/-- The content that bytes are. -/
def ofBytes (bytes : ByteArray) : Content :=
  match String.fromUTF8? bytes with
  | some s => .text s
  | none => .binary bytes

/-- The bytes of a content. -/
def bytes : Content → ByteArray
  | .text s => s.toUTF8
  | .binary bytes => bytes

/-- The text that a content must be. -/
def readText : Content → Except FileError String
  | .text s => .ok s
  | .binary _ => .error .notText

end Content

/-- What a key can lead to. -/
inductive Entry where
  /-- A file with its content. -/
  | file (content : Content)
  /-- A directory. -/
  | directory

/-- A key of a file tree. -/
abbrev Key := List String

/-- The files and directories below the working directory, each with its key. -/
structure FileTree where
  /-- The entries. -/
  entries : List (Key × Entry) := []

namespace FileTree

/-! ## Looking up -/

/-- What a key leads to. The working directory, those above it and the root are always there. -/
def get? (t : FileTree) (key : Key) : Option Entry :=
  if key.all (· = "..") || key = ["/"] then some .directory else t.entries.lookup key

/-- The key of a component as seen from a directory. -/
def step (key : Key) (component : String) : Key :=
  if component = "." then key
  else if component = ".." then
    match key.getLast? with
    | none | some ".." => key ++ [".."]
    | some "/" => key
    | some _ => key.dropLast
  else key ++ [component]

/-- The greatest number of bytes in a component. -/
def componentLimit : Nat := 255

/-- The greatest number of bytes in a name. -/
def pathLimit : Nat := 4095

/-- The key that components lead to from a directory, if all but the last are directories. A
component is measured once the directory that it is looked up in has been found. -/
def walk (t : FileTree) (key : Key) : List String → Except FileError Key
  | [] => .ok key
  | c :: cs =>
    match t.get? key with
    | some .directory =>
      if componentLimit < c.utf8ByteSize then .error .nameTooLong else walk t (step key c) cs
    | some (.file _) => .error .notDirectory
    | none => .error .notFound

/-- The key at which a name is looked up first. -/
def origin (path : String) : Key :=
  if Path.isAbsolute path then ["/"] else []

/-- The name of a key. -/
def pathOf (key : Key) : String :=
  if key.isEmpty then "." else "/".intercalate key

/-- The components that a name is followed along, dots included. -/
def steps (path : String) : List String :=
  (Path.parts path).filter (· ≠ "")

/-- Checks that a name can be looked up at all. -/
def checkPath (path : String) : Except FileError Unit :=
  if path = "" then .error .notFound
  else if pathLimit < path.utf8ByteSize then .error .nameTooLong
  else .ok ()

/-- The key of a name. A slash at its end asks for a directory. -/
def resolve (t : FileTree) (path : String) : Except FileError Key := do
  checkPath path
  t.walk (origin path) (if Path.asksDirectory path then steps path ++ ["."] else steps path)

/-- What a name leads to. -/
def find? (t : FileTree) (path : String) : Option Entry :=
  match t.resolve path with
  | .ok key => t.get? key
  | .error _ => none

/-- Whether a name leads to a directory. -/
def isDirectory (t : FileTree) (path : String) : Bool :=
  match t.find? path with
  | some .directory => true
  | _ => false

/-- Whether a name leads to anything. -/
def has (t : FileTree) (path : String) : Bool :=
  (t.find? path).isSome

/-- A list of names in order with a name put in its place. -/
def insertName (name : String) : List String → List String
  | [] => [name]
  | n :: ns => if n < name then n :: insertName name ns else name :: n :: ns

/-- The names in a directory, in order. -/
def list (t : FileTree) (path : String) : List String :=
  match t.resolve path with
  | .ok directory =>
    let names := t.entries.filterMap fun (key, _) =>
      if key.dropLast = directory then key.getLast? else none
    names.foldr insertName []
  | .error _ => []

/-- The content of a file. -/
def read (t : FileTree) (path : String) : Except FileError Content := do
  let key ← t.resolve path
  match t.get? key with
  | some (.file content) => return content
  | some .directory => throw .isDirectory
  | none => throw .notFound

/-- The text of a file. -/
def readText (t : FileTree) (path : String) : Except FileError String := do
  (← t.read path).readText

/-! ## Changing -/

/-- The tree with an entry set. -/
def set (t : FileTree) (key : Key) (e : Entry) : FileTree :=
  ⟨t.entries.filter (fun (k, _) => k ≠ key) ++ [(key, e)]⟩

/-- The tree with a directory where components lead to. All but the last must be directories, and
only a directory can be there already. -/
def makeDirectory (t : FileTree) (key : Key) (cs : List String) : Except FileError FileTree := do
  let made ← t.walk key cs
  match t.get? made with
  | some .directory => return t
  | some (.file _) => throw .exists
  | none => return t.set made .directory

/-- What an attempt to change a tree leaves of it, and whether it succeeded. -/
structure Attempt where
  /-- The tree after the attempt. -/
  files : FileTree
  /-- Why the attempt failed, if it did. -/
  result : Except FileError Unit

/-- An attempt at a single change, which leaves the tree as it is when it fails. -/
def attempt (t : FileTree) : Except FileError FileTree → Attempt
  | .ok changed => ⟨changed, .ok ()⟩
  | .error e => ⟨t, .error e⟩

/-- An attempt to make a directory where components lead to, the last one first. The directories on
the way are made only when one of them is missing, and those that were made before a failure
stay. -/
def makeAlong (t : FileTree) (key : Key) : List String → Attempt
  | [] => ⟨t, .ok ()⟩
  | c :: before =>
    match t.makeDirectory key (c :: before).reverse with
    | .error .notFound =>
      let along := makeAlong t key before
      match along.result with
      | .ok () => along.files.attempt (along.files.makeDirectory key (c :: before).reverse)
      | .error _ => along
    | result => t.attempt result

/-- An attempt to make a directory and those around it. -/
def makeDirectories (t : FileTree) (path : String) : Attempt :=
  if pathLimit < path.utf8ByteSize then ⟨t, .error .nameTooLong⟩
  else t.makeAlong (origin path) (Path.components path).reverse

/-- The tree with a file of the given content. A name that asks for a directory is never that of a
file, and its last component is not looked up. -/
def write (t : FileTree) (path : String) (content : Content) : Except FileError FileTree := do
  checkPath path
  if Path.asksDirectory path then
    let _ ← t.walk (origin path) ((steps path).dropLast ++ ["."])
    throw .isDirectory
  else
    let key ← t.walk (origin path) (steps path)
    match t.get? key with
    | some .directory => throw .isDirectory
    | _ => return t.set key (.file content)

/-- The tree of files with their names, in directories as needed. -/
def ofFiles (files : List (String × Content)) : FileTree :=
  files.foldl (fun t (path, content) =>
    let made := ((Path.parent? path).map fun p => (t.makeDirectories p).files).getD t
    (made.write path content).toOption.getD made) {}

/-- The files of a tree that another tree has not, or has with another content. -/
def changedFrom (t old : FileTree) : List (String × Content) :=
  t.entries.filterMap fun (key, e) =>
    match e with
    | .directory => none
    | .file content =>
      match old.get? key with
      | some (.file before) =>
        if before = content then none else some (pathOf key, content)
      | _ => some (pathOf key, content)

/-- The directories of a tree that another tree has not, each after those around it. -/
def directoriesBeyond (t old : FileTree) : List String :=
  t.entries.filterMap fun (key, e) =>
    match e, old.get? key with
    | .directory, none => some (pathOf key)
    | _, _ => none

end FileTree

end GrammarTypes
