import GrammarTypes.Command.Footprint

/-!
# The command line

Reads the files that a command looks at from the disk, runs the command on them, and writes what it
leaves behind.
-/

namespace GrammarTypes.CommandLine

open Command

/-- Adds what a key leads to on the disk, and the given number of levels below it. -/
def loadBelow : (depth : Nat) → FileTree → Key → IO FileTree
  | depth, t, key => do
    let place := (← IO.currentDir) / FileTree.pathOf key
    if ← place.isDir then
      let t := if (t.get? key).isSome then t else t.set key .directory
      match depth with
      | 0 => return t
      | depth + 1 =>
        let mut t := t
        for entry in ← place.readDir do
          t ← loadBelow depth t (key ++ [entry.fileName])
        return t
    else if ← place.pathExists then return t.set key (.file (.ofBytes (← IO.FS.readBinFile place)))
    else return t

/-- Adds what components lead to on the disk, and the given number of levels below the last. -/
def loadAlong (depth : Nat) (t : FileTree) (key : Key) : List String → IO FileTree
  | [] => loadBelow depth t key
  | c :: cs => do
    let t ← loadBelow 0 t key
    loadAlong depth t (FileTree.step key c) cs

/-- Adds a region from the disk. -/
def loadRegion (t : FileTree) (r : Region) : IO FileTree :=
  loadAlong r.depth t (FileTree.origin r.path) (Path.components r.path)

/-- The files that a command looks at. -/
def loadFiles (a : Args) : IO FileTree :=
  a.regions.foldlM loadRegion {}

/-- Makes the directories that a run has made, and writes the files that it has changed. -/
def writeFiles (before after : FileTree) : IO Unit := do
  for directory in after.directoriesBeyond before do
    IO.FS.createDirAll directory
  for (path, content) in after.changedFrom before do
    if let some directory := Path.parent? path then
      unless directory.isEmpty do IO.FS.createDirAll directory
    IO.FS.writeBinFile path content.bytes

/-- Reads a stream to its end. -/
partial def readAll (stream : IO.FS.Stream) (read : ByteArray) : IO ByteArray := do
  let more ← stream.read 65536
  if more.isEmpty then return read else readAll stream (read ++ more)

/-- The level with a name. -/
def level? : String → Option (Option Level)
  | "off" => some none
  | "error" => some (some .error)
  | "warn" => some (some .warn)
  | "info" => some (some .info)
  | "debug" => some (some .debug)
  | "trace" => some (some .trace)
  | _ => none

/-- The level of the log that the environment asks for. -/
def logLevel : IO (Option Level) := do
  let name ← IO.getEnv "RUST_LOG"
  return ((name.bind level?).getD (some .warn))

end GrammarTypes.CommandLine

open GrammarTypes GrammarTypes.CommandLine in
/-- Runs a command and returns its exit code. -/
def main (args : List String) : IO UInt32 := do
  match Command.Args.parse? args with
  | none =>
    IO.eprintln "usage: (declarations | inspect) -i FILE... [-o FILE] [options]"
    return Command.usageCode.toUInt32
  | some a =>
    let files ← if a.noOp then pure {} else loadFiles a
    let stdin ←
      if !a.noOp && a.readsStdin files then readAll (← IO.getStdin) .empty else pure .empty
    let outcome := a.run (← logLevel) files (.ofBytes stdin)
    IO.print outcome.stdout
    IO.eprint outcome.stderr
    writeFiles files outcome.files
    return outcome.exitCode.toUInt32
