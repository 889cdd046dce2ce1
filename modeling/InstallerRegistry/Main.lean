import InstallerRegistry.Command.Run

/-!
# The command line

Reads the files of the working directory, runs the command, prints what it prints and writes the
files it has changed. Everything that is decided is decided by `Command.run`.
-/

namespace InstallerRegistry

/-- The file or directory of a directory entry. What cannot be read is left out. -/
partial def readEntry (entry : IO.FS.DirEntry) : IO (Option (Text × FileTree)) := do
  let name := entry.fileName.toList
  try
    match (← entry.path.symlinkMetadata).type with
    | .dir =>
      let entries ← (← entry.path.readDir).toList.filterMapM readEntry
      return some (name, .directory entries)
    | _ =>
      let bytes ← IO.FS.readBinFile entry.path
      return some (name, .file bytes.toList)
  catch _ => return none

/-- The files of the working directory. -/
def readFiles : IO FileTree := do
  return .directory (← (← (← IO.currentDir).readDir).toList.filterMapM readEntry)

/-- Writes the files that differ between two states of the working directory. -/
def writeFiles (before after : FileTree) : IO Unit :=
  (FileTree.changedSince before after).forM fun (names, bytes) =>
    IO.FS.writeBinFile (String.ofList (Text.join ['/'] names)) ⟨bytes.toArray⟩

end InstallerRegistry

open InstallerRegistry in
/-- Runs the command that the arguments ask for. -/
def main (arguments : List String) : IO UInt32 := do
  let before ← readFiles
  let outcome := Command.run before (arguments.map String.toList)
  writeFiles before outcome.files
  (← IO.getStdout).putStr (String.ofList outcome.output)
  (← IO.getStderr).putStr (String.ofList outcome.errors)
  return outcome.exitCode.toUInt32
