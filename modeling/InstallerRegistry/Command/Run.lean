import InstallerRegistry.Command.Arguments
import InstallerRegistry.Command.Failure
import InstallerRegistry.Command.Template
import InstallerRegistry.Fragment
import InstallerRegistry.Listing

/-!
# Running a command

A command turns the files of the working directory, and nothing else, into an **outcome**: an exit
code, what is printed, and the files as they are afterwards. A command that fails leaves the files
as they were, and one that succeeds writes at most the one file it is told to.
-/

namespace InstallerRegistry.Command

/-- The name and the version of the program. -/
def versionLine : Text := "wix-reg 0.1.0\n".toList

/-- How the program is called. -/
def usageText : Text :=
  [
    "Registry values to WiX fragments",
    "",
    "Usage:",
    "  wix-reg init [-o OUTPUT] [-f]",
    "  wix-reg generate MANIFEST [-o OUTPUT]",
    "  wix-reg validate MANIFEST [-v]",
    "  wix-reg show MANIFEST [-f text|json]",
    "  wix-reg import REG_FILE [-o OUTPUT] [--feature FEATURE]"
  ].flatMap fun line => line.toList ++ ['\n']

/-- **What a command leaves behind.** -/
structure Outcome where
  exitCode : UInt8 := 0
  output : Text := []
  errors : Text := []
  files : FileTree

/-- What a command that does not fail prints, and the files afterwards. -/
abbrev Result := Except Failure (Text × FileTree)

/-- Lines of text. -/
def lines (ls : List Text) : Text :=
  ls.flatMap (· ++ ['\n'])

/-! ## Steps -/

/-- An operation whose error is a failure. -/
def orFail (r : Except RegistryError α) : Except Failure α :=
  r.mapError Failure.ofError

/-- An operation whose error is the cause of a failure. -/
def orFailWith (context : String) (r : Except RegistryError α) : Except Failure α :=
  r.mapError fun e => (Failure.ofError e).under context.toList

/-- The manifest of a file. -/
def load (root : FileTree) (path : Text) : Except Failure Manifest :=
  (Manifest.ofFile root path).mapError fun e =>
    (Failure.ofError e).under ("Failed to load ".toList ++ path)

/-- The files with a text written to one of them. -/
def save (root : FileTree) (path t : Text) : Except Failure FileTree :=
  (root.write path (Utf8.encode t)).mapError fun f => ⟨f.message, []⟩

/-- Writes a text to a file and prints `notice`, or prints the text if there is no file to write. -/
def deliver (root : FileTree) (output : Option Text) (t : Text) (notice : Text → Text) : Result :=
  match output with
  | some path => do return (lines [notice path], ← save root path t)
  | none => .ok (t, root)

/-! ## Commands -/

/-- Writes a sample manifest. -/
def runInit (root : FileTree) (output : Text) (force : Bool) : Result :=
  if root.pathExists output && !force then
    .error ⟨output ++ " already exists (use --force to overwrite)".toList, []⟩
  else do
    let files ← save root output template
    return (lines [
      "Created ".toList ++ output,
      [],
      "Next steps:".toList,
      "  1. Edit ".toList ++ output ++ " with your registry values".toList,
      "  2. Run: wix-reg generate ".toList ++ output ++ " -o registry.wxs".toList,
      "  3. Add registry.wxs to your WiX build".toList], files)

/-- Generates the fragment of a manifest. -/
def runGenerate (root : FileTree) (path : Text) (output : Option Text) : Result := do
  let m ← load root path
  let fragment ←
    orFailWith "Failed to generate WiX fragment" (m.generate root (FileTree.parentPath path))
  deliver root output fragment fun path => "Generated: ".toList ++ path

/-- Checks that an entry can be written. -/
def checkEntry (e : Entry) : Except RegistryError Unit := do
  let _ ← e.setValue
  let _ ← e.root

/-- The manifest of a file and its entries, all of which can be written. -/
def validated (root : FileTree) (path : Text) : Except Failure (Manifest × List Entry) := do
  let m ← load root path
  let entries := (← orFail (m.contents root (FileTree.parentPath path))).entries
  orFail (entries.forM checkEntry)
  return (m, entries)

/-- How much a manifest holds. -/
def details (m : Manifest) (entries : List Entry) : Text :=
  let row := fun (label : String) (n : Nat) => label.toList ++ Text.ofNat n
  lines [
    [],
    "Details:".toList,
    row "  Values:            " entries.length,
    row "  Features:          " m.features.length,
    row "  .reg imports:      " m.exportFiles.length,
    row "  Properties:        " m.properties.length,
    row "  Launch conditions: " m.launchConditions.length]

/-- Says what is wrong with a manifest, or that nothing is. -/
def runValidate (root : FileTree) (path : Text) (verbose : Bool) : Outcome :=
  match validated root path with
  | .ok (m, entries) =>
    { output := lines ["Manifest is valid".toList] ++ if verbose then details m entries else []
      files := root }
  | .error f =>
    { exitCode := 1, errors := lines ["Validation failed: ".toList ++ f.line], files := root }

/-- Lists the values of a manifest. -/
def runList (root : FileTree) (path : Text) (format : ListingFormat) : Result := do
  let m ← load root path
  let entries := (← orFail (m.contents root (FileTree.parentPath path))).entries
  let rows ← orFail (Listing.rows entries)
  match format with
  | .text => return (Listing.text rows, root)
  | .json => return (Listing.json rows, root)

/-- Makes a manifest of an export. -/
def runConvert (root : FileTree) (path : Text) (output feature : Option Text) : Result := do
  let contents ←
    (Export.Contents.ofFile root path).mapError fun e =>
      (Failure.ofError e).under ("Failed to import ".toList ++ path)
  let t ← orFail (Manifest.ofEntries feature contents.entries).toText
  deliver root output t fun path =>
    "Imported ".toList ++ Text.ofNat contents.entries.length ++ " values into ".toList ++ path

/-! ## Command lines -/

/-- The outcome of a result. -/
def Outcome.ofResult (root : FileTree) : Result → Outcome
  | .ok (output, files) => { output, files }
  | .error f => { exitCode := 1, errors := f.report, files := root }

/-- The outcome of a command. -/
def outcome (root : FileTree) : Command → Outcome
  | .init output force => .ofResult root (runInit root output force)
  | .generate manifest output => .ofResult root (runGenerate root manifest output)
  | .validate manifest verbose => runValidate root manifest verbose
  | .list manifest format => .ofResult root (runList root manifest format)
  | .convert exportFile output feature => .ofResult root (runConvert root exportFile output feature)

/-- **The outcome of a command line.** -/
def run (root : FileTree) (arguments : List Text) : Outcome :=
  match ofArguments arguments with
  | .ok command => outcome root command
  | .error .help => { output := usageText, files := root }
  | .error .version => { output := versionLine, files := root }
  | .error .usage => { exitCode := 2, errors := usageText, files := root }

end InstallerRegistry.Command
