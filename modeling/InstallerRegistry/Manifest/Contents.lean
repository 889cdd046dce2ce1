import InstallerRegistry.Export.File
import InstallerRegistry.Files.Matching
import InstallerRegistry.Manifest.Check
import InstallerRegistry.RegistryPath
import InstallerRegistry.RegistryValue.YamlForm

/-!
# What a manifest holds

The entries of a manifest (`Manifest.contents`) are the values of its blocks, in order, followed by
those of its export files: pattern by pattern, and within a pattern file by file. A value gets its
place from its block and may bring an identifier and a condition of its own.

The other way round, entries make a manifest (`Manifest.ofEntries`), in which neighbours under one
key share a block.
-/

namespace InstallerRegistry

open Yaml (Value)

/-! ## Values of a block -/

/-- The written name of a key's default value. -/
def defaultName : Text := ['@']

/-- The name of a value, as a manifest writes it. -/
def valueNameOf : Value → Except RegistryError Text
  | .text t => .ok (if t = defaultName then [] else t)
  | .number n => .ok n.text
  | .boolean b => .ok (Yaml.textOfBool b)
  | v => .error (.configuration (.valueName v))

/-- A value of a block with what is said about it alone. -/
structure Detailed where
  value : Value
  id : Option Text := none
  condition : Option Text := none

/-- What one field says about a value. -/
def Detailed.addField (d : Detailed) (field : Value × Value) : Except RegistryError Detailed :=
  match field.1.untagged.text?, field.2.untagged.text? with
  | some name, some t =>
    if name = "value".toList then .ok d
    else if name = "id".toList then .ok { d with id := some t }
    else if name = "condition".toList then .ok { d with condition := some t }
    else .error (.configuration (.valueField field.1))
  | some name, none =>
    if name = "value".toList then .ok d else .error (.configuration (.valueField field.1))
  | none, _ => .error (.configuration (.valueField field.1))

/-- What is said about a value: a mapping with a field `value` says it by its fields, anything else
is the value itself. -/
def Detailed.ofYaml (v : Value) : Except RegistryError Detailed :=
  match v with
  | .mapping fields =>
    match Yaml.Mapping.find? fields (.text "value".toList) with
    | some inner => fields.foldlM addField { value := inner }
    | none => .ok { value := v }
  | v => .ok { value := v }

namespace Block

/-- The entry of a value under the key that the block leads to. -/
def entry (b : Block) (hive : Hive) (key : Text) (pair : Value × Value) :
    Except RegistryError Entry := do
  let name ← valueNameOf pair.1
  let detailed ← Detailed.ofYaml pair.2
  let value ← RegistryValue.ofYaml detailed.value
  return {
    id := detailed.id, hive, key, name, value, feature := b.feature
    condition := detailed.condition <|> b.condition, win64 := b.win64 }

/-- **The entries of a block.** -/
def entries (b : Block) : Except RegistryError (List Entry) := do
  let (hive, key) ← RegistryPath.parse b.key
  b.values.mapM (b.entry hive key)

end Block

/-! ## Export files -/

namespace ExportFiles

/-- The paths of the files, the pattern being taken from the directory `base`. There has to be at
least one. -/
def paths (root : FileTree) (base : Text) (e : ExportFiles) : Except RegistryError (List Text) :=
  let pattern := Pattern.joinPath base e.path
  match Pattern.expand root pattern with
  | .error error => .error (.pattern error)
  | .ok [] => .error (.configuration (.noMatch pattern))
  | .ok paths => .ok paths

/-- An entry of an export, installed as the files are. -/
def place (e : ExportFiles) (entry : Entry) : Entry :=
  { entry with feature := e.feature, condition := e.condition, win64 := e.win64 }

/-- What the files hold. -/
def contents (root : FileTree) (base : Text) (e : ExportFiles) :
    Except RegistryError Export.Contents := do
  let files ← (← e.paths root base).mapM (Export.Contents.ofFile root)
  let all := Export.Contents.concat files
  return { all with entries := all.entries.map e.place }

end ExportFiles

namespace Manifest

/-- The entries of the blocks. -/
def inlineEntries (m : Manifest) : Except RegistryError (List Entry) := do
  return (← m.registry.mapM Block.entries).flatten

/-- **What a manifest holds**, its patterns being taken from the directory `base`. -/
def contents (root : FileTree) (base : Text) (m : Manifest) :
    Except RegistryError Export.Contents := do
  let inline ← m.inlineEntries
  let exported ← m.exportFiles.mapM (ExportFiles.contents root base)
  return .concat ({ entries := inline } :: exported)

/-! ## A manifest of entries -/

/-- Do two entries belong into one block? -/
def inOneBlock (a b : Entry) : Bool :=
  a.path == b.path && a.win64 == b.win64

/-- The written name and value of an entry. -/
def pairOf (e : Entry) : Value × Value :=
  (.text (if e.name.isEmpty then defaultName else e.name),
    match e.value with
    | some v => v.toYaml
    | none => .null)

/-- The block of entries under one key. -/
def blockOf (feature : Option Text) : List Entry → Option Block
  | [] => none
  | e :: rest =>
    some { key := e.path, feature, win64 := e.win64
           values := Yaml.Mapping.ofPairs ((e :: rest).map pairOf) }

/-- The feature of a manifest that is made of entries. -/
def featureOf (id : Text) : Feature :=
  { id, title := id }

/-- **The manifest of some entries**, all of which are installed with one feature. -/
def ofEntries (feature : Option Text) (entries : List Entry) : Manifest :=
  { features := (feature.map featureOf).toList
    registry := (entries.splitBy inOneBlock).filterMap (blockOf feature) }

end Manifest

end InstallerRegistry
