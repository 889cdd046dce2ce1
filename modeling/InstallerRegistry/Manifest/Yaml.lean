import InstallerRegistry.Manifest.Basic
import InstallerRegistry.Yaml.Readable

/-!
# Manifests in YAML

A manifest is a record of named fields (`Manifest.read`). Fields it does not have are passed over;
a field that is missing has a default, except for those without which its record says nothing.

Writing (`Manifest.toYaml`) leaves out lists, descriptions and options that say nothing, and so
gives a value that is read as the same manifest.
-/

namespace InstallerRegistry

open Yaml (Readable ReadM Value)
open Yaml.Readable (required withDefault optionalText int32 records)

/-! ## Reading -/

section Reading

variable {σ : Type} [Readable σ]

/-- A feature from its fields. -/
def Feature.read (fields : List (Text × σ)) : ReadM Feature := do
  let id ← required Readable.text "id" fields
  let title ← withDefault [] Readable.text "title" fields
  let description ← withDefault [] Readable.text "description" fields
  let level ← withDefault 1 int32 "level" fields
  return { id, title, description, level }

/-- A block of values from its fields. -/
def Block.read (fields : List (Text × σ)) : ReadM Block := do
  let key ← required Readable.text "key" fields
  let feature ← withDefault none optionalText "feature" fields
  let condition ← withDefault none optionalText "condition" fields
  let win64 ← withDefault false Readable.boolean "win64" fields
  let values ← withDefault [] Readable.mapping "values" fields
  return { key, feature, condition, win64, values }

/-- Export files from their fields. -/
def ExportFiles.read (fields : List (Text × σ)) : ReadM ExportFiles := do
  let path ← required Readable.text "path" fields
  let feature ← withDefault none optionalText "feature" fields
  let condition ← withDefault none optionalText "condition" fields
  let win64 ← withDefault false Readable.boolean "win64" fields
  return { path, feature, condition, win64 }

/-- A property from its fields. -/
def Property.read (fields : List (Text × σ)) : ReadM Property := do
  let id ← required Readable.text "id" fields
  let key ← required Readable.text "key" fields
  let name ← withDefault [] Readable.text "name" fields
  let value ← withDefault none optionalText "value" fields
  let win64 ← withDefault false Readable.boolean "win64" fields
  return { id, key, name, value, win64 }

/-- A launch condition from its fields. -/
def LaunchCondition.read (fields : List (Text × σ)) : ReadM LaunchCondition := do
  let condition ← required Readable.text "condition" fields
  let message ← required Readable.text "message" fields
  return { condition, message }

/-- **A manifest from its place in a document.** -/
def Manifest.read (place : σ) : ReadM Manifest := do
  let fields ← Readable.fields place
  let unset : Manifest := {}
  let fragment ← withDefault unset.fragment Readable.text "fragment" fields
  let directory ← withDefault unset.directory Readable.text "directory" fields
  let features ← withDefault [] (records Feature.read) "features" fields
  let registry ← withDefault [] (records Block.read) "registry" fields
  let exportFiles ← withDefault [] (records ExportFiles.read) "reg_files" fields
  let properties ← withDefault [] (records Property.read) "properties" fields
  let launchConditions ←
    withDefault [] (records LaunchCondition.read) "launch_conditions" fields
  return { fragment, directory, features, registry, exportFiles, properties, launchConditions }

end Reading

/-- The manifest that a value describes. -/
def Manifest.ofValue? (v : Value) : Option Manifest :=
  (read v).run' 0

/-- The manifest that a text describes. A text without a document describes the empty one. -/
def Manifest.ofText? (t : Text) : Option Manifest := do
  let d ← Yaml.Document.ofText? t
  match d.root with
  | none => some {}
  | some root => (read (⟨Yaml.nestingLimit, root⟩ : Yaml.NodeAt d)).run' d.aliasLimit

/-! ## Writing -/

/-- A field of a record. -/
def textField (name : String) (t : Text) : List (Value × Value) :=
  [(.text name.toList, .text t)]

/-- A field that is left out if it is empty. -/
def filledField (name : String) (t : Text) : List (Value × Value) :=
  if t.isEmpty then [] else textField name t

/-- A field that is left out if it is not given. -/
def optionField (name : String) : Option Text → List (Value × Value)
  | some t => textField name t
  | none => []

/-- A field that is left out if it is false. -/
def flagField (name : String) (b : Bool) : List (Value × Value) :=
  if b then [(.text name.toList, .boolean b)] else []

/-- A list of records, left out if it is empty. -/
def recordsField (name : String) (toYaml : α → Value) (items : List α) : List (Value × Value) :=
  if items.isEmpty then [] else [(.text name.toList, .sequence (items.map toYaml))]

/-- The record of a feature. -/
def Feature.toYaml (f : Feature) : Value :=
  .mapping (textField "id" f.id ++ textField "title" f.title
    ++ filledField "description" f.description
    ++ [(.text "level".toList, .number (.integer f.level.toInt))])

/-- The record of a block of values. -/
def Block.toYaml (b : Block) : Value :=
  .mapping (textField "key" b.key ++ optionField "feature" b.feature
    ++ optionField "condition" b.condition ++ flagField "win64" b.win64
    ++ [(.text "values".toList, .mapping b.values)])

/-- The record of export files. -/
def ExportFiles.toYaml (e : ExportFiles) : Value :=
  .mapping (textField "path" e.path ++ optionField "feature" e.feature
    ++ optionField "condition" e.condition ++ flagField "win64" e.win64)

/-- The record of a property. -/
def Property.toYaml (p : Property) : Value :=
  .mapping (textField "id" p.id ++ textField "key" p.key
    ++ textField "name" p.name ++ optionField "value" p.value
    ++ flagField "win64" p.win64)

/-- The record of a launch condition. -/
def LaunchCondition.toYaml (c : LaunchCondition) : Value :=
  .mapping (textField "condition" c.condition ++ textField "message" c.message)

/-- **The record of a manifest.** -/
def Manifest.toYaml (m : Manifest) : Value :=
  .mapping (textField "fragment" m.fragment ++ textField "directory" m.directory
    ++ recordsField "features" Feature.toYaml m.features
    ++ recordsField "registry" Block.toYaml m.registry
    ++ recordsField "reg_files" ExportFiles.toYaml m.exportFiles
    ++ recordsField "properties" Property.toYaml m.properties
    ++ recordsField "launch_conditions" LaunchCondition.toYaml m.launchConditions)

end InstallerRegistry
