import InstallerRegistry.Error
import InstallerRegistry.Manifest.Yaml
import InstallerRegistry.Yaml.Layout

/-!
# Checking a manifest

A manifest is well formed if nothing that is needed is empty, no two features and no two properties
have one identifier, and every feature that something is installed with is declared (or is the
default one, which need not be). `Manifest.check` finds the first thing wrong; values are looked at
only when entries are made of them.
-/

namespace InstallerRegistry

/-- A field that must not be empty. -/
def checkFilled (field : RequiredField) (t : Text) : Except RegistryError Unit :=
  if t.isEmpty then .error (.missingField field) else .ok ()

namespace Manifest

/-- Checks features, those with the identifiers `seen` having been checked before. -/
def checkFeatures (seen : List Text) : List Feature → Except RegistryError Unit
  | [] => .ok ()
  | f :: rest => do
    checkFilled .featureId f.id
    if f.id ∈ seen then .error (.configuration (.duplicateFeature f.id))
    else checkFeatures (f.id :: seen) rest

/-- Checks that the features of the manifest include one that something is installed with. -/
def checkReference (m : Manifest) (feature : Text) : Except RegistryError Unit :=
  if feature = defaultFeature ∨ feature ∈ m.features.map Feature.id then .ok ()
  else .error (.unknownFeature feature)

/-- Checks properties, those with the identifiers `seen` having been checked before. -/
def checkProperties (seen : List Text) : List Property → Except RegistryError Unit
  | [] => .ok ()
  | p :: rest => do
    checkFilled .propertyId p.id
    checkFilled .propertyKey p.key
    if p.id ∈ seen then .error (.configuration (.duplicateProperty p.id))
    else checkProperties (p.id :: seen) rest

/-- Checks a launch condition. -/
def checkLaunchCondition (c : LaunchCondition) : Except RegistryError Unit := do
  checkFilled .launchCondition c.condition
  checkFilled .launchMessage c.message

/-- **Checks a manifest.** -/
def check (m : Manifest) : Except RegistryError Unit := do
  checkFilled .fragment m.fragment
  checkFilled .directory m.directory
  checkFeatures [] m.features
  m.references.forM m.checkReference
  m.registry.forM fun b => checkFilled .registryKey b.key
  m.exportFiles.forM fun e => checkFilled .exportPath e.path
  checkProperties [] m.properties
  m.launchConditions.forM checkLaunchCondition

/-- What has been read or written in YAML, if that was possible. -/
def orYamlError (a : Option α) : Except RegistryError α :=
  match a with
  | none => .error .yaml
  | some a => .ok a

/-- The manifest, if it is well formed. -/
def checked (m : Manifest) : Except RegistryError Manifest := do
  m.check
  return m

/-- The well-formed manifest that a value describes. -/
def ofValue (v : Yaml.Value) : Except RegistryError Manifest := do
  (← orYamlError (ofValue? v)).checked

/-- **The well-formed manifest that a text describes.** -/
def ofText (t : Text) : Except RegistryError Manifest := do
  (← orYamlError (ofText? t)).checked

/-- **The text of a manifest.** -/
def toText (m : Manifest) : Except RegistryError Text :=
  orYamlError (Yaml.Layout.document? m.toYaml)

/-- The well-formed manifest of a file. -/
def ofFile (root : FileTree) (path : Text) : Except RegistryError Manifest :=
  match root.readText path with
  | .error failure => .error (.file failure)
  | .ok t => ofText t

end Manifest

end InstallerRegistry
