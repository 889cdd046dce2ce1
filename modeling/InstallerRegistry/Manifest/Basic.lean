import InstallerRegistry.Entry
import InstallerRegistry.Yaml.Value

/-!
# Manifests

A **manifest** describes what an installer does to the registry: the features that can be
installed, the values to write (inline or from export files), the properties that are set from
values found in the registry, and the conditions under which the installation starts at all.

A manifest is only a description. What is wrong with it is said by `Manifest.check`, and the
entries it stands for are `Manifest.contents`.
-/

namespace InstallerRegistry

/-- The feature that entries without one are installed with. -/
def defaultFeature : Text := "Complete".toList

/-- A part of the product that can be chosen on its own. -/
structure Feature where
  id : Text
  title : Text := []
  description : Text := []
  level : Int32 := 1
deriving DecidableEq, Repr

/-- Values under one key. -/
structure Block where
  /-- The path of the key, with its hive. -/
  key : Text
  feature : Option Text := none
  condition : Option Text := none
  win64 : Bool := false
  /-- The values by their names. -/
  values : Yaml.Mapping := []
deriving Repr

/-- Export files whose values are installed, too. -/
structure ExportFiles where
  /-- The pattern of their paths. -/
  path : Text
  feature : Option Text := none
  condition : Option Text := none
  win64 : Bool := false
deriving DecidableEq, Repr

/-- A property that is set from a value in the registry. -/
structure Property where
  id : Text
  /-- The path of the key, with its hive. -/
  key : Text
  /-- The name of the value. -/
  name : Text := []
  /-- What the property is set to if there is no such value. -/
  value : Option Text := none
  win64 : Bool := false
deriving DecidableEq, Repr

/-- What has to hold for the installation to start. -/
structure LaunchCondition where
  condition : Text
  /-- What is shown if it does not hold. -/
  message : Text
deriving DecidableEq, Repr

/-- **A manifest.** -/
structure Manifest where
  /-- The name of the group of components. -/
  fragment : Text := "RegistryComponents".toList
  /-- The directory that the components belong to. -/
  directory : Text := "INSTALLFOLDER".toList
  features : List Feature := []
  registry : List Block := []
  exportFiles : List ExportFiles := []
  properties : List Property := []
  launchConditions : List LaunchCondition := []
deriving Repr

namespace Manifest

/-- The features that blocks and export files are installed with. -/
def references (m : Manifest) : List Text :=
  m.registry.filterMap Block.feature ++ m.exportFiles.filterMap ExportFiles.feature

end Manifest

end InstallerRegistry
