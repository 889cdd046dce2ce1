import InstallerRegistry.Hive
import InstallerRegistry.RegistryValue

/-!
# Entries

An **entry** is one value to be installed: where it goes (hive, key and name), what it is, and how
it is installed (identifier, feature, condition and registry view). An entry without a value can be
described, but not written.
-/

namespace InstallerRegistry

/-- A registry value to be installed. -/
structure Entry where
  /-- The identifier; one is derived from the name if there is none. -/
  id : Option Text := none
  hive : Hive := .currentUser
  /-- The key under the hive. -/
  key : Text := []
  /-- The name of the value, empty for the default value of the key. -/
  name : Text
  /-- The data, if it is set. -/
  value : Option RegistryValue := none
  /-- The feature that the value is installed with. -/
  feature : Option Text := none
  /-- The condition under which the value is installed. -/
  condition : Option Text := none
  /-- Is the value written to the 64-bit view of the registry? -/
  win64 : Bool := false
deriving DecidableEq, Repr

/-- One thing that can be said about an entry. -/
inductive Setting where
  | id (t : Text)
  | feature (t : Text)
  | hive (h : Hive)
  | key (t : Text)
  | condition (t : Text)
  | win64 (b : Bool)
deriving DecidableEq, Repr

namespace Entry

/-- The path of a key under its hive. -/
def pathOf (hive : Hive) (key : Text) : Text :=
  if key.isEmpty then hive.shortName else hive.shortName ++ '\\' :: key

/-- The path of the key that an entry belongs to. -/
def path (e : Entry) : Text :=
  pathOf e.hive e.key

/-- The entry with one setting changed. -/
def set (e : Entry) : Setting → Entry
  | .id t => { e with id := some t }
  | .feature t => { e with feature := some t }
  | .hive h => { e with hive := h }
  | .key t => { e with key := t }
  | .condition t => { e with condition := some t }
  | .win64 b => { e with win64 := b }

end Entry

end InstallerRegistry
