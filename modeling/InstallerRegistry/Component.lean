import InstallerRegistry.Entry
import InstallerRegistry.Error
import InstallerRegistry.Identifier
import InstallerRegistry.Manifest.Basic

/-!
# Components

A **component** is an entry that can be installed: its value is set, its hive has a root, and it
has an identifier of its own. Components are made one after another (`Component.listFrom`), because
an identifier has to differ from those before it: one that the entry brings must not have been
used, one that is derived gives way.
-/

namespace InstallerRegistry

/-- An entry that can be installed. -/
structure Component where
  /-- The identifier of the value. -/
  id : Text
  /-- The root that the key is under. -/
  root : Text
  value : RegistryValue
  entry : Entry
deriving DecidableEq, Repr

namespace Entry

/-- The value of an entry, which has to be set. -/
def setValue (e : Entry) : Except RegistryError RegistryValue :=
  match e.value with
  | some v => .ok v
  | none => .error (.unset e.name)

/-- The root that the entry is written under. -/
def root (e : Entry) : Except RegistryError Text :=
  match e.hive.installerRoot? with
  | some root => .ok root
  | none => .error (.unwritableHive e.hive)

/-- The identifier of the value, those in `used` being taken. -/
def chooseId (used : List Text) (e : Entry) : Except RegistryError Text :=
  match e.id with
  | none => .ok (Identifier.fresh used (Identifier.ofName e.name))
  | some id =>
    if !Identifier.isValid id then .error (.configuration (.invalidId id))
    else if used.contains id then .error (.configuration (.duplicateId id))
    else .ok id

end Entry

namespace Component

/-- The component of an entry, the identifiers in `used` being taken. -/
def ofEntry (used : List Text) (e : Entry) : Except RegistryError Component := do
  let value ← e.setValue
  let root ← e.root
  let id ← e.chooseId used
  return { id, root, value, entry := e }

/-- The components of entries, the identifiers in `used` being taken. -/
def listFrom (used : List Text) : List Entry → Except RegistryError (List Component)
  | [] => .ok []
  | e :: rest => do
    let c ← ofEntry used e
    let cs ← listFrom (c.id :: used) rest
    return c :: cs

/-- **The components of entries.** -/
def list (entries : List Entry) : Except RegistryError (List Component) :=
  listFrom [] entries

/-- The name that features refer to the component by. -/
def reference (c : Component) : Text :=
  "Component_".toList ++ c.id

/-- The feature that the component is installed with. -/
def feature (c : Component) : Text :=
  c.entry.feature.getD defaultFeature

end Component

end InstallerRegistry
