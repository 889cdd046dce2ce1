import InstallerRegistry.Error

/-!
# Registry paths

A manifest names a key together with its hive, in one path whose names stand between slashes or
backslashes. A path that starts with a name no hive has is under the current user, except that a
name which looks like one of a hive (`HK...`) has to be one.

The key that a path leads to (`RegistryPath.parse`) has backslashes only, and none at its ends.
-/

namespace InstallerRegistry.RegistryPath

/-- The path with backslashes for slashes. -/
def normalize (path : Text) : Text :=
  path.map fun c => if c = '/' then '\\' else c

/-- The path without the backslashes at its ends. -/
def trim (path : Text) : Text :=
  Text.dropAround (· == '\\') path

/-- Does the name look like one of a hive? -/
def looksLikeHive (name : Text) : Bool :=
  Text.startsWith ['H', 'K'] (Text.upperCase name)

/-- **The hive and the key that a path leads to.** -/
def parse (path : Text) : Except RegistryError (Hive × Text) :=
  let path := normalize path
  let (first, rest) := (Text.cut? '\\' path).getD (path, [])
  match Hive.ofName? first with
  | some hive => .ok (hive, trim rest)
  | none =>
    if looksLikeHive first then .error (.configuration (.unknownHive first))
    else .ok (.currentUser, trim path)

end InstallerRegistry.RegistryPath
