import InstallerRegistry.Export.Contents

/-!
# Export files

A file says by its first bytes how its text is encoded. Behind the UTF-16 byte order mark it is
UTF-16; the header of version 4 announces single-byte text; anything else is UTF-8, with or without
a byte order mark of its own.
-/

namespace InstallerRegistry.Export

/-- The byte order mark of UTF-16, low byte first. -/
def utf16Mark : List UInt8 := [0xFF, 0xFE]

/-- The byte order mark of UTF-8. -/
def utf8Mark : List UInt8 := [0xEF, 0xBB, 0xBF]

/-- What follows `start` in a byte sequence that begins with it. -/
def bytesAfter? (start bytes : List UInt8) : Option (List UInt8) :=
  if start.isPrefixOf bytes then some (bytes.drop start.length) else none

/-- The text of UTF-8 bytes. A fault counts for the line it is in. -/
def textOfUtf8 (bytes : List UInt8) : Except RegistryError Text :=
  match Utf8.decode bytes with
  | (t, []) => .ok t
  | (t, _ :: _) => .error (.exportSyntax (t.count '\n' + 1) .invalidUtf8)

/-- **The text of an export file.** -/
def textOf (bytes : List UInt8) : Except RegistryError Text :=
  match bytesAfter? utf16Mark bytes with
  | some rest =>
    match Utf16.decode rest with
    | .ok t => .ok t
    | .error e => .error (.exportSyntax 1 (.invalidUtf16 e))
  | none =>
    if (Utf8.encode Version.four.header).isPrefixOf bytes then .ok (Windows1252.decode bytes)
    else textOfUtf8 ((bytesAfter? utf8Mark bytes).getD bytes)

/-- The contents of an export file. -/
def Contents.ofFile (root : FileTree) (path : Text) : Except RegistryError Contents :=
  match root.read path with
  | .error failure => .error (.file failure)
  | .ok bytes => do Contents.ofText (← textOf bytes)

end InstallerRegistry.Export
