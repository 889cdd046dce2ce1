import InstallerRegistry.Text.Hex

/-!
# Registry values

A value is text, bytes or an integer of sixteen or thirty-two bits. What it is written as follows
from its shape, and the first rule that fits decides (`RegistryValue.type`): text with a line feed
is a list of strings, other text with a percent sign is expanded when it is read, any other text is
a string; bytes are binary, and both integers are integers.
-/

namespace InstallerRegistry

/-- The data of a registry value. -/
inductive RegistryValue where
  | text (t : Text)
  | binary (bytes : List UInt8)
  | int16 (n : Int16)
  | int32 (n : Int32)
deriving DecidableEq, Repr

/-- The type that a registry value is written as. -/
inductive ValueType where
  | string
  | multiString
  | expandable
  | binary
  | integer
deriving DecidableEq, Repr

namespace ValueType

/-- The name of a type in a fragment. -/
def name : ValueType → Text
  | string => "string".toList
  | multiString => "multiString".toList
  | expandable => "expandable".toList
  | binary => "binary".toList
  | integer => "integer".toList

end ValueType

namespace RegistryValue

/-- The type of a value. -/
def type : RegistryValue → ValueType
  | text t =>
    if '\n' ∈ t then .multiString
    else if '%' ∈ t then .expandable
    else .string
  | binary _ => .binary
  | int16 _ => .integer
  | int32 _ => .integer

/-- The text that a value is written as: capital hexadecimal digits for bytes, decimal digits for
an integer. -/
def payload : RegistryValue → Text
  | text t => t
  | binary bytes => Hex.encode bytes
  | int16 n => Text.ofInt n.toInt
  | int32 n => Text.ofInt n.toInt

end RegistryValue

end InstallerRegistry
