import InstallerRegistry.Error
import InstallerRegistry.RegistryValue

/-!
# Registry values in a manifest

In a manifest, a text is a registry value as it stands, and so is an integer that fits in
thirty-two bits. Bytes are written as `binary: "DE AD"` and integers of sixteen bits as `int16: 5`,
each as a mapping of that one pair. Null is a value that is not set. Nothing else is a registry
value (`RegistryValue.ofYaml`), and what is written is read back (`RegistryValue.toYaml`).
-/

namespace InstallerRegistry.RegistryValue

open Yaml (Value)

/-- The key that announces bytes. -/
def binaryKey : Text := "binary".toList

/-- The key that announces an integer of sixteen bits. -/
def int16Key : Text := "int16".toList

/-- Bytes by their digits, which blanks, commas and hyphens may separate. -/
def ofDigits (t : Text) : Except RegistryError RegistryValue :=
  match Hex.decode (t.filter fun c => !(c == ' ' || c == ',' || c == '-')) with
  | .ok bytes => .ok (binary bytes)
  | .error e => .error (.invalidBinary e)

/-- The integer of sixteen bits that a number is. -/
def ofInt16 (n : Yaml.Number) : Except RegistryError RegistryValue :=
  match n with
  | .integer i =>
    if -0x8000 ≤ i ∧ i < 0x8000 then .ok (int16 (Int16.ofInt i))
    else .error (.unsupportedValue (.int16 n))
  | .float _ => .error (.unsupportedValue (.int16 n))

/-- The value that a mapping of one pair announces. -/
def ofPair (key value : Value) : Except RegistryError RegistryValue :=
  match key, value with
  | .text k, .text t => if k = binaryKey then ofDigits t else .error (.unsupportedValue (.form k))
  | .text k, .number n => if k = int16Key then ofInt16 n else .error (.unsupportedValue (.form k))
  | .text k, _ => .error (.unsupportedValue (.form k))
  | _, _ => .error (.unsupportedValue .mapping)

/-- **The registry value that a value of a manifest is**, or nothing for null. -/
def ofYaml : Value → Except RegistryError (Option RegistryValue)
  | .null => .ok none
  | .text t => .ok (some (text t))
  | .number (.integer n) =>
    if -0x80000000 ≤ n ∧ n < 0x80000000 then .ok (some (int32 (Int32.ofInt n)))
    else .error (.unsupportedValue (.wideInteger n))
  | .number (.float x) => .error (.unsupportedValue (.fraction x))
  | .boolean b => .error (.unsupportedValue (.boolean b))
  | .sequence _ => .error (.unsupportedValue .sequence)
  | .mapping [(key, value)] => do return some (← ofPair key value)
  | .mapping pairs => .error (.unsupportedValue (.pairs pairs.length))
  | .tagged tag _ => .error (.unsupportedValue (.tagged tag))

/-- The value of a manifest that a registry value is written as. -/
def toYaml : RegistryValue → Value
  | text t => .text t
  | int32 n => .number (.integer n.toInt)
  | int16 n => .mapping [(.text int16Key, .number (.integer n.toInt))]
  | binary bytes => .mapping [(.text binaryKey, .text (Hex.encode bytes))]

end InstallerRegistry.RegistryValue
