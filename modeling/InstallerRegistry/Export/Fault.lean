import InstallerRegistry.Text.Hex
import InstallerRegistry.Text.Utf16

/-!
# Faults of a registry export

What can be wrong with the text of an export, each with its wording. Where in the text it is wrong
is not part of a fault.
-/

namespace InstallerRegistry.Export

/-- Why a text is not a hexadecimal number of thirty-two bits. -/
inductive NumeralFault where
  | empty
  | invalidDigit
  | overflow
deriving DecidableEq, Repr

/-- The wording of a fault in a number. -/
def NumeralFault.message : NumeralFault → Text
  | empty => "cannot parse integer from empty string".toList
  | invalidDigit => "invalid digit found in string".toList
  | overflow => "number too large to fit in target type".toList

/-- What is wrong with a line of an export. -/
inductive Fault where
  /-- The text does not start with the header of an export. -/
  | missingHeader
  /-- A value stands before any key. -/
  | outsideSection
  /-- The header of a section does not end with a bracket. -/
  | unterminatedSection
  /-- A key is under a hive that does not exist. -/
  | unknownHive (name : Text)
  /-- A line starts with neither a quoted name nor `@`. -/
  | unquotedName
  /-- Nothing assigns a value to the name. -/
  | missingEquals
  /-- A quoted value is not closed. -/
  | unterminatedString
  /-- Something follows a quoted value. -/
  | trailingText
  | invalidDword (fault : NumeralFault)
  /-- The data is of no form that an export uses. -/
  | unrecognizedData (data : Text)
  | invalidHex (error : Hex.Error)
  /-- The bytes of a number are not four. -/
  | dwordLength
  | invalidUtf16 (error : Utf16.Error)
  | invalidUtf8
deriving DecidableEq, Repr

/-- The wording of a fault. -/
def Fault.message : Fault → Text
  | missingHeader => "missing registry editor header".toList
  | outsideSection => "value outside of a key section".toList
  | unterminatedSection => "unterminated key section".toList
  | unknownHive name => "Unknown registry hive: ".toList ++ name
  | unquotedName => "expected a quoted value name".toList
  | missingEquals => "expected '=' after value name".toList
  | unterminatedString => "unterminated string value".toList
  | trailingText => "unexpected text after string value".toList
  | invalidDword fault => "invalid dword: ".toList ++ fault.message
  | unrecognizedData data => "unrecognized value data: ".toList ++ data
  | invalidHex error => "invalid hex data: ".toList ++ error.message
  | dwordLength => "hex(4) data must be 4 bytes".toList
  | invalidUtf16 error => error.message
  | invalidUtf8 => "invalid UTF-8 text".toList

end InstallerRegistry.Export
