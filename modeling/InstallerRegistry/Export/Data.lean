import InstallerRegistry.Error
import InstallerRegistry.Export.Line
import InstallerRegistry.RegistryValue
import InstallerRegistry.Text.Windows1252

/-!
# Data of an export

Behind the equals sign, an export writes a string between quotes, a number of thirty-two bits as
`dword:` and hexadecimal digits, bytes as `hex:` and a list of digit pairs, or bytes that stand for
data of another type as `hex(` its number `):` and the list. A lone minus sign deletes the value.

Strings that are given by their bytes are UTF-16 in version 5 and single-byte text in version 4;
the NULs that end them are dropped, and the NULs between the strings of a list become line feeds.
-/

namespace InstallerRegistry.Export

/-- The **version** of an export, which says how strings in binary data are encoded. -/
inductive Version where
  | four
  | five
deriving DecidableEq, Repr

/-- The header of an export of a version. -/
def Version.header : Version → Text
  | four => "REGEDIT4".toList
  | five => "Windows Registry Editor Version 5.00".toList

/-- The version that a line is the header of. -/
def Version.ofHeader? (t : Text) : Option Version :=
  [five, four].find? fun v => v.header == t

/-- Why data is no registry value. -/
inductive DataError where
  | fault (fault : Fault)
  | unsupported (value : UnsupportedValue)
deriving Repr

/-- The error that data in a line is. -/
def DataError.inLine (line : Nat) : DataError → RegistryError
  | fault f => .exportSyntax line f
  | unsupported v => .unsupportedValue v

/-! ## Numbers -/

/-- One more digit of a number of thirty-two bits. -/
def addDigit (n : Nat) (c : Char) : Except NumeralFault Nat :=
  match Hex.digit? c with
  | none => .error .invalidDigit
  | some d => if n * 16 + d < 0x100000000 then .ok (n * 16 + d) else .error .overflow

/-- The number of thirty-two bits that hexadecimal digits denote; a plus sign may stand before
them. -/
def dword (t : Text) : Except NumeralFault Nat :=
  match t with
  | [] => .error .empty
  | ['+'] => .error .invalidDigit
  | '+' :: digits => digits.foldlM addDigit 0
  | digits => digits.foldlM addDigit 0

/-- The number of four bytes, low byte first. -/
def dwordOfBytes? : List UInt8 → Option Nat
  | [a, b, c, d] => some (a.toNat + 0x100 * b.toNat + 0x10000 * c.toNat + 0x1000000 * d.toNat)
  | _ => none

/-- The integer whose two's complement is a number of thirty-two bits. -/
def ofDword (n : Nat) : RegistryValue :=
  .int32 (Int32.ofNat n)

/-! ## Bytes -/

/-- The bytes of a list of digit pairs, in which commas and blanks count for nothing. -/
def bytesOf (t : Text) : Except DataError (List UInt8) :=
  match Hex.decode (t.filter fun c => c != ',' && !Text.isBlank c) with
  | .ok bytes => .ok bytes
  | .error e => .error (.fault (.invalidHex e))

/-- The text that bytes stand for, without the NULs at its end. -/
def stringOf (version : Version) (bytes : List UInt8) : Except DataError Text :=
  match version with
  | .four => .ok (Text.dropEndWhile (· == '\x00') (Windows1252.decode bytes))
  | .five =>
    match Utf16.decode bytes with
    | .ok t => .ok (Text.dropEndWhile (· == '\x00') t)
    | .error e => .error (.fault (.invalidUtf16 e))

/-- The strings of a list, which NULs separate, as lines. -/
def linesOfList (t : Text) : Text :=
  Text.join ['\n'] (Text.splitOn '\x00' t)

/-- The value that bytes of a type stand for. -/
def valueOfBytes (version : Version) (kind : Text) (bytes : List UInt8) :
    Except DataError RegistryValue :=
  match kind.map Char.toLower with
  | ['1'] => do return .text (← stringOf version bytes)
  | ['2'] => do return .text (← stringOf version bytes)
  | ['3'] => .ok (.binary bytes)
  | ['4'] =>
    match dwordOfBytes? bytes with
    | some n => .ok (ofDword n)
    | none => .error (.fault .dwordLength)
  | ['7'] => do return .text (linesOfList (← stringOf version bytes))
  | ['b'] => .error (.unsupported .qword)
  | kind => .error (.unsupported (.dataType kind))

/-! ## All data -/

/-- The value of a quoted string, behind which nothing but blanks may stand. -/
def quotedValue (t : Text) : Except DataError RegistryValue :=
  match Quoted.decode? t with
  | none => .error (.fault .unterminatedString)
  | some (s, rest) =>
    if (Text.trim rest).isEmpty then .ok (.text s) else .error (.fault .trailingText)

/-- The type and the bytes of data that is written as `hex(` type `):` and bytes. -/
def typedBytes? (t : Text) : Option (Text × Text) :=
  (Text.after? "hex(".toList t).bind (Text.cutAt? "):".toList)

/-- **The value that data stands for**, or nothing if it deletes the value. -/
def valueOf (version : Version) (data : Text) : Except DataError (Option RegistryValue) :=
  if data == ['-'] then .ok none
  else if data.head? == some '"' then do return some (← quotedValue data)
  else
    match Text.after? "dword:".toList data with
    | some digits =>
      match dword digits with
      | .ok n => .ok (some (ofDword n))
      | .error fault => .error (.fault (.invalidDword fault))
    | none =>
      match Text.after? "hex:".toList data with
      | some pairs => do return some (.binary (← bytesOf pairs))
      | none =>
        match typedBytes? data with
        | some (kind, pairs) => do return some (← valueOfBytes version kind (← bytesOf pairs))
        | none => .error (.fault (.unrecognizedData data))

end InstallerRegistry.Export
