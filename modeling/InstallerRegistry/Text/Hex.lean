import InstallerRegistry.Text.Literal
import InstallerRegistry.Text.Utf8

/-!
# Hexadecimal

Two hexadecimal digits are one byte, high half first. Writing uses capital digits; reading takes
either case and nothing else, so a fault is either an odd number of digits, which is noticed
first, or the first byte of the text that is no digit.
-/

namespace InstallerRegistry.Hex

/-- Why a text is not a sequence of hexadecimal pairs. -/
inductive Error where
  /-- The text has an odd number of bytes. -/
  | oddLength
  /-- The byte at `position` of the text's UTF-8 form is no hexadecimal digit. -/
  | invalidDigit (byte : UInt8) (position : Nat)
deriving DecidableEq, Repr

/-- The wording of a fault in hexadecimal digits. The offending byte is shown as the character of
its number. -/
def Error.message : Error → Text
  | oddLength => "Odd number of digits".toList
  | invalidDigit byte position =>
    "Invalid character ".toList ++ Text.charLiteral (Char.ofNat byte.toNat)
      ++ " at position ".toList ++ Text.ofNat position

/-- The value of a hexadecimal digit. -/
def digit? (c : Char) : Option Nat :=
  let n := c.toNat
  if 0x30 ≤ n ∧ n ≤ 0x39 then some (n - 0x30)
  else if 0x41 ≤ n ∧ n ≤ 0x46 then some (n - 0x41 + 10)
  else if 0x61 ≤ n ∧ n ≤ 0x66 then some (n - 0x61 + 10)
  else none

/-- The capital digit of a value below sixteen. -/
def digit (n : Nat) : Char :=
  if n < 10 then Char.ofNat (0x30 + n) else Char.ofNat (0x41 + (n - 10))

/-- The two capital digits of a byte. -/
def encodeByte (b : UInt8) : Text :=
  [digit (b.toNat / 16), digit (b.toNat % 16)]

/-- The capital digits of a byte sequence. -/
def encode (bytes : List UInt8) : Text :=
  bytes.flatMap encodeByte

/-- The value of a byte as a digit, or the fault it is at `position`. -/
def value (byte : UInt8) (position : Nat) : Except Error Nat :=
  match digit? (Char.ofNat byte.toNat) with
  | some n => .ok n
  | none => .error (.invalidDigit byte position)

/-- The bytes of the digit pairs from `position` on. -/
def pairs (position : Nat) : List UInt8 → Except Error (List UInt8)
  | [] => .ok []
  | [_] => .error .oddLength
  | high :: low :: rest => do
    let h ← value high position
    let l ← value low (position + 1)
    let bytes ← pairs (position + 2) rest
    return UInt8.ofNat (h * 16 + l) :: bytes

/-- The bytes of a text of hexadecimal digits. -/
def decode (t : Text) : Except Error (List UInt8) :=
  let bytes := Utf8.encode t
  if bytes.length % 2 = 1 then .error .oddLength else pairs 0 bytes

end InstallerRegistry.Hex
