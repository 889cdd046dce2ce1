import InstallerRegistry.Text

/-!
# Windows-1252

One byte is one character. Outside the range `0x80` to `0x9F` a byte is the character of that
number. Inside it, 27 bytes stand for letters and punctuation from elsewhere in Unicode, and the
five that are not assigned stand for the control character of their own number, so that every byte
sequence is some text.
-/

namespace InstallerRegistry.Windows1252

/-- The characters of the bytes `0x80` to `0x9F`. -/
def upperControls : List Nat :=
  [0x20AC, 0x81, 0x201A, 0x0192, 0x201E, 0x2026, 0x2020, 0x2021,
   0x02C6, 0x2030, 0x0160, 0x2039, 0x0152, 0x8D, 0x017D, 0x8F,
   0x90, 0x2018, 0x2019, 0x201C, 0x201D, 0x2022, 0x2013, 0x2014,
   0x02DC, 0x2122, 0x0161, 0x203A, 0x0153, 0x9D, 0x017E, 0x0178]

/-- The character of a byte. -/
def decodeByte (b : UInt8) : Char :=
  let n := b.toNat
  if 0x80 ≤ n ∧ n < 0xA0 then Char.ofNat (upperControls.getD (n - 0x80) n) else Char.ofNat n

/-- The text of a byte sequence. -/
def decode (bytes : List UInt8) : Text :=
  bytes.map decodeByte

end InstallerRegistry.Windows1252
