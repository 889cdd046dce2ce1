import InstallerRegistry.Text

/-!
# UTF-16, little-endian

A character below `U+10000` is one unit of sixteen bits, any other a pair of surrogates, high
before low; each unit is written with its low byte first. Reading fails in two ways only: the
number of bytes is odd, or a surrogate stands without its partner.
-/

namespace InstallerRegistry.Utf16

/-- Why bytes are not UTF-16 text. -/
inductive Error where
  /-- The number of bytes is odd. -/
  | oddLength
  /-- A surrogate stands without its partner. -/
  | loneSurrogate
deriving DecidableEq, Repr

/-- The wording of a fault in UTF-16 data. -/
def Error.message : Error → Text
  | oddLength => "odd number of bytes in UTF-16 data".toList
  | loneSurrogate => "invalid utf-16: lone surrogate found".toList

/-- The units of one character. -/
def unitsOf (c : Char) : List Nat :=
  let n := c.toNat
  if n < 0x10000 then [n]
  else [0xD800 + (n - 0x10000) / 0x400, 0xDC00 + (n - 0x10000) % 0x400]

/-- The two bytes of a unit, low byte first. -/
def bytesOf (unit : Nat) : List UInt8 :=
  [UInt8.ofNat (unit % 0x100), UInt8.ofNat (unit / 0x100)]

/-- The bytes of a text. -/
def encode (t : Text) : List UInt8 :=
  (t.flatMap unitsOf).flatMap bytesOf

/-- The units of a byte sequence. -/
def units : List UInt8 → Except Error (List Nat)
  | [] => .ok []
  | [_] => .error .oddLength
  | low :: high :: rest => do
    let us ← units rest
    return (low.toNat + 0x100 * high.toNat) :: us

/-- The text of a unit sequence. -/
def ofUnits : List Nat → Except Error Text
  | [] => .ok []
  | u :: rest =>
    if u < 0xD800 ∨ 0xE000 ≤ u then do
      let t ← ofUnits rest
      return Char.ofNat u :: t
    else if u < 0xDC00 then
      match rest with
      | v :: rest =>
        if 0xDC00 ≤ v ∧ v < 0xE000 then do
          let t ← ofUnits rest
          return Char.ofNat (0x10000 + (u - 0xD800) * 0x400 + (v - 0xDC00)) :: t
        else .error .loneSurrogate
      | [] => .error .loneSurrogate
    else .error .loneSurrogate

/-- The text of a byte sequence. -/
def decode (bytes : List UInt8) : Except Error Text := do
  ofUnits (← units bytes)

end InstallerRegistry.Utf16
