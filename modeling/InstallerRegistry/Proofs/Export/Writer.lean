import InstallerRegistry.Export.Contents
import InstallerRegistry.Proofs.Text.Hex

/-!
# A writer of exports

The counterpart of the reader of exports: `Layout.document` writes entries down as an export of
version 5, each under a section header of its own. What a writer is free to choose is a `Layout`
(how lines end and which case digits have) and, for each entry, the places where a list of bytes
goes on in the next line.

`IsWritable` says which entries have a written form. A list of strings is written as UTF-16
with a NUL behind each string and one more at the end, so none of its strings may hold a NUL, and
the last one may not be empty: NULs at the end belong to no string.
-/

namespace InstallerRegistry.Export

/-- The blanks at the start of a line. A line feed is not among them, since it would end the
line. -/
structure Indentation where
  text : Text
  isBlank : ∀ c ∈ text, Text.isBlank c = true
  noLineFeed : '\n' ∉ text

/-- So many blanks. -/
def Indentation.spaces (n : Nat) : Indentation where
  text := List.replicate n ' '
  isBlank c hc := by
    rw [List.eq_of_mem_replicate hc]
    decide
  noLineFeed h := absurd (List.eq_of_mem_replicate h) (by decide)

theorem Indentation.text_spaces_zero : (spaces 0).text = [] :=
  rfl

/-- How a list of bytes is broken into lines: for each of its commas, in order, whether the line
ends behind it and how far the next one is indented. Commas beyond the list stay inside a line. -/
abbrev Breaks := List (Option Indentation)

/-- What a writer of exports is free to choose. -/
structure Layout where
  /-- Does a carriage return stand before each line feed? -/
  carriageReturns : Bool := true
  /-- Are hexadecimal digits capital letters? -/
  capitals : Bool := false

namespace Layout

/-- What stands between the end of a line and its line feed. -/
def margin (l : Layout) : Text :=
  if l.carriageReturns then ['\r'] else []

/-- A line with its end. -/
def line (l : Layout) (t : Text) : Text :=
  t ++ l.margin ++ ['\n']

/-! ## Data -/

/-- The digit of a value below sixteen. -/
def digit (l : Layout) (n : Nat) : Char :=
  if l.capitals then Hex.digit n else (Hex.digit n).toLower

/-- The two digits of a byte. -/
def byte (l : Layout) (b : UInt8) : Text :=
  [l.digit (b.toNat / 16), l.digit (b.toNat % 16)]

theorem digit?_digit (l : Layout) {n : Nat} (h : n < 16) :
    Hex.digit? (l.digit n) = some n := by
  unfold digit
  split
  next => exact Hex.digit?_digit n h
  next => exact Hex.digit?_toLower_digit n h

/-- The digits of bytes spell them. -/
theorem spells_flatMap_byte (l : Layout) (bytes : List UInt8) :
    Hex.Spells bytes (bytes.flatMap l.byte) := by
  induction bytes with
  | nil => exact .nil
  | cons b bytes ih =>
    have hb := b.toNat_lt
    exact .cons (l.digit?_digit (by omega)) (l.digit?_digit (by omega)) ih

/-- What stands behind a comma: nothing, or a backslash, the end of the line and the indentation of
the next one. -/
def lineBreak (l : Layout) : Option Indentation → Text
  | none => []
  | some i => l.line ['\\'] ++ i.text

/-- A list of bytes. -/
def pairs (l : Layout) (breaks : Breaks) : List UInt8 → Text
  | [] => []
  | [b] => l.byte b
  | b :: bytes => l.byte b ++ ',' :: l.lineBreak breaks.head?.join ++ l.pairs breaks.tail bytes

theorem pairs_cons_cons (l : Layout) (breaks : Breaks) (b b' : UInt8) (bytes : List UInt8) :
    l.pairs breaks (b :: b' :: bytes)
      = l.byte b ++ ',' :: l.lineBreak breaks.head?.join ++ l.pairs breaks.tail (b' :: bytes) :=
  rfl

/-- The four bytes of a number of thirty-two bits, high byte first. -/
def bytesOfDword (n : Nat) : List UInt8 :=
  [UInt8.ofNat (n / 0x1000000), UInt8.ofNat (n / 0x10000), UInt8.ofNat (n / 0x100), UInt8.ofNat n]

/-- The eight digits of a number of thirty-two bits. -/
def dword (l : Layout) (n : Nat) : Text :=
  (bytesOfDword n).flatMap l.byte

/-- The bytes of the strings in a list: each string and a NUL, then one more NUL. -/
def bytesOfStrings (strings : List Text) : List UInt8 :=
  Utf16.encode (strings.flatMap (· ++ ['\x00']) ++ ['\x00'])

/-- The data of a value. Text with a line feed is the list of its lines; an integer is the number of
thirty-two bits that is its two's complement. -/
def data (l : Layout) (breaks : Breaks) : RegistryValue → Text
  | .text t =>
    if '\n' ∈ t then
      "hex(7):".toList ++ l.pairs breaks (bytesOfStrings (Text.splitOn '\n' t))
    else Quoted.encode t
  | .binary bytes => "hex:".toList ++ l.pairs breaks bytes
  | .int16 n => "dword:".toList ++ l.dword n.toInt32.toUInt32.toNat
  | .int32 n => "dword:".toList ++ l.dword n.toUInt32.toNat

theorem data_list (l : Layout) (breaks : Breaks) {t : Text} (h : '\n' ∈ t) :
    l.data breaks (.text t)
      = "hex(7):".toList ++ l.pairs breaks (bytesOfStrings (Text.splitOn '\n' t)) :=
  if_pos h

theorem data_string (l : Layout) (breaks : Breaks) {t : Text} (h : '\n' ∉ t) :
    l.data breaks (.text t) = Quoted.encode t :=
  if_neg h

/-! ## Entries -/

/-- The header of the section of a key. -/
def header (hive : Hive) (key : Text) : Text :=
  '[' :: hive.longName ++ (if key.isEmpty then [] else '\\' :: key) ++ [']']

/-- The name of a value. -/
def name (t : Text) : Text :=
  if t.isEmpty then ['@'] else Quoted.encode t

/-- The assignment of a value to its name. -/
def assignment (l : Layout) (breaks : Breaks) (e : Entry) : Text :=
  name e.name ++ '=' :: (e.value.map (l.data breaks)).getD ['-']

/-- An entry in a section of its own. -/
def entry (l : Layout) (breaks : Breaks) (e : Entry) : Text :=
  l.line (header e.hive e.key) ++ l.line (l.assignment breaks e)

/-- **The export of some entries**, each with the places where its bytes are broken. -/
def document (l : Layout) (items : List (Entry × Breaks)) : Text :=
  l.line Version.five.header ++ items.flatMap fun (e, breaks) => l.entry breaks e

end Layout

/-! ## What can be written -/

/-- Can the value be written and read back? -/
def IsWritableValue : RegistryValue → Prop
  | .text t => '\n' ∈ t → '\x00' ∉ t ∧ t.getLast? ≠ some '\n'
  | .binary _ => True
  | .int16 _ => False
  | .int32 _ => True

/-- **Can the entry be written and read back?** An export says nothing about how an entry is
installed. -/
structure IsWritable (e : Entry) : Prop where
  key : '\n' ∉ e.key
  name : '\n' ∉ e.name
  value : ∃ v, e.value = some v ∧ IsWritableValue v
  id : e.id = none
  feature : e.feature = none
  condition : e.condition = none
  win64 : e.win64 = false

end InstallerRegistry.Export
