import InstallerRegistry.Text.Hex
import InstallerRegistry.Yaml.Input
import InstallerRegistry.Yaml.Token

/-!
# Anchors, tags and directives

An anchor names a node, an alias stands for the node of that name, and a tag says what kind of
thing a node is. A tag is a handle, which a directive may have declared, and a suffix, in which any
byte can be written as `%` and two hexadecimal digits; or it is written in full between angle
brackets. Directives stand on lines of their own before a document.
-/

namespace InstallerRegistry.Yaml.Token

open Input

/-! ## Anchors and aliases -/

/-- The letters, digits, underscores and hyphens at the front of the input, and the rest. -/
def name (s : Input) : Text × Input :=
  ((s.takeWhile fun (c, _) => isNameChar c).map Prod.fst, s.dropWhile fun (c, _) => isNameChar c)

/-- The name of an anchor or an alias, from behind its indicator on. A gap or an indicator has to
follow it. -/
def anchorName? (s : Input) : Option (Text × Input) :=
  let (name, rest) := name s
  if name.isEmpty then none
  else if isGap rest || beginsWith ['?', ':', ',', ']', '\x7d', '%', '@', '\x60'] rest then
    some (name, rest)
  else none

/-! ## Tags -/

/-- The number of bytes of a UTF-8 character that begins with the byte `b`. -/
def byteCount? (b : Nat) : Option Nat :=
  if b < 0x80 then some 1
  else if b < 0xC0 then none
  else if b < 0xE0 then some 2
  else if b < 0xF0 then some 3
  else if b < 0xF8 then some 4
  else none

/-- May the character stand for itself in a tag? Inside angle brackets (`full`) a comma and square
brackets may, too. -/
def isTagChar (full : Bool) (c : Char) : Bool :=
  isNameChar c || [';', '/', '?', ':', '@', '&', '=', '+', '$', '.', '!', '~', '*', '\'', '(',
    ')'].contains c || (full && [',', '[', ']'].contains c)

/-- The bytes of the part of a tag at the front of the input, and the rest. Escaped bytes come in
groups of one character each, of which `owed` bytes are still to follow. -/
def tagBytes? (full : Bool) (owed : Nat) : Input → Option (List UInt8 × Input)
  | ('%', _) :: (a, _) :: (b, _) :: rest => do
    let v := (← Hex.digit? a) * 16 + (← Hex.digit? b)
    let owed ← if owed = 0 then (byteCount? v).map (· - 1)
      else if 0x80 ≤ v ∧ v < 0xC0 then some (owed - 1) else none
    let (bytes, rest) ← tagBytes? full owed rest
    return (UInt8.ofNat v :: bytes, rest)
  | (c, p) :: rest =>
    if c = '%' ∨ owed ≠ 0 then none
    else if isTagChar full c then do
      let (bytes, rest) ← tagBytes? full 0 rest
      return (UInt8.ofNat c.toNat :: bytes, rest)
    else some ([], (c, p) :: rest)
  | [] => if owed = 0 then some ([], []) else none

/-- A tag handle, or what looks like one: an exclamation mark, a name, and perhaps another
exclamation mark. -/
def handle? : Input → Option (Text × Input)
  | ('!', _) :: rest =>
    let (name, rest) := name rest
    match rest with
    | ('!', _) :: rest => some ('!' :: name ++ ['!'], rest)
    | rest => some ('!' :: name, rest)
  | _ => none

/-- The tag at the front of the input, as its handle and its suffix. Without a closing exclamation
mark, what follows the first one belongs to the suffix. The bare mark is a tag in full. -/
def tag? (flow : Bool) (s : Input) : Option (Text × List UInt8 × Input) := do
  let (handle, suffix, rest) ←
    if beginsWith ['<'] (s.drop 1) then do
      let (bytes, rest) ← tagBytes? true 0 (s.drop 2)
      if bytes.isEmpty || !beginsWith ['>'] rest then none
      else some (([] : Text), bytes, rest.drop 1)
    else do
      let (handle, rest) ← handle? s
      if 1 < handle.length && handle.getLast? == some '!' then
        let (bytes, rest) ← tagBytes? false 0 rest
        if bytes.isEmpty then none else some (handle, bytes, rest)
      else
        let (bytes, rest) ← tagBytes? false 0 rest
        let suffix := (handle.drop 1).map (fun c => UInt8.ofNat c.toNat) ++ bytes
        if suffix.isEmpty then some ([], [UInt8.ofNat '!'.toNat], rest)
        else some (['!'], suffix, rest)
  if isGap rest || (flow && beginsWith [','] rest) then return (handle, suffix, rest) else none

/-! ## Directives -/

/-- A number of at most nine digits, and the rest. -/
def versionNumber? (s : Input) : Option (Nat × Input) :=
  let digits := (s.takeWhile fun (c, _) => c.isDigit).map Prod.fst
  if digits.isEmpty || 9 < digits.length then none
  else some (Nat.ofDigitChars 10 digits 0, s.drop digits.length)

/-- The version that a directive declares: two numbers with a point between them. -/
def version? (s : Input) : Option (Token × Input) := do
  let (major, rest) ← versionNumber? (skipBlanks s)
  if beginsWith ['.'] rest then
    let (minor, rest) ← versionNumber? (rest.drop 1)
    return (.version major minor, rest)
  else none

/-- The handle that a directive declares, and what it is short for, with a blank between them. -/
def tagHandle? (s : Input) : Option (Token × Input) := do
  let (handle, rest) ← handle? (skipBlanks s)
  if handle != ['!'] && handle.getLast? != some '!' then none
  else if !(rest.head?.any fun (c, _) => isBlank c) then none
  else
    let (bytes, rest) ← tagBytes? true 0 (skipBlanks rest)
    if bytes.isEmpty || !isGap rest then none
    else return (.tagHandle handle bytes, rest)

/-- The directive at the front of the input, from behind its percent sign on, with its line. -/
def directive? (s : Input) : Option (Token × Input) := do
  let (name, rest) := name s
  if !isGap rest then none
  else
    let (token, rest) ←
      if name == "YAML".toList then version? rest
      else if name == "TAG".toList then tagHandle? rest
      else none
    return (token, ← endLine? rest)

end InstallerRegistry.Yaml.Token
