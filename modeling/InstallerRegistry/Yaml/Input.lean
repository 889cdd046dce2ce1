import InstallerRegistry.Text

/-!
# The characters of a YAML stream, each in its place

Indentation is meaning in YAML, and a mapping key has to stand on one line, so every character is
paired with its **place**: its line, its column and its number from the start. With the places in
the input, a reader of any token is a plain function on a list.

Line feed, carriage return, their pair and the next-line character all end a line in the same way
and are one line feed here. The line and paragraph separators end a line too, but stay what they
are.
-/

namespace InstallerRegistry.Yaml

/-- Where a character stands, counted from zero. -/
structure Place where
  line : Nat
  column : Nat
  index : Nat
deriving DecidableEq, Repr

/-- The characters still to be read, each in its place. -/
abbrev Input := List (Char × Place)

namespace Input

/-! ## Characters -/

/-- May the character occur in a stream? -/
def isAllowed (c : Char) : Bool :=
  let n := c.toNat
  n == 0x9 || n == 0xA || n == 0xD || (0x20 ≤ n && n ≤ 0x7E) || n == 0x85
    || (0xA0 ≤ n && n ≤ 0xD7FF) || (0xE000 ≤ n && n ≤ 0xFFFD) || 0x10000 ≤ n

/-- Does the character end a line? -/
def isBreak (c : Char) : Bool :=
  c == '\n' || c == '\u2028' || c == '\u2029'

/-- Is the character a space or a tab? -/
def isBlank (c : Char) : Bool :=
  c == ' ' || c == '\t'

/-- May the character occur in a name: of an anchor, a tag handle or a directive? -/
def isNameChar (c : Char) : Bool :=
  c.isAlphanum || c == '_' || c == '-'

/-- A text with every line that ends in a carriage return, alone or before a line feed, or in a
next-line character ended by a line feed. -/
def normalizeBreaks : Text → Text
  | [] => []
  | '\r' :: '\n' :: rest => '\n' :: normalizeBreaks rest
  | c :: rest => (if c = '\r' ∨ c = '\u0085' then '\n' else c) :: normalizeBreaks rest

/-- The characters of a text, the first of them at the place `p`. -/
def locateFrom (p : Place) : Text → Input
  | [] => []
  | c :: rest =>
    let next : Place :=
      if isBreak c then ⟨p.line + 1, 0, p.index + 1⟩ else ⟨p.line, p.column + 1, p.index + 1⟩
    (c, p) :: locateFrom next rest

/-- The characters of a stream in their places, unless one of them may not occur in a stream. -/
def ofText? (t : Text) : Option Input :=
  if t.all isAllowed then some (locateFrom ⟨0, 0, 0⟩ (normalizeBreaks t)) else none

/-! ## Looking ahead -/

/-- Does the input go on with a blank or a line break, or end? -/
def isGap : Input → Bool
  | [] => true
  | (c, _) :: _ => isBlank c || isBreak c

/-- Does the line end here? -/
def isLineEnd : Input → Bool
  | [] => true
  | (c, _) :: _ => isBreak c

/-- Does the input go on with one of the characters of `cs`? -/
def beginsWith (cs : Text) : Input → Bool
  | [] => false
  | (c, _) :: _ => cs.contains c

/-- Does a line of its own, three times the character `c` at its start, begin here? -/
def isMark (c : Char) : Input → Bool
  | (c₁, p) :: (c₂, _) :: (c₃, _) :: rest =>
    p.column == 0 && c₁ == c && c₂ == c && c₃ == c && isGap rest
  | _ => false

/-- Does a mark that starts or ends a document begin here? -/
def isDocumentMark (s : Input) : Bool :=
  isMark '-' s || isMark '.' s

/-- Does the next character stand left of a column? -/
def isLeftOf (column : Nat) : Input → Bool
  | [] => false
  | (_, p) :: _ => p.column < column

/-! ## Passing over -/

/-- The input behind the blanks at its front. -/
def skipBlanks (s : Input) : Input :=
  s.dropWhile fun (c, _) => isBlank c

/-- The input at the end of the line. -/
def skipLine (s : Input) : Input :=
  s.dropWhile fun (c, _) => !isBreak c

/-- The input behind the line break at its front, if there is one. -/
def skipBreak : Input → Input
  | [] => []
  | (c, p) :: rest => if isBreak c then rest else (c, p) :: rest

/-- The input behind blanks, a comment and the line break, if nothing else is on the line. -/
def endLine? (s : Input) : Option Input :=
  let s := skipBlanks s
  let s := if beginsWith ['#'] s then skipLine s else s
  if isLineEnd s then some (skipBreak s) else none

/-! ## Gaps inside a scalar -/

/-- The blanks and the line breaks of a gap between two words: the blanks before the first break,
and the breaks. -/
structure Gap where
  blanks : Text
  breaks : Text

namespace Gap

/-- What a gap contributes to the scalar: its blanks if it stays on one line; otherwise one space
for a single line feed, and of several breaks all but a first line feed. -/
def folded (g : Gap) : Text :=
  match g.breaks with
  | [] => g.blanks
  | ['\n'] => [' ']
  | '\n' :: more => more
  | breaks => breaks

end Gap

/-- The gap at the front of the input, and the rest. Blanks behind a break are indentation;
`broken` says that a break has gone before. A tab that stands as indentation left of the column
`limit` is refused. -/
def gap? (limit : Nat) (broken : Bool) : Input → Option (Gap × Input)
  | [] => some (⟨[], []⟩, [])
  | (c, p) :: rest =>
    if isBlank c then
      if broken && c == '\t' && p.column < limit then none
      else do
        let (g, s) ← gap? limit broken rest
        return (if broken then g else { g with blanks := c :: g.blanks }, s)
    else if isBreak c then do
      let (g, s) ← gap? limit true rest
      return ({ g with breaks := c :: g.breaks }, s)
    else some (⟨[], []⟩, (c, p) :: rest)

end Input

end InstallerRegistry.Yaml
