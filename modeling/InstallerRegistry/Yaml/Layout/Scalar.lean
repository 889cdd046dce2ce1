import InstallerRegistry.Text.Hex
import InstallerRegistry.Yaml.CoreSchema
import InstallerRegistry.Yaml.Input
import InstallerRegistry.Yaml.Token

/-!
# The layout of scalars

A text is written in the plainest style that keeps it: plain if it then reads as itself, between
single quotes if it would read as something else, as a literal block if it has a line feed, and
between double quotes if no other style can hold it (`chooseStyle`). What a style can hold is
settled by a few **traits** of the text: where spaces and line breaks stand, whether it has
characters that can only be escaped, and whether it looks like the syntax of the format.
-/

namespace InstallerRegistry.Yaml.Layout

open Input (isBreak)

/-! ## Traits of a text -/

/-- Can the character be written as itself? -/
def isPrintable (c : Char) : Bool :=
  let n := c.toNat
  n == 0xA || (0x20 ≤ n && n ≤ 0x7E) || (0xA0 ≤ n && n ≤ 0xD7FF)
    || (0xE000 ≤ n && n ≤ 0xFFFD && n != 0xFEFF) || 0x10000 ≤ n

/-- Does a word end before the text? -/
def isGap : Text → Bool
  | [] => true
  | c :: _ => Input.isBlank c || isBreak c

/-- Does some neighbouring pair of characters have a property? -/
def anyPair (p : Char → Char → Bool) : Text → Bool
  | a :: b :: rest => p a b || anyPair p (b :: rest)
  | _ => false

/-- Does a space stand before a line break? -/
def hasSpaceBreak : Text → Bool :=
  anyPair fun a b => a == ' ' && isBreak b

/-- Does a line break stand before a space? -/
def hasBreakSpace : Text → Bool :=
  anyPair fun a b => isBreak a && b == ' '

/-- Can only double quotes hold the text? -/
def needsEscapes (t : Text) : Bool :=
  hasSpaceBreak t || !t.all isPrintable

/-- The characters that never start a plain scalar. -/
def startIndicators : Text :=
  "#,[]\x7b\x7d&*!|>'\"%@\x60".toList

/-- Does the text start with syntax? -/
def startsLikeSyntax (t : Text) : Bool :=
  Text.startsWith ['-', '-', '-'] t || Text.startsWith ['.', '.', '.'] t
    || match t with
      | [] => false
      | c :: rest =>
        startIndicators.contains c || ((c == '?' || c == ':' || c == '-') && isGap rest)

/-- Does the text have syntax behind its first character, which is `previous`? -/
def hasSyntaxAfter (previous : Char) : Text → Bool
  | [] => false
  | c :: rest =>
    (c == ':' && isGap rest) || (c == '#' && isGap [previous]) || hasSyntaxAfter c rest

/-- Does the text look like syntax? -/
def looksLikeSyntax (t : Text) : Bool :=
  startsLikeSyntax t
    || match t with
      | [] => false
      | c :: rest => hasSyntaxAfter c rest

/-- Does a space or a line break stand at an end of the text? -/
def hasMargin (t : Text) : Bool :=
  let isMargin := fun c => c == ' ' || isBreak c
  t.head?.any isMargin || t.getLast?.any isMargin

/-! ## Choosing a style -/

/-- Does the text have a line break? -/
def isMultiline (t : Text) : Bool :=
  t.any isBreak || t.any fun c => c == '\r' || c == '\u0085'

/-- Can the text be written plain? -/
def fitsPlain (t : Text) : Bool :=
  !(needsEscapes t || isMultiline t || hasMargin t || looksLikeSyntax t)

/-- Can the text be written between single quotes? -/
def fitsSingleQuotes (t : Text) : Bool :=
  !(needsEscapes t || hasBreakSpace t)

/-- Can the text be written as a literal block? -/
def fitsLiteral (t : Text) : Bool :=
  !(needsEscapes t || t.isEmpty || Text.endsWith ' ' t)

/-- The style a text is given if it can be. -/
def wantedStyle (t : Text) : Style :=
  if '\n' ∈ t then .literal
  else if CoreSchema.isPlainText t then .plain
  else .singleQuoted

/-- **The style a text is written in**, where another is wanted. -/
def chooseStyle (wanted : Style) (t : Text) : Style :=
  match wanted with
  | .plain =>
    if fitsPlain t then .plain
    else if fitsSingleQuotes t then .singleQuoted
    else .doubleQuoted
  | .singleQuoted => if fitsSingleQuotes t then .singleQuoted else .doubleQuoted
  | .literal => if fitsLiteral t then .literal else .doubleQuoted
  | style => style

/-! ## Writing in a style -/

/-- Some spaces. -/
def spaces (n : Nat) : Text :=
  List.replicate n ' '

/-- The text with each of its lines behind the first indented; `broken` says that a line starts
here. -/
def indentLines (indent : Nat) (broken : Bool) : Text → Text
  | [] => []
  | c :: rest =>
    if isBreak c then c :: indentLines indent true rest
    else if broken then spaces indent ++ c :: indentLines indent false rest
    else c :: indentLines indent false rest

/-- The text between single quotes; a quote in it is written twice. -/
def singleQuoted (indent : Nat) (t : Text) : Text :=
  let margin := if t.getLast?.any isBreak then spaces indent else []
  '\'' :: indentLines indent false (t.flatMap fun c => if c = '\'' then ['\'', '\''] else [c])
    ++ margin ++ ['\'']

/-- The digits of a number in base sixteen, at least `width` of them. -/
def hexDigits (width n : Nat) : Text :=
  (List.range width).reverse.map fun i => Hex.digit (n / Nat.pow 16 i % 16)

/-- How a character is written between double quotes. -/
def escape (c : Char) : Text :=
  let letter := fun e => ['\\', e]
  match c with
  | '\x00' => letter '0'
  | '\x07' => letter 'a'
  | '\x08' => letter 'b'
  | '\t' => letter 't'
  | '\n' => letter 'n'
  | '\x0b' => letter 'v'
  | '\x0c' => letter 'f'
  | '\r' => letter 'r'
  | '\x1b' => letter 'e'
  | '"' => letter '"'
  | '\\' => letter '\\'
  | '\u0085' => letter 'N'
  | '\u2028' => letter 'L'
  | '\u2029' => letter 'P'
  | c =>
    let n := c.toNat
    if isPrintable c then [c]
    else if n < 0x100 then '\\' :: 'x' :: hexDigits 2 n
    else if n < 0x10000 then '\\' :: 'u' :: hexDigits 4 n
    else '\\' :: 'U' :: hexDigits 8 n

/-- The text between double quotes. -/
def doubleQuoted (t : Text) : Text :=
  '"' :: t.flatMap escape ++ ['"']

/-- What the header of a literal block says: the indentation, if the text starts with a space or a
line break; and what becomes of the line breaks at its end. -/
def literalHints (t : Text) : Text :=
  let start := if t.head?.any fun c => c == ' ' || isBreak c then ['2'] else []
  let atEnd :=
    match t.reverse with
    | [] => ['-']
    | [c] => if isBreak c then ['+'] else ['-']
    | c :: d :: _ => if !isBreak c then ['-'] else if isBreak d then ['+'] else []
  start ++ atEnd

/-- The text as a literal block. -/
def literal (indent : Nat) (t : Text) : Text :=
  '|' :: literalHints t ++ '\n' :: indentLines indent true t

/-- A scalar with the style it is given if it can be. -/
structure Scalar where
  text : Text
  wanted : Style

namespace Scalar

/-- The style of a scalar. -/
def style (s : Scalar) : Style :=
  chooseStyle s.wanted s.text

/-- The written form of a scalar, its lines behind the first being indented. -/
def write (indent : Nat) (s : Scalar) : Text :=
  match s.style with
  | .plain => s.text
  | .singleQuoted => singleQuoted indent s.text
  | .literal => literal indent s.text
  | _ => doubleQuoted s.text

/-- The end of the line that a scalar ends on; a literal block may have ended it already. -/
def lineEnd (s : Scalar) : Text :=
  if s.style = .literal && s.text.getLast?.any isBreak then [] else ['\n']

end Scalar

end InstallerRegistry.Yaml.Layout
