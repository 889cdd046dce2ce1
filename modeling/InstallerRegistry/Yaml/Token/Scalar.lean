import InstallerRegistry.Text.Hex
import InstallerRegistry.Yaml.Input

/-!
# Scalars, as they are written

A scalar is plain, quoted or a block. Plain and quoted scalars are words with gaps between them
that are folded (`Input.Gap.folded`); a block scalar takes its lines as they stand, less their
indentation, and either keeps their breaks or folds them.

Each reader takes the input from the scalar's first character on and gives back the text and the
input behind it, or nothing if the scalar is malformed. Where a reader goes on after a word, it
does so only if that word took something off the input, so it always ends.
-/

namespace InstallerRegistry.Yaml.Token

open Input

/-! ## Plain scalars -/

/-- The word of a plain scalar at the front of the input. Inside brackets (`flow`), the indicators
of a flow collection end a word, and a colon must not stand before one of them. -/
def plainWord? (flow : Bool) : Input → Option (Text × Input)
  | [] => some ([], [])
  | (c, p) :: rest =>
    if isBlank c || isBreak c then some ([], (c, p) :: rest)
    else if flow && c == ':' && beginsWith [',', '?', '[', ']', '\x7b', '\x7d'] rest then none
    else if c == ':' && isGap rest then some ([], (c, p) :: rest)
    else if flow && [',', '[', ']', '\x7b', '\x7d'].contains c then some ([], (c, p) :: rest)
    else do
      let (word, s) ← plainWord? flow rest
      return (c :: word, s)

/-- The words of a plain scalar from the input on, which `between` separates from what has been
read already. Also says whether the scalar ends at the start of a line; `broken` says so if no
word follows. -/
def plainFrom? (flow : Bool) (indent : Nat) (between : Text) (broken : Bool) (s : Input) :
    Option (Text × Bool × Input) :=
  if isDocumentMark s || beginsWith ['#'] s then some ([], broken, s)
  else do
    let (word, rest) ← plainWord? flow s
    if word.isEmpty then return ([], broken, s)
    else if !isGap rest then return (between ++ word, false, rest)
    else
      let (gap, rest) ← gap? indent false rest
      let broken := !gap.breaks.isEmpty
      if !flow && isLeftOf indent rest then return (between ++ word, broken, rest)
      else if _h : rest.length < s.length then
        let (more, broken, rest) ← plainFrom? flow indent gap.folded broken rest
        return (between ++ word ++ more, broken, rest)
      else none
termination_by s.length

/-- The plain scalar at the front of the input. Its further lines stand at the column `indent` or
right of it. -/
def plain? (flow : Bool) (indent : Nat) (s : Input) : Option (Text × Bool × Input) :=
  plainFrom? flow indent [] false s

/-! ## Quoted scalars -/

/-- The number that `n` hexadecimal digits denote, and the rest. -/
def hexNumber? (n : Nat) (s : Input) : Option (Nat × Input) := do
  let digits ← (s.take n).mapM fun (c, _) => Hex.digit? c
  if digits.length = n then
    return (digits.foldl (fun v d => v * 16 + d) 0, s.drop n)
  else none

/-- The character that an escape stands for, from behind its backslash on, and the rest. -/
def escape? : Input → Option (Char × Input)
  | [] => none
  | (c, _) :: rest =>
    let numbered := fun n => do
      let (v, rest) ← hexNumber? n rest
      if v.isValidChar then return (Char.ofNat v, rest) else none
    match c with
    | '0' => some ('\x00', rest)
    | 'a' => some ('\x07', rest)
    | 'b' => some ('\x08', rest)
    | 't' => some ('\t', rest)
    | '\t' => some ('\t', rest)
    | 'n' => some ('\n', rest)
    | 'v' => some ('\x0b', rest)
    | 'f' => some ('\x0c', rest)
    | 'r' => some ('\r', rest)
    | 'e' => some ('\x1b', rest)
    | ' ' => some (' ', rest)
    | '"' => some ('"', rest)
    | '/' => some ('/', rest)
    | '\\' => some ('\\', rest)
    | 'N' => some ('\u0085', rest)
    | '_' => some ('\u00a0', rest)
    | 'L' => some ('\u2028', rest)
    | 'P' => some ('\u2029', rest)
    | 'x' => numbered 2
    | 'u' => numbered 4
    | 'U' => numbered 8
    | _ => none

/-- What stands at the front of a quoted scalar's word. -/
inductive QuotedPiece where
  /-- A character of the text, and the input behind the way it is written. -/
  | char (c : Char) (rest : Input)
  /-- A line break behind a backslash, and the input behind it. -/
  | escapedBreak (rest : Input)
  /-- A gap, the closing quote or the end of the input. -/
  | wordEnd

/-- The piece at the front of a word. In single quotes, two quotes are one; in double quotes, a
backslash starts an escape. -/
def quotedPiece? (single : Bool) : Input → Option QuotedPiece
  | [] => some .wordEnd
  | (c, _) :: rest =>
    if isBlank c || isBreak c then some .wordEnd
    else if single then
      if c != '\'' then some (.char c rest)
      else if beginsWith ['\''] rest then some (.char c (rest.drop 1))
      else some .wordEnd
    else if c == '"' then some .wordEnd
    else if c != '\\' then some (.char c rest)
    else
      match rest with
      | [] => none
      | (b, _) :: behind =>
        if isBreak b then some (.escapedBreak behind)
        else (escape? rest).map fun (e, rest) => .char e rest

/-- A word of a quoted scalar, as far as the next gap or the closing quote, and the rest. Also
says whether an escaped line break ended it. -/
def quotedWord? (single : Bool) (s : Input) : Option (Text × Bool × Input) :=
  match quotedPiece? single s with
  | none => none
  | some .wordEnd => some ([], false, s)
  | some (.escapedBreak rest) => some ([], true, rest)
  | some (.char c rest) =>
    if _h : rest.length < s.length then do
      let (word, escaped, rest) ← quotedWord? single rest
      return (c :: word, escaped, rest)
    else none
termination_by s.length

/-- A quoted scalar from behind its opening quote on. No line inside it may look like the start or
the end of a document. Behind an escaped line break, every further break counts. -/
def quoted? (single : Bool) (s : Input) : Option (Text × Input) :=
  if isDocumentMark s || s.isEmpty then none
  else do
    let (word, escaped, rest) ← quotedWord? single s
    if beginsWith [if single then '\'' else '"'] rest then return (word, rest.drop 1)
    else
      let (gap, rest) ← gap? 0 escaped rest
      if _h : rest.length < s.length then
        let (more, rest) ← quoted? single rest
        return (word ++ (if escaped then gap.breaks else gap.folded) ++ more, rest)
      else none
termination_by s.length

/-! ## Block scalars -/

/-- What becomes of the line breaks at the end of a block scalar. -/
inductive Chomping where
  /-- All are dropped. -/
  | strip
  /-- The first is kept. -/
  | clip
  /-- All are kept. -/
  | keep
deriving DecidableEq, Repr

/-- The chomping that an indicator asks for. -/
def chomping? : Char → Option Chomping
  | '+' => some .keep
  | '-' => some .strip
  | _ => none

/-- A digit from one to nine at the front of the input; zero stands for no digit. A digit zero is
refused. -/
def indentDigit? : Input → Option (Nat × Input)
  | [] => some (0, [])
  | (c, p) :: rest =>
    if c == '0' then none
    else if c.isDigit then some (c.toNat - 0x30, rest)
    else some (0, (c, p) :: rest)

/-- The header of a block scalar: its chomping and the indentation it announces, in either order,
and nothing else on the line. -/
def blockHeader? (s : Input) : Option (Chomping × Nat × Input) := do
  let lead := s.head?.bind fun (c, _) => chomping? c
  match lead with
  | some chomping =>
    let (increment, rest) ← indentDigit? (s.drop 1)
    return (chomping, increment, ← endLine? rest)
  | none =>
    let (increment, rest) ← indentDigit? s
    let trail := if increment = 0 then none else rest.head?.bind fun (c, _) => chomping? c
    match trail with
    | some chomping => return (chomping, increment, ← endLine? (rest.drop 1))
    | none => return (.clip, increment, ← endLine? rest)

/-- The line breaks between lines of a block scalar, with the indentation around them, the
rightmost column that the indentation reaches, and the rest. An indentation of zero is one not
known yet. A tab must not stand where indentation is due. -/
def blockBreaks? (indent reached : Nat) : Input → Option (Text × Nat × Input)
  | [] => some ([], reached, [])
  | (c, p) :: rest =>
    let due : Bool := indent = 0 || p.column < indent
    if c == ' ' && due then blockBreaks? indent reached rest
    else
      let reached := max reached p.column
      if c == '\t' && due then none
      else if isBreak c then do
        let (breaks, reached, s) ← blockBreaks? indent reached rest
        return (c :: breaks, reached, s)
      else some ([], reached, (c, p) :: rest)

/-- A block scalar as far as it has been read: the break that ended its last line, the breaks of
the empty lines behind it, and whether that last line began with a blank. -/
structure BlockTail where
  lineBreak : Text
  emptyLines : Text
  startsBlank : Bool

/-- What stands between a line and the next one, which starts with a blank or not. A folded scalar
turns the break between two lines that start with no blank into a space, unless empty lines
follow it. -/
def BlockTail.before (tail : BlockTail) (literal startsBlank : Bool) : Text :=
  if !literal && tail.lineBreak == ['\n'] && !tail.startsBlank && !startsBlank then
    if tail.emptyLines.isEmpty then [' '] else tail.emptyLines
  else tail.lineBreak ++ tail.emptyLines

/-- The lines of a block scalar at the column `indent`. -/
def blockLines? (literal : Bool) (indent : Nat) (tail : BlockTail) (s : Input) :
    Option (Text × BlockTail × Input) :=
  match s.head? with
  | none => some ([], tail, s)
  | some (c, p) =>
    if p.column ≠ indent then some ([], tail, s)
    else do
      let line := (s.takeWhile fun (c, _) => !isBreak c).map Prod.fst
      let rest := skipLine s
      let lineBreak := (rest.take 1).map Prod.fst
      let (emptyLines, _, rest) ← blockBreaks? indent 0 (skipBreak rest)
      if _h : rest.length < s.length then
        let (more, last, rest) ← blockLines? literal indent ⟨lineBreak, emptyLines, isBlank c⟩ rest
        return (tail.before literal (isBlank c) ++ line ++ more, last, rest)
      else none
termination_by s.length

/-- A block scalar from behind its indicator on, inside a collection at the column `outer`, if
any. -/
def block? (literal : Bool) (outer : Option Nat) (s : Input) : Option (Text × Input) := do
  let (chomping, increment, rest) ← blockHeader? s
  let announced := if increment = 0 then 0 else outer.getD 0 + increment
  let (emptyLines, reached, rest) ← blockBreaks? announced 0 rest
  let least := (outer.map (· + 1)).getD 0
  let indent := if announced = 0 then max (max reached least) 1 else announced
  let (text, tail, rest) ← blockLines? literal indent ⟨[], emptyLines, false⟩ rest
  let ending :=
    match chomping with
    | .strip => []
    | .clip => tail.lineBreak
    | .keep => tail.lineBreak ++ tail.emptyLines
  return (text ++ ending, rest)

end InstallerRegistry.Yaml.Token
