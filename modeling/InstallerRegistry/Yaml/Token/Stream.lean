import InstallerRegistry.Yaml.Token.Property
import InstallerRegistry.Yaml.Token.Scalar

/-!
# The tokens of a stream

Tokens are taken off the input one at a time. Between them the reader remembers which block
collections are open, by their columns, and which node might turn out to be a key: whether it is
one shows only at the colon behind it. Such a **candidate** is remembered by its number among the
tokens, and when the colon comes, the token that says "a key follows" is put in front of it.

A candidate that stands at the column of the open block mapping has to become a key; any other one
is forgotten when something else comes. A key stands on one line and is at most 1024 characters
long.

Every token takes something off the input (`Scanner.run?` insists on it), so the stream ends.
-/

namespace InstallerRegistry.Yaml

open Input

/-- A node that may turn out to be a key. -/
structure Candidate where
  /-- The number of the node's first token. -/
  number : Nat
  /-- Where the node starts. -/
  place : Place
  /-- Must the node be a key? -/
  required : Bool

/-- A stream that has been read in part. -/
structure Scanner where
  input : Input
  tokens : Array Token
  /-- The columns of the open block collections, innermost first. -/
  blocks : List Nat
  /-- The candidate of the flow collection that is open, or of the block around all of them. -/
  candidate : Option Candidate
  /-- The candidates of the collections around the open flow collection, innermost first. -/
  outer : List (Option Candidate)
  /-- May a node here be a key? -/
  keyAllowed : Bool

namespace Scanner

/-- Is a flow collection open? -/
def inFlow (s : Scanner) : Bool :=
  !s.outer.isEmpty

/-- The place of the next character. -/
def place (s : Scanner) : Place :=
  match s.input with
  | [] => ⟨0, 0, 0⟩
  | (_, p) :: _ => p

/-- The scanner with one more token, and with the input behind it. -/
def emit (s : Scanner) (token : Token) (rest : Input) : Scanner :=
  { s with tokens := s.tokens.push token, input := rest }

/-! ## Open collections -/

/-- Is the innermost open block collection left of the column? -/
def isIndented (s : Scanner) (column : Nat) : Bool :=
  match s.blocks with
  | [] => true
  | b :: _ => b < column

/-- A block collection opens at a column, unless it is open already or a flow collection is. Its
token gets the number `number`. -/
def openBlock (s : Scanner) (column number : Nat) (token : Token) : Scanner :=
  if !s.inFlow && s.isIndented column then
    { s with blocks := column :: s.blocks, tokens := s.tokens.insertIdxIfInBounds number token }
  else s

/-- The block collections of which `p` holds close, as far as they are innermost. -/
def closeBlocks (s : Scanner) (p : Nat → Bool) : Scanner :=
  let closed := s.blocks.takeWhile p
  { s with
    blocks := s.blocks.dropWhile p
    tokens := s.tokens ++ closed.toArray.map fun _ => Token.blockEnd }

/-- The block collections right of the next character close. -/
def closeIndented (s : Scanner) : Scanner :=
  if s.inFlow then s else s.closeBlocks fun b => s.place.column < b

/-! ## Candidates -/

/-- The candidate is forgotten, unless it has to be a key. -/
def dropCandidate? (s : Scanner) : Option Scanner :=
  match s.candidate with
  | some c => if c.required then none else some { s with candidate := none }
  | none => some s

/-- The node that starts here becomes the candidate, where a key may stand. -/
def markCandidate? (s : Scanner) : Option Scanner :=
  if s.keyAllowed then do
    let required := !s.inFlow && s.blocks.head? == some s.place.column
    let s' ← s.dropCandidate?
    return { s' with candidate := some ⟨s.tokens.size, s.place, required⟩ }
  else some s

/-- The candidate that a colon here makes a key. One that has to be a key, but starts on another
line or too far away, is refused. -/
def keyBefore? (s : Scanner) : Option (Option Candidate) :=
  match s.candidate with
  | none => some none
  | some c =>
    if c.place.line = s.place.line ∧ s.place.index ≤ c.place.index + 1024 then some (some c)
    else if c.required then none
    else some none

/-! ## Tokens of one kind -/

/-- A token that no key can span: no candidate stays, and `keyAllowed` says whether a key may
follow. -/
def indicator? (s : Scanner) (token : Token) (length : Nat) (keyAllowed : Bool) :
    Option Scanner := do
  let s ← s.dropCandidate?
  return { s with keyAllowed }.emit token (s.input.drop length)

/-- A mark at the start of a line, which closes every block. -/
def documentMark? (s : Scanner) (token : Token) : Option Scanner :=
  (s.closeBlocks fun _ => true).indicator? token 3 false

/-- A directive, which closes every block. -/
def directiveLine? (s : Scanner) : Option Scanner := do
  let s ← (s.closeBlocks fun _ => true).dropCandidate?
  let (token, rest) ← Token.directive? (s.input.drop 1)
  return { s with keyAllowed := false }.emit token rest

/-- A bracket that opens a flow collection. The collection may be a key itself. -/
def openFlow? (s : Scanner) (token : Token) : Option Scanner := do
  let s ← s.markCandidate?
  return { s with outer := s.candidate :: s.outer, candidate := none, keyAllowed := true }.emit
    token (s.input.drop 1)

/-- A bracket that closes a flow collection. -/
def closeFlow? (s : Scanner) (token : Token) : Option Scanner := do
  let s ← s.indicator? token 1 false
  match s.outer with
  | [] => return s
  | c :: outer => return { s with candidate := c, outer }

/-- The indicator of an item or of a key that stands on a line of its own; in block style, it
opens the collection it belongs to. -/
def blockIndicator? (s : Scanner) (opening token : Token) (keyAllowed : Bool) : Option Scanner :=
  if s.inFlow then s.indicator? token 1 keyAllowed
  else if s.keyAllowed then
    (s.openBlock s.place.column s.tokens.size opening).indicator? token 1 keyAllowed
  else none

/-- The colon before a value. If there is a candidate, it is the key; otherwise the key is empty or
has been announced. -/
def valueIndicator? (s : Scanner) : Option Scanner := do
  match ← s.keyBefore? with
  | some c =>
    let s := { s with tokens := s.tokens.insertIdxIfInBounds c.number .key, candidate := none }
    let s := s.openBlock c.place.column c.number .blockMappingStart
    return { s with keyAllowed := false }.emit .value (s.input.drop 1)
  | none =>
    if s.inFlow then
      return { s with keyAllowed := false }.emit .value (s.input.drop 1)
    else if s.keyAllowed then
      let s := s.openBlock s.place.column s.tokens.size .blockMappingStart
      return { s with keyAllowed := true }.emit .value (s.input.drop 1)
    else none

/-- A token that may start a key. -/
def keyStart? (s : Scanner) (read : Input → Option (Token × Input)) : Option Scanner := do
  let s ← s.markCandidate?
  let (token, rest) ← read s.input
  return { s with keyAllowed := false }.emit token rest

/-- A plain scalar. If it ends at the start of a line, a key may follow. -/
def plainScalar? (s : Scanner) : Option Scanner := do
  let s ← s.markCandidate?
  let indent := (s.blocks.head?.map (· + 1)).getD 0
  let (text, lineStart, rest) ← Token.plain? s.inFlow indent s.input
  return { s with keyAllowed := lineStart }.emit (.scalar .plain text) rest

/-- A block scalar. A key may follow it. -/
def blockScalar? (s : Scanner) (style : Style) : Option Scanner := do
  let s ← s.dropCandidate?
  let (text, rest) ← Token.block? (style == .literal) s.blocks.head? (s.input.drop 1)
  return { s with keyAllowed := true }.emit (.scalar style text) rest

/-! ## The next token -/

/-- The input behind blanks, comments and line breaks, and whether a key may stand there: outside
flow collections every new line allows one. A tab is no indentation where a key may stand. -/
def skipGap (flow keyAllowed comment : Bool) : Input → Input × Bool
  | [] => ([], keyAllowed)
  | (c, p) :: rest =>
    if isBreak c then skipGap flow (keyAllowed || !flow) false rest
    else if comment then skipGap flow keyAllowed true rest
    else if p.index == 0 && c == '\ufeff' then skipGap flow keyAllowed false rest
    else if c == ' ' || (c == '\t' && (flow || !keyAllowed)) then
      skipGap flow keyAllowed false rest
    else if c == '#' then skipGap flow keyAllowed true rest
    else ((c, p) :: rest, keyAllowed)

/-- The scanner at the start of the next token, with the block collections that it closes. -/
def advance (s : Scanner) : Scanner :=
  let (input, keyAllowed) := skipGap s.inFlow s.keyAllowed false s.input
  let s := { s with input, keyAllowed }
  if input.isEmpty then s else s.closeIndented

/-- The characters that start no plain scalar. -/
def isIndicator (c : Char) : Bool :=
  ['-', '?', ':', ',', '[', ']', '\x7b', '\x7d', '#', '&', '*', '!', '|', '>', '\'', '"', '%', '@',
    '\x60'].contains c

/-- May a plain scalar start with the character `c` before `rest`? -/
def startsPlain (flow : Bool) (c : Char) (rest : Input) : Bool :=
  !(isBlank c || isBreak c || isIndicator c)
    || (c == '-' && !(rest.head?.any fun (d, _) => isBlank d))
    || (!flow && (c == '?' || c == ':') && !isGap rest)

/-- The token at the front of the input. -/
def next? (s : Scanner) : Option Scanner :=
  match s.input with
  | [] => none
  | (c, p) :: rest =>
    let flow := s.inFlow
    if p.column == 0 && c == '%' then s.directiveLine?
    else if isMark '-' s.input then s.documentMark? .documentStart
    else if isMark '.' s.input then s.documentMark? .documentEnd
    else
      match c with
      | '[' => s.openFlow? .flowSequenceStart
      | '\x7b' => s.openFlow? .flowMappingStart
      | ']' => s.closeFlow? .flowSequenceEnd
      | '\x7d' => s.closeFlow? .flowMappingEnd
      | ',' => s.indicator? .flowEntry 1 true
      | '*' => s.keyStart? fun i => (Token.anchorName? (i.drop 1)).map fun (n, r) => (.alias n, r)
      | '&' => s.keyStart? fun i => (Token.anchorName? (i.drop 1)).map fun (n, r) => (.anchor n, r)
      | '!' => s.keyStart? fun i => (Token.tag? flow i).map fun (h, t, r) => (.tag h t, r)
      | '\'' =>
        s.keyStart? fun i =>
          (Token.quoted? true (i.drop 1)).map fun (t, r) => (.scalar .singleQuoted t, r)
      | '"' =>
        s.keyStart? fun i =>
          (Token.quoted? false (i.drop 1)).map fun (t, r) => (.scalar .doubleQuoted t, r)
      | _ =>
        if c == '-' && isGap rest then s.blockIndicator? .blockSequenceStart .blockEntry true
        else if c == '?' && (flow || isGap rest) then
          s.blockIndicator? .blockMappingStart .key (!flow)
        else if c == ':' && (flow || isGap rest) then s.valueIndicator?
        else if c == '|' && !flow then s.blockScalar? .literal
        else if c == '>' && !flow then s.blockScalar? .folded
        else if startsPlain flow c rest then s.plainScalar?
        else none

/-- The tokens from here to the end of the stream, where every block closes. -/
def run? (s : Scanner) : Option (Array Token) :=
  let s' := s.advance
  if s'.input.isEmpty then do
    let s' ← s'.dropCandidate?
    return (s'.closeBlocks fun _ => true).tokens
  else
    match s'.next? with
    | none => none
    | some s'' => if _h : s''.input.length < s.input.length then s''.run? else none
termination_by s.input.length

end Scanner

/-- The tokens of a stream, if its text can be taken apart at all. -/
def Token.scan? (t : Text) : Option (List Token) := do
  let input ← Input.ofText? t
  let tokens ← Scanner.run? ⟨input, #[], [], none, [], true⟩
  return tokens.toList

end InstallerRegistry.Yaml
