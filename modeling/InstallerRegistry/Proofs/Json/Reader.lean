import InstallerRegistry.Text.Hex
import InstallerRegistry.Proofs.Xml.Reader

/-!
# A reader of JSON

What a listing in JSON says is what a reader makes of it. The reader of this module knows the rules
of JSON and nothing of the way a listing is printed. It leaves out two things that no listing has:
numbers, and characters that are written as two surrogates; a text with one of them is not read.

A text is cut into tokens (`Json.tokens?`), a string or a word being one of them, and white space
between them is passed over. Then the tokens are nested (`Json.nest`): a bracket or a brace closes
the array or the object that was opened last, and between two items there is one comma. There has to
be exactly one value, and nothing behind it (`Json.ofText?`).
-/

namespace InstallerRegistry

/-- A value as a reader sees it. The fields of an object keep their order. -/
inductive Json where
  | null
  | boolean (b : Bool)
  | string (t : Text)
  | array (items : List Json)
  | object (fields : List (Text × Json))

namespace Json

open Xml (isSpace)

/-! ## Strings -/

/-- The character that a letter stands for behind a backslash. -/
def letter? : Char → Option Char
  | '"' => some '"'
  | '\\' => some '\\'
  | '/' => some '/'
  | 'b' => some '\x08'
  | 't' => some '\t'
  | 'n' => some '\n'
  | 'f' => some '\x0c'
  | 'r' => some '\r'
  | _ => none

/-- The character whose number four hexadecimal digits give. A surrogate is no character. -/
def numbered? (a b c d : Char) : Option Char := do
  let n := (((← Hex.digit? a) * 16 + (← Hex.digit? b)) * 16 + (← Hex.digit? c)) * 16
    + (← Hex.digit? d)
  if n.isValidChar then some (Char.ofNat n) else none

/-- The text of a string, behind the quote that starts it, and what follows the one that ends it. -/
def string? : Text → Option (Text × Text)
  | [] => none
  | '"' :: rest => some ([], rest)
  | '\\' :: 'u' :: a :: b :: c :: d :: rest =>
    (numbered? a b c d).bind fun x => (string? rest).map fun (t, rest) => (x :: t, rest)
  | '\\' :: c :: rest =>
    (letter? c).bind fun x => (string? rest).map fun (t, rest) => (x :: t, rest)
  | c :: rest =>
    if c = '\\' ∨ c.toNat < 0x20 then none
    else (string? rest).map fun (t, rest) => (c :: t, rest)

/-! ## Tokens -/

/-- What a text is made of, besides white space. -/
inductive Token where
  | openArray
  | closeArray
  | openObject
  | closeObject
  | comma
  | colon
  /-- A value that nothing is nested in. -/
  | scalar (j : Json)

/-- The token that a text starts with, and what follows it. White space is what it is in XML. -/
def token? : Text → Option (Token × Text)
  | '[' :: rest => some (.openArray, rest)
  | ']' :: rest => some (.closeArray, rest)
  | '\x7b' :: rest => some (.openObject, rest)
  | '\x7d' :: rest => some (.closeObject, rest)
  | ',' :: rest => some (.comma, rest)
  | ':' :: rest => some (.colon, rest)
  | '"' :: rest => (string? rest).map fun (t, rest) => (.scalar (.string t), rest)
  | 'n' :: 'u' :: 'l' :: 'l' :: rest => some (.scalar .null, rest)
  | 't' :: 'r' :: 'u' :: 'e' :: rest => some (.scalar (.boolean true), rest)
  | 'f' :: 'a' :: 'l' :: 's' :: 'e' :: rest => some (.scalar (.boolean false), rest)
  | _ => none

/-- The tokens of a text. -/
def tokens? (t : Text) : Option (List Token) :=
  if (t.dropWhile isSpace).isEmpty then some []
  else
    match token? (t.dropWhile isSpace) with
    | none => none
    | some (token, rest) =>
      if rest.length < (t.dropWhile isSpace).length then (tokens? rest).map (token :: ·) else none
termination_by t.length
decreasing_by exact Nat.lt_of_lt_of_le ‹_› (List.dropWhile_sublist isSpace).length_le

/-! ## Values -/

/-- An array or an object that has been opened, with the items that stand before the one to come. In
an object, this one has a name. -/
inductive Opened where
  | array (before : List Json)
  | object (before : List (Text × Json)) (name : Text)

/-- The value that tokens stand for, behind the value `done`, inside of what has been opened. If
there is no such value, one has to come. -/
def nest : (done : Option Json) → List Opened → List Token → Option Json
  | some j, [], [] => some j
  | some j, .array before :: opened, .comma :: ts =>
    nest none (.array (before ++ [j]) :: opened) ts
  | some j, .array before :: opened, .closeArray :: ts =>
    nest (some (.array (before ++ [j]))) opened ts
  | some j, .object before name :: opened, .comma :: .scalar (.string next) :: .colon :: ts =>
    nest none (.object (before ++ [(name, j)]) next :: opened) ts
  | some j, .object before name :: opened, .closeObject :: ts =>
    nest (some (.object (before ++ [(name, j)]))) opened ts
  | none, opened, .scalar j :: ts => nest (some j) opened ts
  | none, opened, .openArray :: ts => nest none (.array [] :: opened) ts
  | none, .array [] :: opened, .closeArray :: ts => nest (some (.array [])) opened ts
  | none, opened, .openObject :: .closeObject :: ts => nest (some (.object [])) opened ts
  | none, opened, .openObject :: .scalar (.string name) :: .colon :: ts =>
    nest none (.object [] name :: opened) ts
  | _, _, _ => none

/-- The value that a text stands for, behind the value `done`, inside of what has been opened. -/
def readFrom (done : Option Json) (opened : List Opened) (t : Text) : Option Json :=
  (tokens? t).bind (nest done opened)

/-- **The value that a text consists of.** -/
def ofText? (t : Text) : Option Json :=
  readFrom none [] t

end Json

end InstallerRegistry
