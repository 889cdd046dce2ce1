import InstallerRegistry.Xml

/-!
# A reader of XML

What a fragment says is what a reader makes of it. The reader of this module knows the rules of XML
and nothing of the way a fragment is printed, so it is a reference for what has been printed.

A document is cut into its tags (`Xml.tags?`), where the declaration, comments and white space are
passed over and anything else outside of a tag is a fault. Then the tags are nested (`Xml.nest`): an
end tag closes the element that was opened last, which has to have its name. There has to be exactly
one element around everything else (`Xml.Element.ofText?`).

In the value of an attribute, the five predefined references stand for their characters, other
references and less-than signs are faults, and every other character stands for itself. No element
has two attributes of one name.
-/

namespace InstallerRegistry.Xml

/-- An element as a reader sees it. -/
structure Element where
  name : Text
  attributes : List Attribute := []
  children : List Element := []

/-! ## Names and attributes -/

/-- White space. -/
def isSpace (c : Char) : Bool :=
  c == ' ' || c == '\t' || c == '\n' || c == '\r'

/-- Can a name start with the character? -/
def isNameStart (c : Char) : Bool :=
  c.isAlpha || c == '_' || c == ':'

/-- Can the character stand in a name? -/
def isNamePart (c : Char) : Bool :=
  isNameStart c || c.isDigit || c == '-' || c == '.'

/-- Is the text a name? -/
def isName : Text → Bool
  | [] => false
  | c :: t => isNameStart c && t.all isNamePart

/-- The name that a text starts with, and what follows it. -/
def name? (t : Text) : Option (Text × Text) :=
  if isName (t.takeWhile isNamePart) then
    some (t.takeWhile isNamePart, t.dropWhile isNamePart)
  else none

/-- The text with its references replaced by what they stand for. -/
def expand? : Text → Option Text
  | [] => some []
  | '&' :: 'a' :: 'm' :: 'p' :: ';' :: t => (expand? t).map ('&' :: ·)
  | '&' :: 'l' :: 't' :: ';' :: t => (expand? t).map ('<' :: ·)
  | '&' :: 'g' :: 't' :: ';' :: t => (expand? t).map ('>' :: ·)
  | '&' :: 'q' :: 'u' :: 'o' :: 't' :: ';' :: t => (expand? t).map ('"' :: ·)
  | '&' :: 'a' :: 'p' :: 'o' :: 's' :: ';' :: t => (expand? t).map ('\'' :: ·)
  | c :: t => if c = '&' ∨ c = '<' then none else (expand? t).map (c :: ·)

/-- The attribute that a text starts with, and what follows it. -/
def attribute? (t : Text) : Option (Attribute × Text) := do
  let (name, rest) ← name? t
  let quoted ← Text.after? ['=', '"'] rest
  let (raw, rest) ← Text.cut? '"' quoted
  let value ← expand? raw
  return ((name, value), rest)

/-- What follows the white space that a text starts with. -/
def afterSpace? : Text → Option Text
  | [] => none
  | c :: t => if isSpace c then some (t.dropWhile isSpace) else none

/-- The attributes that a text starts with, each behind white space, and what follows them. -/
def attributes? (t : Text) : Option (List Attribute × Text) :=
  match (afterSpace? t).bind attribute? with
  | none => some ([], t)
  | some (a, rest) =>
    if rest.length < t.length then (attributes? rest).map fun (as, rest) => (a :: as, rest)
    else none
termination_by t.length

/-! ## Tags -/

/-- A tag of an element. -/
inductive Tag where
  | start (name : Text) (attributes : List Attribute)
  /-- A tag that starts an element and ends it. -/
  | empty (name : Text) (attributes : List Attribute)
  | finish (name : Text)

/-- The tag with a name and attributes that a text ends, and what follows it. -/
def close? (name : Text) (attributes : List Attribute) : Text → Option (Tag × Text)
  | '>' :: rest => some (.start name attributes, rest)
  | '/' :: '>' :: rest => some (.empty name attributes, rest)
  | _ => none

/-- The tag with a name and attributes, behind its bracket. -/
def openTag? (t : Text) : Option (Tag × Text) := do
  let (name, rest) ← name? t
  let (attributes, rest) ← attributes? rest
  if (attributes.map Prod.fst).Nodup then close? name attributes (rest.dropWhile isSpace) else none

/-- The tag that ends an element, behind its slash. -/
def endTag? (t : Text) : Option (Tag × Text) := do
  let (name, rest) ← name? t
  match rest.dropWhile isSpace with
  | '>' :: rest => some (.finish name, rest)
  | _ => none

/-- What stands in brackets, and what follows it. Only tags count. -/
def markup? : Text → Option (Option Tag × Text)
  | '<' :: '?' :: t => (Text.cutAt? ['?', '>'] t).map fun (_, rest) => (none, rest)
  | '<' :: '!' :: '-' :: '-' :: t =>
    match Text.cutAt? ['-', '-'] t with
    | some (_, '>' :: rest) => some (none, rest)
    | _ => none
  | '<' :: '/' :: t => (endTag? t).map fun (tag, rest) => (some tag, rest)
  | '<' :: t => (openTag? t).map fun (tag, rest) => (some tag, rest)
  | _ => none

/-- The tags of a text. -/
def tags? (t : Text) : Option (List Tag) :=
  if (t.dropWhile isSpace).isEmpty then some []
  else
    match markup? (t.dropWhile isSpace) with
    | none => none
    | some (tag, rest) =>
      if rest.length < (t.dropWhile isSpace).length then (tags? rest).map (tag.toList ++ ·)
      else none
termination_by t.length
decreasing_by exact Nat.lt_of_lt_of_le ‹_› (List.dropWhile_sublist isSpace).length_le

/-! ## Elements -/

/-- An element that has been opened, with those that stand before it. -/
structure Opened where
  name : Text
  attributes : List Attribute
  before : List Element

/-- The elements that tags stand for, behind some elements inside of those that have been
opened. -/
def nest (siblings : List Element) (opened : List Opened) : List Tag → Option (List Element)
  | [] => if opened.isEmpty then some siblings else none
  | .start name attributes :: tags => nest [] (⟨name, attributes, siblings⟩ :: opened) tags
  | .empty name attributes :: tags => nest (siblings ++ [⟨name, attributes, []⟩]) opened tags
  | .finish name :: tags =>
    match opened with
    | [] => none
    | o :: opened =>
      if o.name = name then nest (o.before ++ [⟨name, o.attributes, siblings⟩]) opened tags
      else none

/-- The one element of a list. -/
def root? : List Element → Option Element
  | [root] => some root
  | _ => none

/-- **The element that a document consists of.** -/
def Element.ofText? (t : Text) : Option Element := do
  let tags ← tags? t
  let elements ← nest [] [] tags
  root? elements

end InstallerRegistry.Xml
