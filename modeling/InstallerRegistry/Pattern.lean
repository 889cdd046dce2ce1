import InstallerRegistry.Text

/-!
# File patterns

A pattern is matched against one name of a path at a time. In it, `?` stands for any character, `*`
for any number of them, `[...]` for one character out of a set and `[!...]` for one outside it; a
set lists characters and ranges. A whole name `**` stands for any number of names. Every other
character stands for itself.

Stars come singly, or as two that make up a whole name; brackets must be closed and not empty.
`Pattern.ofText?` says where a pattern breaks these rules.
-/

namespace InstallerRegistry

/-- What is wrong with a pattern. -/
inductive PatternFault where
  /-- More than two stars in a row. -/
  | wildcards
  /-- Two stars that are not a whole name. -/
  | recursiveWildcards
  /-- A bracket that is not closed, or has nothing in it. -/
  | range
deriving DecidableEq, Repr

/-- A fault in a pattern, and the number of the character it is noticed at. -/
structure PatternError where
  position : Nat
  fault : PatternFault
deriving DecidableEq, Repr

/-- The wording of a fault in a pattern. -/
def PatternError.message (e : PatternError) : Text :=
  let fault :=
    match e.fault with
    | .wildcards => "wildcards are either regular \x60*\x60 or recursive \x60**\x60".toList
    | .recursiveWildcards => "recursive wildcards must form a single path component".toList
    | .range => "invalid range pattern".toList
  "Pattern syntax error near position ".toList ++ Text.ofNat e.position ++ [':', ' '] ++ fault

namespace Pattern

/-- A part of a pattern. -/
inductive Part where
  /-- The character itself. -/
  | char (c : Char)
  /-- Any character. -/
  | anyChar
  /-- Any number of characters. -/
  | anyChars
  /-- Any number of whole names. -/
  | anyNames
  /-- A character in one of the ranges. -/
  | within (ranges : List (Char × Char))
  /-- A character in none of the ranges. -/
  | outside (ranges : List (Char × Char))
deriving DecidableEq, Repr

/-! ## Reading a pattern -/

/-- The ranges that the inside of a bracket lists; a character is the range from it to itself. -/
def rangesOf : Text → List (Char × Char)
  | a :: '-' :: b :: rest => (a, b) :: rangesOf rest
  | a :: rest => (a, a) :: rangesOf rest
  | [] => []

/-- The set at the front of a pattern, from behind the opening bracket on, and the rest. A closing
bracket that is the first character of the set belongs to it. -/
def set? : Text → Option (Part × Text)
  | '!' :: first :: rest =>
    (Text.cut? ']' rest).map fun (inside, rest) => (.outside (rangesOf (first :: inside)), rest)
  | '!' :: [] => none
  | first :: rest =>
    (Text.cut? ']' rest).map fun (inside, rest) => (.within (rangesOf (first :: inside)), rest)
  | [] => none

/-- The parts of a pattern from the character `position` on, before which `previous` stands. -/
def partsFrom (position : Nat) (previous : Option Char) (t : Text) :
    Except PatternError (List Part) :=
  match t with
  | [] => .ok []
  | '?' :: rest => do return .anyChar :: (← partsFrom (position + 1) (some '?') rest)
  | '*' :: '*' :: '*' :: _ => .error ⟨position + 2, .wildcards⟩
  | '*' :: '*' :: rest =>
    if previous.isSome && previous != some '/' then
      .error ⟨position - 1, .recursiveWildcards⟩
    else
      match rest with
      | [] => .ok [.anyNames]
      | '/' :: rest => do return .anyNames :: (← partsFrom (position + 3) (some '/') rest)
      | _ => .error ⟨position + 2, .recursiveWildcards⟩
  | '*' :: rest => do return .anyChars :: (← partsFrom (position + 1) (some '*') rest)
  | '[' :: inside =>
    match set? inside with
    | none => .error ⟨position, .range⟩
    | some (part, rest) =>
      if _h : rest.length ≤ inside.length then do
        let taken := 1 + inside.length - rest.length
        return part :: (← partsFrom (position + taken) (some ']') rest)
      else .error ⟨position, .range⟩
  | c :: rest => do return .char c :: (← partsFrom (position + 1) (some c) rest)
termination_by t.length

/-- The parts of a pattern. -/
def ofText? (t : Text) : Except PatternError (List Part) :=
  partsFrom 0 none t

/-! ## Matching a name -/

/-- Is the character in one of the ranges? -/
def inRanges (c : Char) (ranges : List (Char × Char)) : Bool :=
  ranges.any fun (low, high) => low ≤ c && c ≤ high

/-- A name, and what is left of it without its first character, without its first two, and so on
to the empty name. -/
def suffixes : Text → List Text
  | [] => [[]]
  | c :: rest => (c :: rest) :: suffixes rest

/-- Does the pattern match the name? -/
def isMatch : List Part → Text → Bool
  | [], name => name.isEmpty
  | .anyChars :: parts, name => (suffixes name).any (isMatch parts)
  | .anyNames :: parts, name => (suffixes name).any (isMatch parts)
  | _ :: _, [] => false
  | .char d :: parts, c :: name => c == d && isMatch parts name
  | .anyChar :: parts, _ :: name => isMatch parts name
  | .within ranges :: parts, c :: name => inRanges c ranges && isMatch parts name
  | .outside ranges :: parts, c :: name => !inRanges c ranges && isMatch parts name

/-- The one name that a pattern without wildcards matches. -/
def literal? : List Part → Option Text
  | [] => some []
  | .char c :: parts => (literal? parts).map (c :: ·)
  | _ :: _ => none

end Pattern

end InstallerRegistry
