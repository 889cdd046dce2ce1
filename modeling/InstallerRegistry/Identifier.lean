import InstallerRegistry.Text

/-!
# Identifiers

An identifier starts with a letter or an underscore, goes on with letters, digits, underscores and
periods, all of them ASCII, and is at most 72 characters long (`Identifier.isValid`).

Where none is given, one is derived from the name of a value. Names that lead to the same
identifier are told apart by a number: the least one from two on that gives an identifier not in
use yet (`Identifier.fresh`). One more candidate than there are identifiers in use is always
enough.
-/

namespace InstallerRegistry.Identifier

/-- The longest an identifier may be. -/
def maxLength : Nat := 72

/-- Can an identifier start with the character? -/
def isStart (c : Char) : Bool :=
  c.isAlpha || c == '_'

/-- Can the character stand in an identifier? -/
def isPart (c : Char) : Bool :=
  c.isAlphanum || c == '_' || c == '.'

/-- Is the text an identifier? -/
def isValid : Text → Bool
  | [] => false
  | c :: rest => isStart c && rest.all isPart && (c :: rest).length ≤ maxLength

/-- A text in which underscores stand for the characters that no identifier has. -/
def sanitize (t : Text) : Text :=
  t.map fun c => if isPart c then c else '_'

/-- The identifier that is derived from the name of a value; the empty name is that of a key's
default value. -/
def ofName (name : Text) : Text :=
  "RegValue_".toList ++ if name.isEmpty then "Default".toList else sanitize name

/-- The identifier with a number behind it. -/
def numbered (base : Text) (n : Nat) : Text :=
  base ++ '_' :: Text.ofNat n

/-- The identifiers to choose from: the plain one, then the first `count` with a number. -/
def candidates (base : Text) (count : Nat) : List Text :=
  base :: (List.range count).map fun i => numbered base (i + 2)

/-- The first candidate that is not used. -/
def fresh (used : List Text) (base : Text) : Text :=
  ((candidates base used.length).find? fun id => !used.contains id).getD base

end InstallerRegistry.Identifier
