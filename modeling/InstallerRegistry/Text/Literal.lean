import InstallerRegistry.Text.Visible

/-!
# Quoted literals

Messages show a text or a character between quotes, so that one can see where it begins and ends
and what it holds. A visible character stands for itself. A backslash, the quote in use and the
four control characters that have a letter of their own are written behind a backslash; any other
character that is not visible is written by its number, as `\u{...}`.
-/

namespace InstallerRegistry.Text

/-- The lower-case hexadecimal digits of a number, without leading zeros. -/
def hexOfNat (n : Nat) : Text :=
  Nat.toDigits 16 n

/-- How a character is written between two `quote`s. -/
def escapedIn (quote : Char) (c : Char) : Text :=
  match c with
  | '\x00' => ['\\', '0']
  | '\t' => ['\\', 't']
  | '\r' => ['\\', 'r']
  | '\n' => ['\\', 'n']
  | '\\' => ['\\', '\\']
  | c =>
    if c = quote then ['\\', quote]
    else if isVisible c then [c]
    else ['\\', 'u', '{'] ++ hexOfNat c.toNat ++ ['}']

/-- A text between double quotes. -/
def literal (t : Text) : Text :=
  '"' :: t.flatMap (escapedIn '"') ++ ['"']

/-- A character between single quotes. -/
def charLiteral (c : Char) : Text :=
  '\'' :: escapedIn '\'' c ++ ['\'']

end InstallerRegistry.Text
