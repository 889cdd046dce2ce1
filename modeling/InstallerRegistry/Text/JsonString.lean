import InstallerRegistry.Text.Literal

/-!
# Strings in JSON

A JSON string stands between double quotes. A quote, a backslash and the control characters are
written behind a backslash, five of the latter by a letter and the others by their number; every
other character stands for itself.
-/

namespace InstallerRegistry.Text

/-- How a character is written in a JSON string. -/
def jsonEscape (c : Char) : Text :=
  match c with
  | '"' => ['\\', '"']
  | '\\' => ['\\', '\\']
  | '\x08' => ['\\', 'b']
  | '\t' => ['\\', 't']
  | '\n' => ['\\', 'n']
  | '\x0c' => ['\\', 'f']
  | '\r' => ['\\', 'r']
  | c =>
    let digits := hexOfNat c.toNat
    if c.toNat < 0x20 then ['\\', 'u'] ++ List.replicate (4 - digits.length) '0' ++ digits
    else [c]

/-- A text as a JSON string. -/
def jsonString (t : Text) : Text :=
  '"' :: t.flatMap jsonEscape ++ ['"']

end InstallerRegistry.Text
