import InstallerRegistry.Text

/-!
# Upper case

Names are compared without regard to case by comparing their full upper-case forms. A full
upper-case form can be longer than the text (`ß` becomes `SS`) and can turn a character beyond
ASCII into ASCII letters (`ſ` becomes `S`), and those are the only two ways a text that is not
ASCII can come to equal an ASCII name. `Text.upperCase` maps exactly these characters and leaves
every other one beyond ASCII alone, which changes no comparison with an ASCII text.
-/

namespace InstallerRegistry.Text

/-- The full upper-case form of a character, if that form is made of ASCII letters; otherwise the
character itself. -/
def upperCaseOf (c : Char) : Text :=
  if c.isLower then [c.toUpper]
  else
    match c with
    | 'ß' => ['S', 'S']
    | 'ı' => ['I']
    | 'ſ' => ['S']
    | 'ﬀ' => ['F', 'F']
    | 'ﬁ' => ['F', 'I']
    | 'ﬂ' => ['F', 'L']
    | 'ﬃ' => ['F', 'F', 'I']
    | 'ﬄ' => ['F', 'F', 'L']
    | 'ﬅ' => ['S', 'T']
    | 'ﬆ' => ['S', 'T']
    | c => [c]

/-- The full upper-case form of a text, as far as ASCII letters are concerned. -/
def upperCase (t : Text) : Text :=
  t.flatMap upperCaseOf

end InstallerRegistry.Text
