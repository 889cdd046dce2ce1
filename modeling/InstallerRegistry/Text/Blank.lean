import InstallerRegistry.Text

/-!
# Blank characters

The characters with the Unicode property `White_Space`, and the trimming of a text by them. A
trimmed text has no blank at either end, and trimming takes away nothing else: it is the text
between two blank margins.
-/

namespace InstallerRegistry.Text

/-- The Unicode property `White_Space`. -/
def isBlank (c : Char) : Bool :=
  let n := c.toNat
  (0x9 ≤ n && n ≤ 0xD) || n == 0x20 || n == 0x85 || n == 0xA0 || n == 0x1680
    || (0x2000 ≤ n && n ≤ 0x200A) || n == 0x2028 || n == 0x2029 || n == 0x202F
    || n == 0x205F || n == 0x3000

/-- The text without the blanks at its start. -/
def trimStart (t : Text) : Text :=
  t.dropWhile isBlank

/-- The text without the blanks at its end. -/
def trimEnd (t : Text) : Text :=
  dropEndWhile isBlank t

/-- The text without the blanks at either end. -/
def trim (t : Text) : Text :=
  dropAround isBlank t

/-- A line feed is blank, so no trimmed text begins or ends with one. -/
theorem isBlank_lineFeed : isBlank '\n' = true := by decide

end InstallerRegistry.Text
