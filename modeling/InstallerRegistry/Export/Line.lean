import InstallerRegistry.Export.Quoted
import InstallerRegistry.Text.Blank

/-!
# Lines of an export

An export is read line by line, without the blanks around each line. Long binary data is broken
over several lines: a line that assigns hexadecimal data and ends with a backslash goes on in the
next one. So the **physical lines** of a text (`physicalLines`) make up its **logical lines**
(`linesOf`), each of which keeps the number of the physical line it starts on.

Whether a line can go on is decided by what has been joined so far, never by what follows. A
comment or a section header never goes on, even if it ends with a backslash.
-/

namespace InstallerRegistry.Export

/-- The lines of a text. A line feed at the end does not start another one. -/
def physicalLines (t : Text) : List Text :=
  let pieces := Text.splitOn '\n' t
  if pieces.getLast? == some [] then pieces.dropLast else pieces

/-! ## Assignments -/

/-- The value name at the front of a line, and what follows it: `@` is the empty name, any other
name is quoted. -/
def valueName? : Text → Option (Text × Text)
  | '@' :: rest => some ([], rest)
  | t => Quoted.decode? t

/-- What stands behind the equals sign that has to come next. -/
def assigned? (t : Text) : Option Text :=
  Text.after? ['='] (Text.trimStart t)

/-- Does the line assign hexadecimal data? -/
def assignsHex (t : Text) : Bool :=
  match valueName? t with
  | none => false
  | some (_, rest) =>
    match assigned? rest with
    | none => false
    | some data => Text.startsWith "hex".toList (Text.trimStart data)

/-! ## Joining lines -/

/-- A **logical line**: a text, and the number of the physical line it starts on. -/
structure Line where
  number : Nat
  text : Text
deriving DecidableEq, Repr

namespace Line

/-- The line with one more physical line behind it. -/
def extend (line : Line) (physical : Text) : Line :=
  { line with text := line.text ++ Text.trim physical }

/-- Does the line go on in the next physical line? -/
def continues (line : Line) : Bool :=
  Text.endsWith '\\' line.text && assignsHex line.text

/-- The line without the backslash that says it goes on. -/
def dropMark (line : Line) : Line :=
  { line with text := line.text.dropLast }

end Line

/-- The logical lines that the physical lines from `number` on make up, behind the line `pending`
that goes on. A line that the text breaks off is a line, too. -/
def joinFrom (number : Nat) (pending : Option Line) : List Text → List Line
  | [] => pending.toList
  | physical :: rest =>
    let line := (pending.getD ⟨number, []⟩).extend physical
    if line.continues then joinFrom (number + 1) (some line.dropMark) rest
    else line :: joinFrom (number + 1) none rest

/-- **The logical lines of a text.** -/
def linesOf (t : Text) : List Line :=
  joinFrom 1 none (physicalLines t)

end InstallerRegistry.Export
