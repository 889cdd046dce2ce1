import InstallerRegistry.Entry
import InstallerRegistry.Export.Data

/-!
# Contents of an export

Behind its header, an export is a list of sections. A section names a key, and each of its values
is an entry under that key. Sections and values that an export deletes are left out, since an
installer only writes; each leaves a **notice**.

Lines are read one after another (`step`), and the only thing that one line leaves to the next is
the section that they are in. What the lines contribute is put together in their order
(`contentsFrom`), so the contents of two pieces of an export are those of the first followed by
those of the second.
-/

namespace InstallerRegistry.Export

/-- Something that an export says and that is left out. -/
inductive Notice where
  | deletedKey (line : Nat) (path : Text)
  | deletedValue (line : Nat) (hive : Hive) (key name : Text)
deriving DecidableEq, Repr

/-- The wording of a notice. -/
def Notice.message : Notice → Text
  | deletedKey line path =>
    "line ".toList ++ Text.ofNat line ++ ": skipping deleted key ".toList ++ path
  | deletedValue line hive key name =>
    "line ".toList ++ Text.ofNat line ++ ": skipping deletion of ".toList
      ++ Text.join ['\\'] [hive.shortName, key, name]

/-- The **contents** of an export, or of some of its lines. -/
structure Contents where
  entries : List Entry := []
  notices : List Notice := []
deriving DecidableEq, Repr

/-- The contents of lines that follow others. -/
def Contents.append (a b : Contents) : Contents :=
  ⟨a.entries ++ b.entries, a.notices ++ b.notices⟩

instance : Append Contents := ⟨Contents.append⟩

/-- Contents one after another. -/
def Contents.concat (parts : List Contents) : Contents :=
  parts.foldr Contents.append {}

/-- The section that a line is in. -/
inductive Section where
  /-- No section has started yet. -/
  | outside
  | key (hive : Hive) (key : Text)
  /-- The key is deleted with everything in it. -/
  | deleted
deriving DecidableEq, Repr

/-! ## Reading a line -/

/-- The path between the brackets of a section header. -/
def headerPath? (t : Text) : Option Text :=
  (Text.after? ['['] t).bind (Text.before? [']'])

/-- The section that a header starts, and the notice it leaves. -/
def sectionOf (line : Line) : Except RegistryError (Section × Contents) :=
  match headerPath? line.text with
  | none => .error (.exportSyntax line.number .unterminatedSection)
  | some ('-' :: path) => .ok (.deleted, { notices := [.deletedKey line.number path] })
  | some path =>
    let (root, key) := (Text.cut? '\\' path).getD (path, [])
    match Hive.ofName? root with
    | some hive => .ok (.key hive key, {})
    | none => .error (.exportSyntax line.number (.unknownHive root))

/-- The name and the data of a line that assigns a value. -/
def assignment (t : Text) : Except Fault (Text × Text) :=
  match valueName? t with
  | none => .error .unquotedName
  | some (name, rest) =>
    match assigned? rest with
    | none => .error .missingEquals
    | some data => .ok (name, Text.trim data)

/-- What a value contributes under a key. -/
def valueIn (version : Version) (hive : Hive) (key : Text) (line : Line) :
    Except RegistryError Contents :=
  match assignment line.text with
  | .error fault => .error (.exportSyntax line.number fault)
  | .ok (name, data) =>
    match valueOf version data with
    | .error e => .error (e.inLine line.number)
    | .ok none => .ok { notices := [.deletedValue line.number hive key name] }
    | .ok (some v) => .ok { entries := [{ hive, key, name, value := some v }] }

/-- Does the line say nothing? -/
def isIdle (t : Text) : Bool :=
  t.isEmpty || t.head? == some ';'

/-- What a line in a section contributes, and the section that the next line is in. -/
def step (version : Version) (s : Section) (line : Line) :
    Except RegistryError (Section × Contents) :=
  if isIdle line.text then .ok (s, {})
  else if line.text.head? == some '[' then sectionOf line
  else
    match s with
    | .outside => .error (.exportSyntax line.number .outsideSection)
    | .deleted => .ok (s, {})
    | .key hive key => do return (s, ← valueIn version hive key line)

/-! ## Reading an export -/

/-- The contents of lines from a section on. -/
def contentsFrom (version : Version) (s : Section) : List Line → Except RegistryError Contents
  | [] => .ok {}
  | line :: rest => do
    let (s, here) ← step version s line
    let behind ← contentsFrom version s rest
    return here ++ behind

theorem contentsFrom_cons {version : Version} {s s' : Section} {line : Line} {c : Contents}
    (h : step version s line = .ok (s', c)) (rest : List Line) :
    contentsFrom version s (line :: rest)
      = (do return c ++ (← contentsFrom version s' rest)) := by
  rw [contentsFrom, h]
  rfl

/-- The contents of the lines of an export. Blank lines may stand before the header. -/
def contentsOfLines (lines : List Line) : Except RegistryError Contents :=
  match lines.dropWhile (·.text.isEmpty) with
  | [] => .error (.exportSyntax 1 .missingHeader)
  | line :: rest =>
    match Version.ofHeader? line.text with
    | none => .error (.exportSyntax line.number .missingHeader)
    | some version => contentsFrom version .outside rest

/-- **The contents of an export.** -/
def Contents.ofText (t : Text) : Except RegistryError Contents :=
  contentsOfLines (linesOf t)

end InstallerRegistry.Export
