import InstallerRegistry.Component
import InstallerRegistry.Text.JsonString

/-!
# Listings

A listing shows each entry with the type and the text that its value is written as. It is printed
for reading, one line per entry, or as JSON. Whether an installer can write to the hive of an entry
is of no concern here.
-/

namespace InstallerRegistry

/-- A line of a listing. -/
structure Listing.Row where
  hive : Hive
  key : Text
  name : Text
  type : ValueType
  /-- What the value is written as. -/
  payload : Text
  feature : Option Text
  win64 : Bool
deriving DecidableEq, Repr

namespace Listing

/-- The row of an entry, the value of which has to be set. -/
def Row.ofEntry (e : Entry) : Except RegistryError Row := do
  let v ← e.setValue
  return {
    hive := e.hive, key := e.key, name := e.name, type := v.type, payload := v.payload
    feature := e.feature, win64 := e.win64 }

/-- The rows of entries. -/
def rows (entries : List Entry) : Except RegistryError (List Row) :=
  entries.mapM Row.ofEntry

/-! ## For reading -/

/-- A text on one line: a line feed is shown as a backslash and an `n`. -/
def onOneLine (t : Text) : Text :=
  t.flatMap fun c => if c = '\n' then ['\\', 'n'] else [c]

/-- A row as a line. -/
def Row.line (r : Row) : Text :=
  let name := if r.name.isEmpty then ['@'] else r.name
  Text.join [' ', ' ']
    [r.hive.shortName ++ '\\' :: r.key, name, r.type.name, onOneLine r.payload] ++ ['\n']

/-- A listing for reading. -/
def text (rows : List Row) : Text :=
  rows.flatMap Row.line

/-! ## As JSON -/

/-- The fields of a row. -/
def Row.fields (r : Row) : List (String × Text) :=
  [("hive", Text.jsonString r.hive.shortName),
   ("key", Text.jsonString r.key),
   ("name", Text.jsonString r.name),
   ("type", Text.jsonString r.type.name),
   ("value", Text.jsonString r.payload),
   ("feature",
     match r.feature with
     | some t => Text.jsonString t
     | none => "null".toList),
   ("win64", Yaml.textOfBool r.win64)]

/-- Items on lines of their own between two brackets, the closing one behind some blanks. -/
def bracketed (opening closing : Char) (margin : Text) (items : List Text) : Text :=
  opening :: '\n' :: Text.join [',', '\n'] items ++ '\n' :: margin ++ [closing]

/-- A row as a JSON object. -/
def Row.json (r : Row) : Text :=
  let field := fun ((name, value) : String × Text) =>
    "    ".toList ++ Text.jsonString name.toList ++ ": ".toList ++ value
  [' ', ' '] ++ bracketed '\x7b' '\x7d' [' ', ' '] (r.fields.map field)

/-- A listing as a JSON array. -/
def json (rows : List Row) : Text :=
  (if rows.isEmpty then ['[', ']'] else bracketed '[' ']' [] (rows.map Row.json)) ++ ['\n']

end Listing

end InstallerRegistry
