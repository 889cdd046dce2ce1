import InstallerRegistry.Text

/-!
# XML

A fragment is a tree of elements with attributes and no text (`Xml`). It is printed with one tag
per line, two blanks further in for each level (`Xml.print`). In an attribute, the five characters
that mean something to a reader are written as references (`Xml.escape`), one character after
another being replaced in the whole value.
-/

namespace InstallerRegistry

/-- An attribute: a name and a value. -/
abbrev Attribute := Text × Text

namespace Attribute

/-- An attribute that is always there. -/
def always (name : String) (value : Text) : List Attribute :=
  [(name.toList, value)]

/-- An attribute that is left out if its value is empty. -/
def ifFilled (name : String) (value : Text) : List Attribute :=
  if value.isEmpty then [] else always name value

/-- An attribute that is left out if it has no value. -/
def ifGiven (name : String) : Option Text → List Attribute
  | some value => always name value
  | none => []

end Attribute

/-- What can stand inside an element. -/
inductive Xml where
  /-- An element that is closed in its own tag. -/
  | leaf (name : Text) (attributes : List Attribute)
  /-- An element with a start tag, some content and an end tag. -/
  | element (name : Text) (attributes : List Attribute) (children : List Xml)
  | comment (t : Text)
  /-- An empty line. -/
  | gap
deriving Repr

namespace Xml

/-- How a text is written in an attribute. Ampersands are the first to be replaced, since each
reference brings one in. -/
def escape (t : Text) : Text :=
  t.replace '&' "&amp;".toList
    |>.replace '<' "&lt;".toList
    |>.replace '>' "&gt;".toList
    |>.replace '"' "&quot;".toList
    |>.replace '\'' "&apos;".toList

/-- The written form of an attribute, with the blank before it. -/
def printAttribute (a : Attribute) : Text :=
  ' ' :: a.1 ++ "=\"".toList ++ escape a.2 ++ ['"']

/-- The blanks before what stands at a level. -/
def indent (level : Nat) : Text :=
  List.replicate (2 * level) ' '

mutual

/-- The lines of something at a level. -/
def print (level : Nat) : Xml → Text
  | leaf name attributes =>
    indent level ++ '<' :: name ++ attributes.flatMap printAttribute ++ " />\n".toList
  | element name attributes children =>
    indent level ++ '<' :: name ++ attributes.flatMap printAttribute ++ ">\n".toList
      ++ printAll (level + 1) children
      ++ indent level ++ "</".toList ++ name ++ ">\n".toList
  | comment t => indent level ++ "<!-- ".toList ++ t ++ " -->\n".toList
  | gap => ['\n']

/-- The lines of things at a level, one after another. -/
def printAll (level : Nat) : List Xml → Text
  | [] => []
  | x :: xs => print level x ++ printAll level xs

end

/-- The lines before the root element: the declaration, and a comment. -/
def prolog (remark : Text) : Text :=
  "<?xml version=\"1.0\" encoding=\"UTF-8\"?>\n<!--\n  ".toList ++ remark ++ "\n-->\n".toList

end Xml

end InstallerRegistry
