import InstallerRegistry.Text.Utf8
import InstallerRegistry.Yaml.Token
import InstallerRegistry.Yaml.Value

/-!
# Nodes of a YAML document

A node is a scalar, a sequence or a mapping, or an alias that stands for such a node elsewhere in
the document. A document keeps its root and what each alias stands for, so that a node can be read
without looking at the rest of the tree.
-/

namespace InstallerRegistry.Yaml

/-- What the tag of a node says about how to read it. -/
inductive NodeTag where
  | boolean
  | integer
  | float
  | null
  /-- A local tag, which stays with the value. -/
  | named (tag : Tag)
  /-- A local tag whose escaped bytes are no text. -/
  | unreadable
  /-- Any other tag: a scalar under it is its text. -/
  | foreign
deriving DecidableEq, Repr

/-- The beginning of the tags that the core schema defines. -/
def coreTagStart : Text := "tag:yaml.org,2002:".toList

/-- What a tag says, by its bytes. -/
def NodeTag.ofBytes (bytes : List UInt8) : NodeTag :=
  let isLocal := bytes.head? == some (UInt8.ofNat '!'.toNat)
  match Utf8.decode? bytes with
  | none => if isLocal then .unreadable else .foreign
  | some t =>
    if isLocal then
      match t with
      | _ :: c :: rest => .named (Tag.ofText (c :: rest))
      | t => .named (Tag.ofText t)
    else if t == coreTagStart ++ "bool".toList then .boolean
    else if t == coreTagStart ++ "int".toList then .integer
    else if t == coreTagStart ++ "float".toList then .float
    else if t == coreTagStart ++ "null".toList then .null
    else .foreign

/-- A node of a document. -/
inductive Node where
  /-- A node that stands elsewhere, under the given number. -/
  | alias (number : Nat)
  | scalar (tag : Option NodeTag) (style : Style) (text : Text)
  | sequence (tag : Option NodeTag) (items : List Node)
  | mapping (tag : Option NodeTag) (pairs : List (Node × Node))
deriving Inhabited, Repr

/-- The node of which nothing is written. -/
def Node.empty : Node :=
  .scalar none .plain []

/-- **A document.** -/
structure Document where
  /-- The root, unless the stream holds no document. -/
  root : Option Node
  /-- The node that each alias number stands for. -/
  target : Nat → Option Node
  /-- The number of places where a node starts or a collection ends. -/
  size : Nat

end InstallerRegistry.Yaml
