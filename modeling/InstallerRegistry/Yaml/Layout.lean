import InstallerRegistry.Text.Utf8
import InstallerRegistry.Yaml.Layout.Scalar
import InstallerRegistry.Yaml.Value

/-!
# The layout of documents

A value is written in block style: one pair or one item per line, two spaces further in for each
level, except that a sequence under a key stands no further in than the key. What is written of a
value depends on what introduces it (`Introducer`): behind the mark of an item, a collection starts
on the same line.

A key stands on the line of its value if it is short and takes up no more than a line; any other
key gets a line and a mark of its own.
-/

namespace InstallerRegistry.Yaml.Layout

/-! ## Tags -/

/-- May the byte stand in a tag as itself? -/
def isTagByte (b : UInt8) : Bool :=
  let c := Char.ofNat b.toNat
  c.isAlphanum || "-_;/?:@&=+$,.~*'()[]".toList.contains c

/-- How a byte is written in a tag. -/
def tagByte (b : UInt8) : Text :=
  if isTagByte b then [Char.ofNat b.toNat] else '%' :: Hex.encodeByte b

/-- How a text is written in a tag. -/
def tagText (t : Text) : Text :=
  (Utf8.encode t).flatMap tagByte

/-- A tag with the mark that it starts with. -/
def marked (tag : Tag) : Text :=
  match tag.name with
  | '!' :: rest => '!' :: rest
  | name => '!' :: name

/-- The written form of a tag. -/
def writeTag (tag : Tag) : Text :=
  match marked tag with
  | '!' :: c :: rest => '!' :: tagText (c :: rest)
  | t => "!<".toList ++ tagText t ++ ['>']

/-! ## Keys -/

/-- The scalar that a value is, if it is one. -/
def scalar? : Value → Option Scalar
  | .null => some ⟨"null".toList, .plain⟩
  | .boolean b => some ⟨textOfBool b, .plain⟩
  | .number n => some ⟨n.text, .plain⟩
  | .text t => some ⟨t, wantedStyle t⟩
  | _ => none

/-- The brackets of a collection with nothing in it. -/
def emptyCollection? : Value → Option Text
  | .sequence [] => some ['[', ']']
  | .mapping [] => some ['\x7b', '\x7d']
  | _ => none

/-- The longest key that stands on the line of its value, in bytes. -/
def keyLimit : Nat := 128

/-- The written form of a key that may stand on the line of its value. -/
def simpleKey? (indent : Nat) (key : Value) : Option Text :=
  let (tag, bare) :=
    match key with
    | .tagged tag v => (some tag, v)
    | v => (none, v)
  let tagSize :=
    match tag with
    | some tag => Utf8.size (marked tag)
    | none => 0
  let behindTag := fun (t : Text) =>
    match tag with
    | some tag => writeTag tag ++ ' ' :: t
    | none => t
  match emptyCollection? bare, scalar? bare with
  | some brackets, _ => if tagSize ≤ keyLimit then some (behindTag brackets) else none
  | none, some s =>
    if !isMultiline s.text && tagSize + Utf8.size s.text ≤ keyLimit then
      some (behindTag (s.write indent))
    else none
  | none, none => none

/-! ## Nodes -/

/-- What stands before a node on its line. -/
inductive Introducer where
  /-- Nothing: the node is the whole document. -/
  | document
  /-- The colon behind a key on the same line. -/
  | key
  /-- The hyphen of an item. -/
  | item
  /-- The mark of a key, or of a value, on a line of its own. -/
  | mark
deriving DecidableEq, Repr

namespace Introducer

/-- What separates the node from what introduces it. -/
def gap : Introducer → Text
  | document => []
  | _ => [' ']

/-- The lines of a collection, each without its indentation, behind a tag if there is one. -/
def block (intro : Introducer) (tag : Option Tag) (indent : Nat) (lines : List Text) : Text :=
  let body := Text.join (spaces indent) lines
  match tag, intro with
  | some tag, _ => intro.gap ++ writeTag tag ++ '\n' :: spaces indent ++ body
  | none, document => body
  | none, key => '\n' :: spaces indent ++ body
  | none, item => ' ' :: body
  | none, mark => ' ' :: body

/-- Does a sequence stand no further in than what introduces it? -/
def holdsSequence (intro : Introducer) (tag : Option Tag) : Bool :=
  intro == key || (intro == mark && tag.isSome)

/-- Something that stands on one line, behind a tag if there is one. -/
def inline (intro : Introducer) (tag : Option Tag) (t : Text) : Text :=
  match tag with
  | some tag => intro.gap ++ writeTag tag ++ ' ' :: t
  | none => intro.gap ++ t

end Introducer

/-- The indentation of what is inside a block with some indentation, or inside the document. -/
def deeper : Option Nat → Nat
  | none => 0
  | some indent => indent + 2

mutual

/-- A node with what separates it from its introducer, and the end of its last line. The node
stands in a block with the indentation `outer`. -/
def node (outer : Option Nat) (intro : Introducer) (tag : Option Tag) : Value → Text
  | .tagged tag v => node outer intro (some tag) v
  | .sequence [] => intro.inline tag ['[', ']', '\n']
  | .mapping [] => intro.inline tag ['\x7b', '\x7d', '\n']
  | .sequence (v :: vs) =>
    let indent := if intro.holdsSequence tag then outer.getD 0 else deeper outer
    intro.block tag indent (items indent (v :: vs))
  | .mapping (pair :: rest) =>
    let indent := deeper outer
    intro.block tag indent (pairs indent (pair :: rest))
  | .null => scalarNode outer intro tag ⟨"null".toList, .plain⟩
  | .boolean b => scalarNode outer intro tag ⟨textOfBool b, .plain⟩
  | .number n => scalarNode outer intro tag ⟨n.text, .plain⟩
  | .text t => scalarNode outer intro tag ⟨t, wantedStyle t⟩
where
  /-- A scalar with what separates it from its introducer, and the end of its last line. -/
  scalarNode (outer : Option Nat) (intro : Introducer) (tag : Option Tag) (s : Scalar) : Text :=
    intro.inline tag (s.write (outer.getD 0 + 2) ++ s.lineEnd)

/-- The lines of the items of a sequence. -/
def items (indent : Nat) : List Value → List Text
  | [] => []
  | v :: vs => ('-' :: node (some indent) .item none v) :: items indent vs

/-- The lines of the pairs of a mapping. -/
def pairs (indent : Nat) : List (Value × Value) → List Text
  | [] => []
  | (k, v) :: rest =>
    let pair :=
      match simpleKey? indent k with
      | some key => key ++ ':' :: node (some indent) .key none v
      | none =>
        '?' :: node (some indent) .mark none k ++ spaces indent
          ++ ':' :: node (some indent) .mark none v
    pair :: pairs indent rest

end

/-! ## Documents -/

/-- Would a mapping of this one key be taken for a tag? -/
def looksLikeTag : Value → Bool
  | .tagged _ _ => true
  | .mapping [_] => true
  | _ => false

mutual

/-- Can the value be written? A tag cannot stand under a tag, and a key that has a tag, or is a
mapping of one pair, cannot stand alone in a mapping without a tag. -/
def isWritable (tagged : Bool) : Value → Bool
  | .sequence vs => allWritable vs
  | .mapping [(k, v)] => (tagged || !looksLikeTag k) && isWritable false k && isWritable false v
  | .mapping pairs => allPairsWritable pairs
  | .tagged _ v => !tagged && isWritable true v
  | _ => true

/-- Can all of the items be written? -/
def allWritable : List Value → Bool
  | [] => true
  | v :: vs => isWritable false v && allWritable vs

/-- Can all of the pairs be written? -/
def allPairsWritable : List (Value × Value) → Bool
  | [] => true
  | (k, v) :: rest => isWritable false k && isWritable false v && allPairsWritable rest

end

/-- **The document of a value**, if the value can be written. -/
def document? (v : Value) : Option Text :=
  if isWritable false v then some (node none .document none v) else none

end InstallerRegistry.Yaml.Layout
