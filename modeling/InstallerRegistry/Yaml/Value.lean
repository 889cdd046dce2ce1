import InstallerRegistry.Text.Literal
import InstallerRegistry.Yaml.Number

/-!
# Values of a YAML document

A value is null, a boolean, a number, a text, a sequence, a mapping, or a value under a local tag.
A mapping keeps the order its pairs were written in; two mappings are nevertheless the same if they
pair the same keys with the same values in any order, and no mapping has the same key twice.

`Value.same` is that comparison. `Mapping.find?` and `Mapping.insert` look keys up by it: a value
inserted under a key that is there already takes the place of the old one.
-/

namespace InstallerRegistry.Yaml

/-- A **local tag**, by its name without the exclamation mark it is written with. The bare mark is
the tag whose name is itself. -/
structure Tag where
  name : Text
deriving DecidableEq, Repr

namespace Tag

/-- The tag written as `t`, with or without its exclamation mark. -/
def ofText (t : Text) : Tag :=
  match t with
  | '!' :: c :: rest => ⟨c :: rest⟩
  | t => ⟨t⟩

/-- The written form of a tag. -/
def text (t : Tag) : Text :=
  '!' :: t.name

end Tag

/-- A value of a YAML document. -/
inductive Value where
  | null
  | boolean (b : Bool)
  | number (n : Number)
  | text (t : Text)
  | sequence (items : List Value)
  | mapping (pairs : List (Value × Value))
  | tagged (tag : Tag) (value : Value)
deriving Inhabited, Repr

/-- The pairs of a mapping, in order. -/
abbrev Mapping := List (Value × Value)

/-- The spelling of a truth value. -/
def textOfBool : Bool → Text
  | true => "true".toList
  | false => "false".toList

namespace Value

/-! ## Sameness -/

mutual

/-- Are two values the same? The order of a mapping's pairs does not count. -/
def same : Value → Value → Bool
  | null, null => true
  | boolean a, boolean b => a == b
  | number a, number b => a.same b
  | text a, text b => a == b
  | sequence a, sequence b => sameItems a b
  | mapping a, mapping b => a.length == b.length && samePairs a b
  | tagged s a, tagged t b => s == t && same a b
  | _, _ => false

/-- Are two lists of values the same, item by item? -/
def sameItems : List Value → List Value → Bool
  | [], [] => true
  | a :: as, b :: bs => same a b && sameItems as bs
  | _, _ => false

/-- Is each pair on the left the same as some pair on the right? -/
def samePairs : List (Value × Value) → List (Value × Value) → Bool
  | [], _ => true
  | (k, v) :: pairs, others =>
    (others.any fun other => same k other.1 && same v other.2) && samePairs pairs others

end

/-- The text of a value that is a text. -/
def text? : Value → Option Text
  | text t => some t
  | _ => none

/-- A value without the tags around it. -/
def untagged : Value → Value
  | tagged _ v => untagged v
  | v => v

/-! ## Showing a value in a message -/

mutual

/-- A value as messages show it: its kind, and what it holds. -/
def describe : Value → Text
  | null => "Null".toList
  | boolean b => "Bool(".toList ++ textOfBool b ++ [')']
  | number n => "Number(".toList ++ n.text ++ [')']
  | text t => "String(".toList ++ Text.literal t ++ [')']
  | sequence items => "Sequence [".toList ++ Text.join [',', ' '] (describeItems items) ++ [']']
  | mapping pairs =>
    "Mapping ".toList ++ '\x7b' :: Text.join [',', ' '] (describePairs pairs) ++ ['\x7d']
  | tagged t v =>
    "TaggedValue \x7b tag: ".toList ++ t.text ++ ", value: ".toList ++ describe v ++ " \x7d".toList

/-- The items of a sequence as messages show them. -/
def describeItems : List Value → List Text
  | [] => []
  | v :: vs => describe v :: describeItems vs

/-- The pairs of a mapping as messages show them. A key that is a text, a number or a truth value
goes without its kind. -/
def describePairs : List (Value × Value) → List Text
  | [] => []
  | (k, v) :: pairs =>
    let key :=
      match k with
      | boolean b => textOfBool b
      | number n => n.text
      | text t => Text.literal t
      | k => describe k
    (key ++ [':', ' '] ++ describe v) :: describePairs pairs

end

end Value

namespace Mapping

/-- The value under a key. -/
def find? (m : Mapping) (key : Value) : Option Value :=
  (List.find? (fun pair => key.same pair.1) m).map Prod.snd

/-- Does the mapping have the key? -/
def hasKey (m : Mapping) (key : Value) : Bool :=
  m.any fun pair => key.same pair.1

/-- The mapping with a value under a key: in the place of the value that was there, or at the
end. -/
def insert (m : Mapping) (key value : Value) : Mapping :=
  match m with
  | [] => [(key, value)]
  | (k, v) :: rest =>
    if key.same k then (k, value) :: rest else (k, v) :: insert rest key value

/-- The mapping of pairs given one after another. -/
def ofPairs (pairs : List (Value × Value)) : Mapping :=
  pairs.foldl (fun m pair => insert m pair.1 pair.2) []

end Mapping

end InstallerRegistry.Yaml
