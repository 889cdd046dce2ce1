import InstallerRegistry.Yaml.CoreSchema
import InstallerRegistry.Yaml.Node.Compose

/-!
# Reading values from nodes

A document is read as a value by giving each scalar the meaning of its tag or, for a plain scalar
without one, of its text (`CoreSchema.resolve`), and by following aliases. Two limits keep the
result small: collections nest at most 128 deep, and at most a hundred aliases are followed for
each place where a node starts or ends.

A mapping that has one key twice, and a scalar that its tag does not fit, have no value.
-/

namespace InstallerRegistry.Yaml

/-- The deepest nesting of collections that is read. -/
def nestingLimit : Nat := 128

/-- Reading counts the aliases that may still be followed, and fails without a reason. -/
abbrev ReadM := StateT Nat Option

/-- The number of aliases that may be followed in a document. -/
def Document.aliasLimit (d : Document) : Nat :=
  100 * d.size

/-- A node, or the one it stands for if it is an alias; says whether it was. -/
def Document.follow (d : Document) : Node → ReadM (Node × Bool)
  | .alias number => do
    match ← get with
    | 0 => failure
    | left + 1 => do
      set left
      let node ← (d.target number : Option Node)
      return (node, true)
  | node => return (node, false)

/-- The value of a scalar. A local tag leaves it as it is. -/
def scalarValue? (tag : Option NodeTag) (style : Style) (t : Text) : Option Value :=
  let untagged := if style = .plain then CoreSchema.resolve t else some (.text t)
  match tag with
  | none => untagged
  | some .boolean => (CoreSchema.boolean? t).map .boolean
  | some .integer =>
    (CoreSchema.integer? t).bind fun n =>
      if -0x8000000000000000 ≤ n && n < 0x10000000000000000 then some (.number (.integer n))
      else none
  | some .float => (CoreSchema.float? t).map fun x => .number (.float x)
  | some .null => if CoreSchema.isNullWord t then some .null else none
  | some (.named _) => untagged
  | some .unreadable => untagged
  | some .foreign => some (.text t)

/-- The mapping of pairs whose keys all differ. -/
def distinctPairs? (pairs : List (Value × Value)) : Option Mapping :=
  pairs.foldlM (fun m pair => if Mapping.hasKey m pair.1 then none else some (m ++ [pair])) []

/-- The local tag of a node. -/
def localTag? : Option NodeTag → Option Tag
  | some (.named t) => some t
  | _ => none

/-- A value under a local tag, if there is one. -/
def underTag (tag : Option NodeTag) (v : Value) : Value :=
  match localTag? tag with
  | some t => .tagged t v
  | none => v

/-- The value of a node, with `depth` levels of collections to go. Where a local tag has been read
already (`tagged`), the node's own tag counts for nothing. The keys of a mapping are under its
tag; its values and the items of a sequence are not. -/
def Document.value (d : Document) (depth : Nat) (tagged : Bool) (node : Node) : ReadM Value := do
  let (node, followed) ← d.follow node
  let tagged := tagged && !followed
  let own := fun (tag : Option NodeTag) => if tagged then none else tag
  match node with
  | .alias _ => failure
  | .scalar tag style t => do
    let v ← (scalarValue? (own tag) style t : Option Value)
    return underTag (own tag) v
  | .sequence tag items =>
    match depth with
    | 0 => failure
    | depth + 1 => do
      let vs ← items.mapM (d.value depth false)
      return underTag (own tag) (.sequence vs)
  | .mapping tag pairs =>
    match depth with
    | 0 => failure
    | depth + 1 => do
      let keysTagged := tagged || (localTag? tag).isSome
      let vs ← pairs.mapM fun (k, v) => do
        return (← d.value depth keysTagged k, ← d.value depth false v)
      let m ← (distinctPairs? vs : Option Mapping)
      return underTag (own tag) (.mapping m)

/-- **The value of a stream**: null if it holds nothing. -/
def Value.ofText? (t : Text) : Option Value := do
  let d ← Document.ofText? t
  match d.root with
  | none => some .null
  | some root => (d.value nestingLimit false root).run' d.aliasLimit

end InstallerRegistry.Yaml
