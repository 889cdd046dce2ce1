import InstallerRegistry.Yaml.Node.Read

/-!
# Reading what a program expects

A program that expects a text, a number or a list at some place of a document does not want to know
what kind of thing is written there. What it may ask for is `Readable`: a scalar of some type, the
items of a list, the fields of a record, a whole mapping.

Two sources answer. A **value** (`Yaml.Value`) is what it is: only a text is a text, and null is an
empty list or mapping. A **node** (`NodeAt`) is still the text that someone has written: where a
text is expected, `5` and `~` are texts as well, and an empty list or mapping is written as nothing.
-/

namespace InstallerRegistry.Yaml

/-- What can be read from a place in a document. Tags count for nothing unless a rule says so. -/
class Readable (σ : Type) where
  /-- The text. -/
  text : σ → ReadM Text
  /-- The truth value. -/
  boolean : σ → ReadM Bool
  /-- The integer. -/
  integer : σ → ReadM Int
  /-- The place to read from, unless nothing is given there. -/
  given? : σ → ReadM (Option σ)
  /-- The items of a list. -/
  items : σ → ReadM (List σ)
  /-- The fields of a record, by their names. -/
  fields : σ → ReadM (List (Text × σ))
  /-- The whole mapping. -/
  mapping : σ → ReadM Mapping

/-! ## Values -/

namespace Value

/-- The field that a pair of a mapping is. -/
def field? (pair : Value × Value) : Option (Text × Value) :=
  pair.1.untagged.text?.map fun name => (name, pair.2)

instance : Readable Value where
  text v := (v.untagged.text? : Option Text)
  boolean v :=
    match v.untagged with
    | .boolean b => pure b
    | _ => failure
  integer v :=
    match v.untagged with
    | .number (.integer n) => pure n
    | _ => failure
  given? v :=
    match v with
    | .null => pure none
    | v => pure (some v)
  items v :=
    match v.untagged with
    | .sequence items => pure items
    | .null => pure []
    | _ => failure
  fields v :=
    match v.untagged with
    | .mapping pairs => (pairs.mapM field? : Option (List (Text × Value)))
    | .null => pure []
    | _ => failure
  mapping v :=
    match v.untagged with
    | .mapping pairs => pure pairs
    | .null => pure []
    | _ => failure

end Value

/-! ## Nodes -/

/-- A node of a document, with `depth` levels of collections to go. -/
structure NodeAt (d : Document) where
  depth : Nat
  node : Node

namespace NodeAt

variable {d : Document}

/-- Is nothing written for the node? -/
def isBlank : Node → Bool
  | .scalar _ .plain t => t.isEmpty
  | _ => false

/-- Can the scalar be read as a type that has the tag `expected`? Quotes make it a text; a block
can still be given the type by the tag. -/
def isTyped (expected : NodeTag) (tag : Option NodeTag) (style : Style) : Bool :=
  match style with
  | .plain => true
  | .literal => tag == some expected
  | _ => false

/-- The text of a scalar of some type. -/
def typedText (expected : NodeTag) (p : NodeAt d) : ReadM Text := do
  match ← d.follow p.node with
  | (.scalar tag style t, _) => if isTyped expected tag style then pure t else failure
  | _ => failure

/-- Is the scalar null, where null stands for nothing? A tag of its own makes it something. -/
def isAbsent (tag : Option NodeTag) (style : Style) (t : Text) : Option Bool :=
  if style != .plain then some false
  else
    match tag with
    | none => some (t.isEmpty || CoreSchema.isNullWord t)
    | some .null => if CoreSchema.isNullWord t then some true else none
    | some _ => some false

/-- The places inside a collection. -/
def inside (p : NodeAt d) (node : Node) : Option (NodeAt d) :=
  match p.depth with
  | 0 => none
  | depth + 1 => some ⟨depth, node⟩

/-- The pairs of the mapping. -/
def pairs (p : NodeAt d) : ReadM (List (NodeAt d × NodeAt d)) := do
  match (← d.follow p.node).1 with
  | .mapping _ pairs =>
    (pairs.mapM (fun (k, v) => do return (← p.inside k, ← p.inside v))
      : Option (List (NodeAt d × NodeAt d)))
  | node => if isBlank node then pure [] else failure

/-- The text of a scalar of any type. -/
def scalarText (p : NodeAt d) : ReadM Text := do
  match (← d.follow p.node).1 with
  | .scalar _ _ t => pure t
  | _ => failure

/-- The value of the node. -/
def value (p : NodeAt d) : ReadM Value :=
  d.value p.depth false p.node

instance : Readable (NodeAt d) where
  text := scalarText
  boolean p := do
    (CoreSchema.boolean? (← typedText .boolean p) : Option Bool)
  integer p := do
    (CoreSchema.int64? (← typedText .integer p) : Option Int)
  given? p := do
    let (node, _) ← d.follow p.node
    match node with
    | .scalar tag style t => do
      let absent ← (isAbsent tag style t : Option Bool)
      return if absent then none else some { p with node }
    | node => return some { p with node }
  items p := do
    match (← d.follow p.node).1 with
    | .sequence _ items => (items.mapM p.inside : Option (List (NodeAt d)))
    | node => if isBlank node then pure [] else failure
  fields p := do
    (← p.pairs).mapM fun (k, v) => do return (← scalarText k, v)
  mapping p := do
    let vs ← (← p.pairs).mapM fun (k, v) => do return (← k.value, ← v.value)
    (distinctPairs? vs : Option Mapping)

end NodeAt

/-! ## Records -/

namespace Readable

variable {σ : Type} [Readable σ]

/-- The place of a field, if it is given; no field is given twice. -/
def field? (name : String) (fields : List (Text × σ)) : ReadM (Option σ) :=
  match fields.filter (·.1 == name.toList) with
  | [] => pure none
  | [(_, place)] => pure (some place)
  | _ :: _ :: _ => failure

/-- The content of a field that has to be given. -/
def required (read : σ → ReadM α) (name : String) (fields : List (Text × σ)) : ReadM α := do
  match ← field? name fields with
  | some place => read place
  | none => failure

/-- The content of a field, or `default` if it is not given. -/
def withDefault (default : α) (read : σ → ReadM α) (name : String) (fields : List (Text × σ)) :
    ReadM α := do
  match ← field? name fields with
  | some place => read place
  | none => return default

/-- A text, where it may also be said that there is none. -/
def optionalText (place : σ) : ReadM (Option Text) := do
  match ← given? place with
  | some place => return some (← text place)
  | none => return none

/-- An integer of thirty-two bits. -/
def int32 (place : σ) : ReadM Int32 := do
  let n ← integer place
  if -0x80000000 ≤ n ∧ n < 0x80000000 then return Int32.ofInt n else failure

/-- A list of records. -/
def records (read : List (Text × σ) → ReadM α) (place : σ) : ReadM (List α) := do
  (← items place).mapM fun item => do read (← fields item)

end Readable

end InstallerRegistry.Yaml
