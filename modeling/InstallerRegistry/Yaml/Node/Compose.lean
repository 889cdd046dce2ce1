import InstallerRegistry.Yaml.Node
import InstallerRegistry.Yaml.Token.Stream

/-!
# From tokens to nodes

The nodes of a document are composed from its tokens by the grammar of block and flow collections.
Wherever a node may stand, it may also be missing, and then it is the empty plain scalar.

Anchors get their numbers as they are met. A new name gets the number of names known so far; a name
that is used again gets that number too, although it adds no name, so it shares the number with the
next new name. An alias stands for the last node under the number its name had at that place.

`composeNode?` and its companions take the tokens from the node on and give back those behind it.
Wherever they go on after a node, they do so only if tokens have been taken, so they always end.
-/

namespace InstallerRegistry.Yaml

/-- What has been met of a document: the numbers of anchor names, the nodes under anchors, and how
many nodes have started or collections ended. -/
structure Composition where
  /-- The number of each anchor name. -/
  numbers : List (Text × Nat)
  /-- The anchored node that each number was given to, by its order; the latest comes first. -/
  holders : List (Nat × Nat)
  /-- The anchored nodes that are complete, by their order. -/
  nodes : List (Nat × Node)
  size : Nat

namespace Composition

/-- The empty composition. -/
def start : Composition := ⟨[], [], [], 0⟩

/-- An anchor has been met. Gives the order of the node it names. -/
def meet (name : Text) (c : Composition) : Nat × Composition :=
  let number := c.numbers.length
  let numbers :=
    if c.numbers.any (·.1 == name) then
      c.numbers.map fun entry => if entry.1 == name then (name, number) else entry
    else (name, number) :: c.numbers
  let order := c.holders.length
  (order, { c with numbers, holders := (number, order) :: c.holders })

/-- A node is complete. -/
def finish (order : Option Nat) (node : Node) (c : Composition) : Composition :=
  match order with
  | none => c
  | some order => { c with nodes := (order, node) :: c.nodes }

/-- The node that an alias number stands for. -/
def target (c : Composition) (number : Nat) : Option Node := do
  c.nodes.lookup (← c.holders.lookup number)

end Composition

/-- Composing keeps what has been met, and fails without a reason. -/
abbrev ComposeM := StateT Composition Option

/-- The handles that tags may use, and the beginnings they are short for. -/
abbrev Handles := List (Text × List UInt8)

/-- The handles every document has. -/
def standardHandles : Handles :=
  [(['!'], [UInt8.ofNat '!'.toNat]), (['!', '!'], Utf8.encode coreTagStart)]

/-- What a tag says, in full. A tag without a handle is in full already. -/
def Handles.resolve? (handles : Handles) (handle : Text) (suffix : List UInt8) :
    Option NodeTag :=
  if handle.isEmpty then some (NodeTag.ofBytes suffix)
  else (handles.lookup handle).map fun expansion => NodeTag.ofBytes (expansion ++ suffix)

/-- The anchor and the tag of a node. -/
structure Properties where
  anchor : Option Text
  tag : Option NodeTag

/-- The anchor and the tag at the front of the tokens, in either order, and the rest. -/
def properties? (handles : Handles) : List Token → Option (Properties × List Token)
  | .anchor a :: .tag h t :: rest => do return (⟨some a, ← handles.resolve? h t⟩, rest)
  | .tag h t :: .anchor a :: rest => do return (⟨some a, ← handles.resolve? h t⟩, rest)
  | .anchor a :: rest => some (⟨some a, none⟩, rest)
  | .tag h t :: rest => do return (⟨none, ← handles.resolve? h t⟩, rest)
  | rest => some (⟨none, none⟩, rest)

/-- Do the tokens begin with one of `kinds`? -/
def nextIsOneOf (kinds : List Token) : List Token → Bool
  | [] => false
  | t :: _ => kinds.contains t

/-- Where the nodes of a collection stand: in the lines of a block or between brackets. A sequence
that is the value of a block mapping may stand at the column of the mapping itself. -/
inductive Context where
  | block
  | blockPair
  | flow
deriving DecidableEq

/-- An empty node is part of the document. -/
def composeEmpty : ComposeM Node := do
  modify fun c => { c with size := c.size + 1 }
  return .empty

/-- A node without content. -/
def composeNothing (props : Properties) (ts : List Token) : ComposeM (Node × List Token) := do
  if props.anchor.isNone && props.tag.isNone then failure
  else
    modify fun c => { c with size := c.size + 1 }
    return (.scalar props.tag .plain [], ts)

mutual

/-- The node at the front of the tokens. -/
def composeNode? (handles : Handles) (context : Context) (ts : List Token) :
    ComposeM (Node × List Token) :=
  match ts with
  | .alias name :: rest => do
    let c ← get
    let number ← (c.numbers.lookup name : Option Nat)
    set { c with size := c.size + 1 }
    return (.alias number, rest)
  | ts => do
    let (props, rest) ← (properties? handles ts : Option _)
    let order ←
      match props.anchor with
      | none => pure none
      | some name => do
        let (order, c) := (← get).meet name
        set c
        pure (some order)
    let (node, rest) ←
      if _h : rest.length ≤ ts.length then composeContent? handles context props rest else failure
    modify fun c => c.finish order node
    return (node, rest)
termination_by 4 * ts.length + 1

/-- What follows the properties of a node: its content, or nothing if it has properties. -/
def composeContent? (handles : Handles) (context : Context) (props : Properties)
    (ts : List Token) : ComposeM (Node × List Token) := do
  let tag := props.tag
  let counted : Nat → ComposeM Unit := fun n => modify fun c => { c with size := c.size + n }
  match ts with
  | .scalar style text :: rest =>
    counted 1
    return (.scalar tag style text, rest)
  | .flowSequenceStart :: rest =>
    counted 2
    let (items, rest) ← composeFlowItems? handles true rest
    return (.sequence tag items, rest)
  | .flowMappingStart :: rest =>
    counted 2
    let (pairs, rest) ← composeFlowPairs? handles true rest
    return (.mapping tag pairs, rest)
  | .blockSequenceStart :: rest =>
    if context = .flow then failure
    else
      counted 2
      let (items, rest) ← composeBlockItems? handles true rest
      return (.sequence tag items, rest)
  | .blockMappingStart :: rest =>
    if context = .flow then failure
    else
      counted 2
      let (pairs, rest) ← composeBlockPairs? handles rest
      return (.mapping tag pairs, rest)
  | .blockEntry :: behind =>
    if context = .blockPair then
      counted 2
      let (item, rest) ← composeItem? handles false behind
      let (items, rest) ←
        if _h : rest.length ≤ behind.length then composeBlockItems? handles false rest
        else failure
      return (.sequence tag (item :: items), rest)
    else composeNothing props ts
  | ts => composeNothing props ts
termination_by 4 * ts.length + 0

/-- The item behind its indicator in a block sequence, which either has an end of its own
(`closed`) or ends with what cannot be an item. -/
def composeItem? (handles : Handles) (closed : Bool) (ts : List Token) :
    ComposeM (Node × List Token) :=
  let missing : List Token :=
    if closed then [.blockEntry, .blockEnd] else [.blockEntry, .key, .value, .blockEnd]
  if nextIsOneOf missing ts then do return (← composeEmpty, ts)
  else composeNode? handles .block ts
termination_by 4 * ts.length + 2

/-- The items of a block sequence. -/
def composeBlockItems? (handles : Handles) (closed : Bool) (ts : List Token) :
    ComposeM (List Node × List Token) :=
  match ts with
  | .blockEntry :: behind => do
    let (item, rest) ← composeItem? handles closed behind
    if _h : rest.length ≤ behind.length then
      let (items, rest) ← composeBlockItems? handles closed rest
      return (item :: items, rest)
    else failure
  | .blockEnd :: rest => return if closed then ([], rest) else ([], ts)
  | ts => if closed then failure else return ([], ts)
termination_by 4 * ts.length + 3

/-- A key or a value of a block mapping, behind its indicator. -/
def composePart? (handles : Handles) (ts : List Token) : ComposeM (Node × List Token) :=
  if nextIsOneOf [.key, .value, .blockEnd] ts then do return (← composeEmpty, ts)
  else composeNode? handles .blockPair ts
termination_by 4 * ts.length + 2

/-- The pairs of a block mapping. -/
def composeBlockPairs? (handles : Handles) (ts : List Token) :
    ComposeM (List (Node × Node) × List Token) :=
  match ts with
  | .key :: behind => do
    let (key, rest) ← composePart? handles behind
    let (value, rest) ←
      match rest with
      | .value :: rest =>
        if _h : rest.length ≤ behind.length then composePart? handles rest else failure
      | rest => do pure (← composeEmpty, rest)
    if _h : rest.length ≤ behind.length then
      let (pairs, rest) ← composeBlockPairs? handles rest
      return ((key, value) :: pairs, rest)
    else failure
  | .blockEnd :: rest => return ([], rest)
  | _ => failure
termination_by 4 * ts.length + 3

/-- A value of a flow collection that ends with `closing`: behind its colon, or missing. -/
def composeFlowValue? (handles : Handles) (closing : Token) (ts : List Token) :
    ComposeM (Node × List Token) :=
  match ts with
  | .value :: rest =>
    if nextIsOneOf [.flowEntry, closing] rest then do return (← composeEmpty, rest)
    else composeNode? handles .flow rest
  | ts => do return (← composeEmpty, ts)
termination_by 4 * ts.length + 2

/-- The items of a flow sequence, `first` being one without a comma before it. An item that starts
with a key is a mapping of one pair; if nothing stands where its key is due, the token that stands
there instead goes with it. -/
def composeFlowItems? (handles : Handles) (first : Bool) (ts : List Token) :
    ComposeM (List Node × List Token) :=
  let items : List Token → ComposeM (List Node × List Token) := fun us =>
    match us with
    | .flowSequenceEnd :: rest => return ([], rest)
    | .key :: rest => do
      modify fun c => { c with size := c.size + 2 }
      let (key, rest) ←
        if nextIsOneOf [.value, .flowEntry, .flowSequenceEnd] rest then
          do pure (← composeEmpty, rest.drop 1)
        else if _h : rest.length < ts.length then composeNode? handles .flow rest
        else failure
      let (value, rest) ←
        if _h : rest.length < ts.length then composeFlowValue? handles .flowSequenceEnd rest
        else failure
      if _h : rest.length < ts.length then
        let (items, rest) ← composeFlowItems? handles false rest
        return (.mapping none [(key, value)] :: items, rest)
      else failure
    | us => do
      let (item, rest) ←
        if _h : us.length ≤ ts.length then composeNode? handles .flow us else failure
      if _h : rest.length < ts.length then
        let (items, rest) ← composeFlowItems? handles false rest
        return (item :: items, rest)
      else failure
  match first, ts with
  | false, .flowEntry :: rest => items rest
  | false, .flowSequenceEnd :: rest => return ([], rest)
  | false, _ => failure
  | true, ts => items ts
termination_by 4 * ts.length + 3

/-- The pairs of a flow mapping, `first` being one without a comma before it. -/
def composeFlowPairs? (handles : Handles) (first : Bool) (ts : List Token) :
    ComposeM (List (Node × Node) × List Token) :=
  let pairs : List Token → ComposeM (List (Node × Node) × List Token) := fun us =>
    match us with
    | .flowMappingEnd :: rest => return ([], rest)
    | .key :: rest => do
      let (key, rest) ←
        if nextIsOneOf [.value, .flowEntry, .flowMappingEnd] rest then
          do pure (← composeEmpty, rest)
        else if _h : rest.length < ts.length then composeNode? handles .flow rest
        else failure
      let (value, rest) ←
        if _h : rest.length < ts.length then composeFlowValue? handles .flowMappingEnd rest
        else failure
      if _h : rest.length < ts.length then
        let (pairs, rest) ← composeFlowPairs? handles false rest
        return ((key, value) :: pairs, rest)
      else failure
    | us => do
      let (key, rest) ←
        if _h : us.length ≤ ts.length then composeNode? handles .flow us else failure
      let value ← composeEmpty
      if _h : rest.length < ts.length then
        let (pairs, rest) ← composeFlowPairs? handles false rest
        return ((key, value) :: pairs, rest)
      else failure
  match first, ts with
  | false, .flowEntry :: rest => pairs rest
  | false, .flowMappingEnd :: rest => return ([], rest)
  | false, _ => failure
  | true, ts => pairs ts
termination_by 4 * ts.length + 3

end

/-! ## Documents -/

/-- The directives at the front of the tokens, as the handles they declare; a version may be
declared once and has to be 1.1 or 1.2, a handle once. -/
def directives? (versioned : Bool) (handles : Handles) :
    List Token → Option (Handles × List Token)
  | .version major minor :: rest =>
    if versioned || major ≠ 1 || (minor ≠ 1 && minor ≠ 2) then none
    else directives? true handles rest
  | .tagHandle handle expansion :: rest =>
    if handles.any (·.1 == handle) then none
    else directives? versioned (handles ++ [(handle, expansion)]) rest
  | rest => some (handles, rest)

/-- The root of the document that the tokens are, which may start with directives and a mark. No
second document may follow. -/
def composeRoot? (ts : List Token) : ComposeM Node := do
  let (root, rest) ←
    match ts with
    | .version .. :: _ | .tagHandle .. :: _ | .documentStart :: _ => do
      let (declared, rest) ← (directives? false [] ts : Option _)
      match rest with
      | .documentStart :: rest =>
        match rest with
        | [] | .version .. :: _ | .tagHandle .. :: _ | .documentStart :: _ | .documentEnd :: _ =>
          pure (← composeEmpty, rest)
        | rest => composeNode? (declared ++ standardHandles) .block rest
      | _ => failure
    | ts => composeNode? standardHandles .block ts
  if (rest.dropWhile (· == .documentEnd)).isEmpty then return root else failure

/-- **The document of a stream**: its nodes, if the text is well formed and holds no more than one
document. -/
def Document.ofText? (t : Text) : Option Document := do
  let tokens ← Token.scan? t
  if tokens.isEmpty then return ⟨none, fun _ => none, 1⟩
  else
    let (root, c) ← (composeRoot? tokens).run Composition.start
    return ⟨some root, c.target, c.size⟩

end InstallerRegistry.Yaml
