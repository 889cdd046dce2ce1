import InstallerRegistry.Text

/-!
# Tokens of a YAML stream

Tokens carry the structure of a stream without its layout: where a collection in block style starts
and ends has become a token of its own, and so has the fact that a node is the key of a pair.
-/

namespace InstallerRegistry.Yaml

/-- How a scalar is written. -/
inductive Style where
  | plain
  | singleQuoted
  | doubleQuoted
  | literal
  | folded
deriving DecidableEq, Repr

/-- A token. The end of the token list is the end of the stream. -/
inductive Token where
  /-- `%YAML` -/
  | version (major minor : Nat)
  /-- `%TAG`: the tags that begin with `handle` are short for tags that begin with `expansion`. -/
  | tagHandle (handle : Text) (expansion : List UInt8)
  /-- `---` -/
  | documentStart
  /-- `...` -/
  | documentEnd
  | blockSequenceStart
  | blockMappingStart
  | blockEnd
  | flowSequenceStart
  | flowSequenceEnd
  | flowMappingStart
  | flowMappingEnd
  /-- `-` -/
  | blockEntry
  /-- `,` -/
  | flowEntry
  /-- A key follows. -/
  | key
  /-- `:` -/
  | value
  /-- `*name` -/
  | alias (name : Text)
  /-- `&name` -/
  | anchor (name : Text)
  /-- A tag: its handle, empty for one that is written in full, and what follows. -/
  | tag (handle : Text) (suffix : List UInt8)
  | scalar (style : Style) (text : Text)
deriving DecidableEq, Repr

end InstallerRegistry.Yaml
