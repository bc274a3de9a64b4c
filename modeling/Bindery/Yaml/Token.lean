/-!
# YAML tokens

The marks and scalars of a text in their order. Indentation becomes marks of its own, and so does
a key that is only known by the colon behind it.
-/

namespace Bindery.Yaml

/-- A tag as it is written: the handle names a family of tags. -/
structure TagSpelling where
  handle : String
  suffix : String
  deriving DecidableEq, Repr

/-- A mark or a scalar. -/
inductive Token where
  | streamEnd
  | documentStart
  | documentEnd
  | versionDirective
  /-- What a handle stands for. -/
  | handleDirective (handle stem : String)
  | blockSequenceStart
  | blockMappingStart
  | blockEnd
  | flowSequenceStart
  | flowSequenceEnd
  | flowMappingStart
  | flowMappingEnd
  | blockEntry
  | flowEntry
  | key
  | value
  | alias (name : String)
  | anchor (name : String)
  | tag (spelling : TagSpelling)
  | scalar (isPlain : Bool) (text : String)
  deriving DecidableEq, Repr

end Bindery.Yaml
