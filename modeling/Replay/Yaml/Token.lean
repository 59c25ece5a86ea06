/-!
The tokens of a YAML text.
-/

namespace Replay.Yaml

inductive Style where
  | plain
  | singleQuoted
  | doubleQuoted
  | literal
  | folded
  deriving DecidableEq

/-- A tag as written: the handle of an abbreviation, and what follows it. -/
structure WrittenTag where
  handle : String
  suffix : String
  deriving DecidableEq

inductive Token where
  | version (major minor : Nat)
  | abbreviation (handle expansion : String)
  | documentStart
  | documentEnd
  | blockSequence
  | blockMapping
  | blockEnd
  | sequenceOpen
  | sequenceClose
  | mappingOpen
  | mappingClose
  | blockEntry
  | comma
  | key
  | value
  | alias (name : String)
  | anchor (name : String)
  | tag (tag : WrittenTag)
  | scalar (style : Style) (text : String)
  deriving DecidableEq

end Replay.Yaml
