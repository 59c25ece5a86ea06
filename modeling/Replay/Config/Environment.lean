/-!
The variables of an environment.
-/

namespace Replay

/-- Entries, each of which is `name=value` as a text. An entry that is not Unicode is left out: a
variable whose value cannot be read as a text counts as one that is not set. -/
structure Environment where
  entries : List (String × String)
  deriving DecidableEq

namespace Environment

/-- What stands behind `front` in a text that starts with it. -/
def behind? : (front : List Char) → List Char → Option (List Char)
  | [], cs => some cs
  | _ :: _, [] => none
  | f :: front, c :: cs => if f = c then behind? front cs else none

/-- The value of a variable: what stands behind `name=` in the first entry that starts so. -/
def get? (env : Environment) (name : String) : Option String :=
  env.entries.findSome? fun (key, value) =>
    (behind? (name.toList ++ ['=']) (key.toList ++ '=' :: value.toList)).map String.ofList

end Environment

end Replay
