import Replay.Number.Decimal
import Replay.Yaml.Node

/-!
What nodes say: texts, truth values, numbers, and mappings with known keys. A truth value or a
number is written plainly; written literally, it needs the tag of its kind.
-/

namespace Replay.Yaml

def commonTag (kind : String) : String := "tag:yaml.org,2002:" ++ kind

/-- The plain words for no value. -/
def isNull (text : String) : Bool := ["null", "Null", "NULL", "~"].contains text

def boolean? (text : String) : Option Bool :=
  if ["true", "True", "TRUE"].contains text then some true
  else if ["false", "False", "FALSE"].contains text then some false
  else none

def dropPlus (cs : List Char) : List Char := if cs.head? = some '+' then cs.drop 1 else cs

/-- A whole number of so many bits: with the mark of a base, or decimal without a zero in front. -/
def word? (bits : Nat) (text : String) : Option Nat :=
  let n? := match dropPlus text.toList with
    | '0' :: 'x' :: cs => Text.number? 16 cs
    | '0' :: 'o' :: cs => Text.number? 8 cs
    | '0' :: 'b' :: cs => Text.number? 2 cs
    | '0' :: _ :: _ => none
    | cs => Text.number? 10 cs
  n?.filter (· < 1 <<< bits)

def power? : List Char → Option Int
  | [] => some 0
  | e :: cs =>
    if e = 'e' || e = 'E' then
      match cs with
      | '-' :: ds => (Text.number? 10 ds).map fun n => -n
      | cs => (Text.number? 10 (dropPlus cs)).map Int.ofNat
    else none

/-- A decimal numeral with a point and a power of ten, each of which may be missing. -/
def decimal? (cs : List Char) : Option Decimal := do
  let whole := cs.takeWhile Char.isDigit
  let (fraction, rest) := match cs.dropWhile Char.isDigit with
    | '.' :: r => (r.takeWhile Char.isDigit, r.dropWhile Char.isDigit)
    | r => ([], r)
  let digits ← Text.number? 10 (whole ++ fraction)
  let power ← power? rest
  return ⟨digits, power - fraction.length⟩

/-- A double: the nearest one to a numeral, if that is finite, or one of the special words. -/
def double? (text : String) : Option Binary64 :=
  let infinity (cs : List Char) : Bool := [".inf", ".Inf", ".INF"].contains (String.ofList cs)
  let finite (negative : Bool) (cs : List Char) : Option Binary64 :=
    ((decimal? cs).map (·.toBinary64 negative)).filter (·.isFinite)
  if [".nan", ".NaN", ".NAN"].contains text then some .nan
  else match text.toList with
    | '-' :: cs => if infinity cs then some (.infinite true) else finite true cs
    | cs =>
      let cs := dropPlus cs
      if infinity cs then some (.infinite false) else finite false cs

namespace Node

/-- The text of a scalar that is read for a value of a kind. -/
def spoken? (kind : String) : Node → Option String
  | .scalar _ _ .plain text => some text
  | .scalar _ tag .literal text => if tag = some (commonTag kind) then some text else none
  | _ => none

def text? : Node → Option String
  | .scalar _ _ _ text => some text
  | _ => none

def boolean? (n : Node) : Option Bool := (n.spoken? "bool").bind Yaml.boolean?

def word? (bits : Nat) (n : Node) : Option Nat := (n.spoken? "int").bind (Yaml.word? bits)

def double? (n : Node) : Option Binary64 := (n.spoken? "float").bind Yaml.double?

/-- A text or none: a plain scalar that is empty or a word for no value is none, unless a tag says
what it is. -/
def optionalText? : Node → Option (Option String)
  | .scalar _ none .plain text => some (if text = "" || isNull text then none else some text)
  | .scalar _ (some tag) .plain text =>
    if tag = commonTag "null" then (if isNull text then some none else none) else some (some text)
  | .scalar _ _ _ text => some (some text)
  | _ => none

/-- The members of a mapping under known keys, each at most once. An empty plain scalar is a
mapping without members. -/
def fields? (root : Node) (known : List String) : Node → Option (List (String × Node))
  | .mapping _ members =>
    members.foldlM (fun given (k, v) => do
      let key ← (root.resolve k).text?
      if !known.contains key then return given
      if given.any (·.1 == key) then none
      return given ++ [(key, root.resolve v)]) []
  | .scalar _ _ .plain "" => some []
  | _ => none

end Node

end Replay.Yaml
