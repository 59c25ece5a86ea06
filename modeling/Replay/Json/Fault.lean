import Replay.Number.Decimal
import Replay.Text.Quoted
import Replay.Text.Utf8

/-!
What can be wrong with a JSON text, in its syntax or in the kind of its values, and where.
-/

namespace Replay.Json

/-- Doubles in JSON: positional from 10^-5 to below 10^16, whole numbers with `.0`, exponents with
a sign. A number that is not finite has no spelling and is written as `null`. -/
def numberStyle : Decimal.Style where
  positional e := -5 ≤ e && e < 16
  pointZero := true
  exponentPlus := true
  nan := "null"
  infinity := "null"

/-- A value as an error names it. -/
inductive Found where
  | null
  | boolean (b : Bool)
  | integer (n : Int)
  | number (x : Binary64)
  | text (s : String)
  | list
  | object
  deriving DecidableEq

def Found.describe : Found → String
  | .null => "null"
  | .boolean b => "boolean `" ++ (if b then "true" else "false") ++ "`"
  | .integer n => "integer `" ++ toString n ++ "`"
  | .number x => "floating point `" ++ x.write numberStyle ++ "`"
  | .text s => "string " ++ Text.quoted s
  | .list => "sequence"
  | .object => "map"

/-- The cause of a failed reading. -/
inductive Cause where
  | endInList
  | endInObject
  | endInString
  | endInValue
  | colonExpected
  | listCommaOrEnd
  | objectCommaOrEnd
  | identExpected
  | valueExpected
  | invalidEscape
  | invalidNumber
  | numberOutOfRange
  | controlCharacter
  | keyExpected
  | loneSurrogate
  | halfSurrogatePair
  | trailingComma
  | trailingCharacters
  | tooDeep
  | wrongKind (found : Found) (expected : String)
  | wrongValue (found : Found) (expected : String)
  | wrongLength (length : Nat) (expected : String)
  | unknownVariant (name : String) (known : List String)
  | missingField (key : String)
  | duplicateField (key : String)
  deriving DecidableEq

private def ticked (name : String) : String := "`" ++ name ++ "`"

def alternatives : List String → String
  | [a] => ticked a
  | [a, b] => ticked a ++ " or " ++ ticked b
  | names => "one of " ++ String.intercalate ", " (names.map ticked)

def Cause.message : Cause → String
  | .endInList => "EOF while parsing a list"
  | .endInObject => "EOF while parsing an object"
  | .endInString => "EOF while parsing a string"
  | .endInValue => "EOF while parsing a value"
  | .colonExpected => "expected `:`"
  | .listCommaOrEnd => "expected `,` or `]`"
  | .objectCommaOrEnd => "expected `,` or `\x7d`"
  | .identExpected => "expected ident"
  | .valueExpected => "expected value"
  | .invalidEscape => "invalid escape"
  | .invalidNumber => "invalid number"
  | .numberOutOfRange => "number out of range"
  | .controlCharacter => "control character (\\u0000-\\u001F) found while parsing a string"
  | .keyExpected => "key must be a string"
  | .loneSurrogate => "lone leading surrogate in hex escape"
  | .halfSurrogatePair => "unexpected end of hex escape"
  | .trailingComma => "trailing comma"
  | .trailingCharacters => "trailing characters"
  | .tooDeep => "recursion limit exceeded"
  | .wrongKind found expected => "invalid type: " ++ found.describe ++ ", expected " ++ expected
  | .wrongValue found expected => "invalid value: " ++ found.describe ++ ", expected " ++ expected
  | .wrongLength n expected => "invalid length " ++ Nat.repr n ++ ", expected " ++ expected
  | .unknownVariant name [] => "unknown variant " ++ ticked name ++ ", there are no variants"
  | .unknownVariant name known =>
    "unknown variant " ++ ticked name ++ ", expected " ++ alternatives known
  | .missingField key => "missing field " ++ ticked key
  | .duplicateField key => "duplicate field " ++ ticked key

/-- A cause and the place where the reading stopped: before `rest`, or `bytes` bytes into it. -/
structure Fault where
  cause : Cause
  rest : List Char
  bytes : Nat

structure Position where
  line : Nat
  column : Nat
  deriving DecidableEq

/-- The position after the given bytes. A line feed starts a new line with column zero. -/
def Position.after (bytes : Bytes) : Position :=
  bytes.foldl (fun p b => if b = 10 then ⟨p.line + 1, 0⟩ else ⟨p.line, p.column + 1⟩) ⟨1, 0⟩

structure Error where
  cause : Cause
  position : Option Position
  deriving DecidableEq

def Error.message (e : Error) : String :=
  match e.position with
  | none => e.cause.message
  | some p => e.cause.message ++ " at line " ++ Nat.repr p.line ++ " column " ++ Nat.repr p.column

/-- The error that a fault is in the whole text. -/
def Fault.inText (whole : List Char) (f : Fault) : Error :=
  let bytes := Utf8.encode whole
  let read := bytes.length - (Utf8.encode f.rest).length + f.bytes
  ⟨f.cause, some (.after (bytes.take read))⟩

end Replay.Json
