import Replay.Json.Fault

/-!
JSON values and how they are written: no blanks, members in the order given, short escapes where
there are any, whole numbers apart from doubles.
-/

namespace Replay.Json

/-- A JSON value. A numeral without fraction and exponent that fits a word is an integer. -/
inductive Value where
  | null
  | boolean (b : Bool)
  | integer (n : Int)
  | number (x : Binary64)
  | text (s : String)
  | list (items : List Value)
  | object (members : List (String × Value))

namespace Value

instance : Inhabited Value := ⟨.null⟩

def found : Value → Found
  | .null => .null
  | .boolean b => .boolean b
  | .integer n => .integer n
  | .number x => .number x
  | .text s => .text s
  | .list _ => .list
  | .object _ => .object

def ofNat (n : Nat) : Value := .integer n

end Value

def hexPair (n : Nat) : List Char := [Nat.digitChar (n / 16 % 16), Nat.digitChar (n % 16)]

def escapeChar (c : Char) : List Char :=
  if c = '"' then ['\\', '"']
  else if c = '\\' then ['\\', '\\']
  else if c.toNat = 8 then ['\\', 'b']
  else if c.toNat = 12 then ['\\', 'f']
  else if c = '\n' then ['\\', 'n']
  else if c = '\r' then ['\\', 'r']
  else if c = '\t' then ['\\', 't']
  else if c.toNat < 32 then ['\\', 'u', '0', '0'] ++ hexPair c.toNat
  else [c]

def writeText (s : String) : List Char := '"' :: (s.toList.flatMap escapeChar ++ ['"'])

def writeInteger (n : Int) : List Char :=
  if n < 0 then '-' :: Nat.toDigits 10 n.natAbs else Nat.toDigits 10 n.natAbs

def writeNumber (x : Binary64) : List Char :=
  if x.isFinite then (x.write numberStyle).toList else ['n', 'u', 'l', 'l']

mutual

def Value.write : Value → List Char
  | .null => ['n', 'u', 'l', 'l']
  | .boolean true => ['t', 'r', 'u', 'e']
  | .boolean false => ['f', 'a', 'l', 's', 'e']
  | .integer n => writeInteger n
  | .number x => writeNumber x
  | .text s => writeText s
  | .list [] => ['[', ']']
  | .list (v :: vs) => '[' :: (v.write ++ writeItems vs)
  | .object [] => ['\x7b', '\x7d']
  | .object ((k, v) :: ms) => '\x7b' :: (writeText k ++ ':' :: (v.write ++ writeMembers ms))

/-- The items after the first, and the end of the list. -/
def writeItems : List Value → List Char
  | [] => [']']
  | v :: vs => ',' :: (v.write ++ writeItems vs)

/-- The members after the first, and the end of the object. -/
def writeMembers : List (String × Value) → List Char
  | [] => ['\x7d']
  | (k, v) :: ms => ',' :: (writeText k ++ ':' :: (v.write ++ writeMembers ms))

end

def Value.render (v : Value) : String := String.ofList v.write

end Replay.Json
