import Replay.Proofs.Json.Written

/-!
The syntax of JSON texts, apart from any reader of them: what may be written for a string, a
numeral, a value and an object. For strings it is also said what they stand for, and for numerals
which of them are words.
-/

namespace Replay.Json

/-- Blanks may stand on either side of every part of a text. -/
structure Blanks where
  chars : List Char
  blank : ∀ c ∈ chars, Reader.isBlank c = true

section Strings

/-- What may be written in a string. A long escape gives four hexadecimal digits, and a character
beyond the first 65536 takes two of them. -/
inductive Piece where
  | plain (c : Char) (h : c ≠ '"' ∧ c ≠ '\\' ∧ 32 ≤ c.toNat)
  | short (c d : Char) (h : Reader.shortEscape? c = some d)
  | long (a b c d : Char) (n : Nat) (h : Text.number? 16 [a, b, c, d] = some n)

def Piece.text : Piece → List Char
  | .plain c _ => [c]
  | .short c _ _ => ['\\', c]
  | .long a b c d _ _ => ['\\', 'u', a, b, c, d]

def quoted (ps : List Piece) : List Char := '"' :: (ps.flatMap Piece.text ++ ['"'])

/-- The first one of a pair of surrogates. -/
def isHigh (n : Nat) : Bool := 0xD800 ≤ n && n ≤ 0xDBFF

/-- The second one. -/
def isLow (n : Nat) : Bool := 0xDC00 ≤ n && n ≤ 0xDFFF

/-- The character that a pair of surrogates stands for. -/
def pairChar (high low : Nat) : Char :=
  Char.ofNat ((high - 0xD800) * 0x400 + (low - 0xDC00) + 0x10000)

/-- The characters that pieces stand for: none if a surrogate is not one of a pair. -/
def characters? : List Piece → Option (List Char)
  | [] => some []
  | .plain c _ :: ps => (characters? ps).map (c :: ·)
  | .short _ d _ :: ps => (characters? ps).map (d :: ·)
  | .long _ _ _ _ n _ :: ps =>
    if isLow n then none
    else if isHigh n then
      match ps with
      | .long _ _ _ _ m _ :: ps =>
        if isLow m then (characters? ps).map (pairChar n m :: ·) else none
      | _ => none
    else (characters? ps).map (Char.ofNat n :: ·)

def string? (ps : List Piece) : Option String := (characters? ps).map String.ofList

end Strings

section Numerals

/-- At least one digit. -/
structure Digits where
  chars : List Char
  ne_nil : chars ≠ []
  isDigit : ∀ c ∈ chars, c.isDigit = true

inductive Sign where
  | none
  | plus
  | minus

def Sign.text : Sign → List Char
  | .none => []
  | .plus => ['+']
  | .minus => ['-']

structure Exponent where
  capital : Bool
  sign : Sign
  digits : Digits

def Exponent.text (e : Exponent) : List Char :=
  (if e.capital then 'E' else 'e') :: (e.sign.text ++ e.digits.chars)

structure Numeral where
  negative : Bool
  whole : List Char
  fraction : Option Digits
  exponent : Option Exponent
  canonical : Canonical whole

namespace Numeral

/-- What stands behind the whole digits. -/
def tail (n : Numeral) : List Char :=
  n.fraction.elim [] (fun ds => '.' :: ds.chars) ++ n.exponent.elim [] Exponent.text

def text (n : Numeral) : List Char := (if n.negative then ['-'] else []) ++ (n.whole ++ n.tail)

/-- The numeral is a word below the bound: whole digits without a sign, and nothing behind them. -/
structure Below (n : Numeral) (bound : Nat) : Prop where
  nonneg : n.negative = false
  fraction : n.fraction = none
  exponent : n.exponent = none
  below : Nat.ofDigitChars 10 n.whole 0 < bound

end Numeral

end Numerals

section Values

/-- A value of a list, as it is written. -/
structure Item where
  before : Blanks
  value : List Char
  behind : Blanks

def Item.text (i : Item) : List Char := i.before.chars ++ (i.value ++ i.behind.chars)

/-- A key and a value, as they are written. -/
structure Entry where
  key : List Piece
  value : List Char

/-- An entry of an object, with blanks around its key and its value. -/
structure Member where
  entry : Entry
  beforeKey : Blanks
  behindKey : Blanks
  beforeValue : Blanks
  behindValue : Blanks

def Member.text (m : Member) : List Char :=
  m.beforeKey.chars ++ (quoted m.entry.key ++ (m.behindKey.chars ++ ':' ::
    (m.beforeValue.chars ++ (m.entry.value ++ m.behindValue.chars))))

/-- Parts with commas between them; a comma stands before the first one as well unless nothing
does. -/
def separated : Bool → List (List Char) → List Char
  | _, [] => []
  | first, part :: parts => comma first ++ (part ++ separated false parts)

/-- What stands between two brackets: the parts, or only blanks. -/
def between (inside : Blanks) : List (List Char) → List Char
  | [] => inside.chars
  | parts => separated true parts

def listText (inside : Blanks) (items : List Item) : List Char :=
  '[' :: (between inside (items.map Item.text) ++ [']'])

def objectText (inside : Blanks) (members : List Member) : List Char :=
  '\x7b' :: (between inside (members.map Member.text) ++ ['\x7d'])

/-- The texts of values, without blanks around them. -/
inductive IsValue : List Char → Prop where
  | null : IsValue ['n', 'u', 'l', 'l']
  | boolean (b : Bool) :
    IsValue (if b then ['t', 'r', 'u', 'e'] else ['f', 'a', 'l', 's', 'e'])
  | numeral (n : Numeral) : IsValue n.text
  | text (ps : List Piece) : IsValue (quoted ps)
  | list (inside : Blanks) (items : List Item) (h : ∀ i ∈ items, IsValue i.value) :
    IsValue (listText inside items)
  | object (inside : Blanks) (members : List Member)
    (h : ∀ m ∈ members, IsValue m.entry.value) : IsValue (objectText inside members)

/-- A text that is an object. -/
structure ObjectText where
  before : Blanks
  inside : Blanks
  members : List Member
  behind : Blanks
  isValue : ∀ m ∈ members, IsValue m.entry.value

namespace ObjectText

def text (x : ObjectText) : String :=
  String.ofList (x.before.chars ++ (objectText x.inside x.members ++ x.behind.chars))

def entries (x : ObjectText) : List Entry := x.members.map Member.entry

end ObjectText

end Values

end Replay.Json
