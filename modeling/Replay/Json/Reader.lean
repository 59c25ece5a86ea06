import Replay.Json.Value
import Replay.Text.Digits

/-!
Reading of JSON texts from left to right: blanks, words, strings, numerals, and the brackets of
lists and objects.
-/

namespace Replay.Json

/-- Takes something off the front of a text. -/
abbrev Reader := StateT (List Char) (Except Fault)

namespace Reader

/-- Fails where the reading stands. -/
def fail {α : Type} (cause : Cause) : Reader α := fun rest => .error ⟨cause, rest, 0⟩

/-- Fails at the byte that comes next. -/
def failNext {α : Type} (cause : Cause) : Reader α := fun rest => .error ⟨cause, rest, 1⟩

def isBlank (c : Char) : Bool := c = ' ' || c = '\n' || c = '\t' || c = '\r'

def blanks : Reader Unit := fun rest => .ok ((), rest.dropWhile isBlank)

def peek : Reader (Option Char) := fun rest => .ok (rest.head?, rest)

def token : Reader (Option Char) := do
  blanks
  peek

def drop : Reader Unit := fun rest => .ok ((), rest.tail)

def word : List Char → Reader Unit
  | [] => pure ()
  | c :: cs => fun rest =>
    match rest with
    | [] => .error ⟨.endInValue, [], 0⟩
    | d :: r => if d = c then word cs r else .error ⟨.identExpected, rest, 1⟩

/-- The number that four hexadecimal digits spell. Digits are counted in bytes, so that four bytes
that are no digits are one wrong escape, and fewer than four are the end of the text. -/
def hexWord : Reader Nat := fun rest =>
  let wrong : Fault :=
    if (Utf8.encode rest).length < 4 then ⟨.endInString, [], 0⟩ else ⟨.invalidEscape, rest, 4⟩
  match rest with
  | a :: b :: c :: d :: r =>
    match Text.number? 16 [a, b, c, d] with
    | some n => .ok (n, r)
    | none => .error wrong
  | _ => .error wrong

def shortEscape? (c : Char) : Option Char :=
  if c = '"' || c = '\\' || c = '/' then some c
  else if c = 'b' then some (Char.ofNat 8)
  else if c = 'f' then some (Char.ofNat 12)
  else if c = 'n' then some '\n'
  else if c = 'r' then some '\r'
  else if c = 't' then some '\t'
  else none

def half (c : Char) : Reader Unit := fun rest =>
  match rest with
  | [] => .error ⟨.endInString, [], 0⟩
  | d :: r => if d = c then .ok ((), r) else .error ⟨.halfSurrogatePair, rest, 1⟩

/-- The character of a `\u` escape; beyond the first 65536 characters it is written as a pair of
surrogates. -/
def longEscape : Reader Char := do
  let n ← hexWord
  if 0xDC00 ≤ n && n ≤ 0xDFFF then fail .loneSurrogate
  else if 0xD800 ≤ n && n ≤ 0xDBFF then
    half '\\'
    half 'u'
    let m ← hexWord
    if 0xDC00 ≤ m && m ≤ 0xDFFF then
      return Char.ofNat ((n - 0xD800) * 0x400 + (m - 0xDC00) + 0x10000)
    else fail .loneSurrogate
  else return Char.ofNat n

/-- What follows a backslash. -/
def escape : Reader Char := fun rest =>
  match rest with
  | [] => .error ⟨.endInString, [], 0⟩
  | c :: r =>
    match shortEscape? c with
    | some d => .ok (d, r)
    | none => if c = 'u' then longEscape r else .error ⟨.invalidEscape, rest, 1⟩

/-- The characters of a string up to its closing quote. Each turn takes a character of the text,
so that its length bounds the turns. -/
def textGo : Nat → List Char → Except Fault (List Char × List Char)
  | _, [] => .error ⟨.endInString, [], 0⟩
  | 0, rest => .error ⟨.endInString, rest, 0⟩
  | turns + 1, c :: r =>
    if c = '"' then .ok ([], r)
    else if c = '\\' then
      match escape r with
      | .error f => .error f
      | .ok (d, r') => (textGo turns r').map fun (cs, r'') => (d :: cs, r'')
    else if c.toNat < 32 then .error ⟨.controlCharacter, c :: r, 1⟩
    else (textGo turns r).map fun (cs, r') => (c :: cs, r')

/-- A string behind its opening quote. -/
def textBody : Reader String := fun rest =>
  (textGo rest.length rest).map fun (cs, r) => (String.ofList cs, r)

/-- Passes over an escape whose character is not asked for; surrogates need no partner then. -/
def passEscape : Reader Unit := fun rest =>
  match rest with
  | [] => .error ⟨.endInString, [], 0⟩
  | c :: r =>
    match shortEscape? c with
    | some _ => .ok ((), r)
    | none =>
      if c = 'u' then (hexWord r).map fun (_, r') => ((), r')
      else .error ⟨.invalidEscape, rest, 1⟩

def passTextGo : Nat → List Char → Except Fault (Unit × List Char)
  | _, [] => .error ⟨.endInString, [], 0⟩
  | 0, rest => .error ⟨.endInString, rest, 0⟩
  | turns + 1, c :: r =>
    if c = '"' then .ok ((), r)
    else if c = '\\' then
      match passEscape r with
      | .error f => .error f
      | .ok (_, r') => passTextGo turns r'
    else if c.toNat < 32 then .error ⟨.controlCharacter, c :: r, 0⟩
    else passTextGo turns r

/-- Passes over a string behind its opening quote. -/
def passText : Reader Unit := fun rest => passTextGo rest.length rest

/-- Whether a further item follows in a list; takes the comma before it. -/
def another (first : Bool) : Reader Bool := do
  match ← token with
  | none => failNext .endInList
  | some ']' => return false
  | some ',' =>
    if first then return true
    else
      drop
      match ← token with
      | none => failNext .endInValue
      | some ']' => failNext .trailingComma
      | some _ => return true
  | some _ => if first then return true else failNext .listCommaOrEnd

/-- The key of a further member of an object, if one follows; takes the comma before it. -/
def nextKey (first : Bool) : Reader (Option String) := do
  match ← token with
  | none => failNext .endInObject
  | some '\x7d' => return none
  | some '"' => if first then key else failNext .objectCommaOrEnd
  | some ',' =>
    if first then failNext .keyExpected
    else
      drop
      match ← token with
      | none => failNext .endInValue
      | some '"' => key
      | some '\x7d' => failNext .trailingComma
      | some _ => failNext .keyExpected
  | some _ => if first then failNext .keyExpected else failNext .objectCommaOrEnd
where
  key : Reader (Option String) := do
    drop
    return some (← textBody)

def colon : Reader Unit := do
  match ← token with
  | none => failNext .endInObject
  | some ':' => drop
  | some _ => failNext .colonExpected

def closeList : Reader Unit := do
  match ← token with
  | none => failNext .endInList
  | some ']' => drop
  | some ',' =>
    drop
    match ← token with
    | some ']' => failNext .trailingComma
    | _ => failNext .trailingCharacters
  | some _ => failNext .trailingCharacters

def closeObject : Reader Unit := do
  match ← token with
  | none => failNext .endInObject
  | some '\x7d' => drop
  | some ',' => failNext .trailingComma
  | some _ => failNext .trailingCharacters

/-- Fails at the end of a list or object that was read too far to be continued. If its bracket
comes next, this is behind the bracket. -/
def failClosing {α : Type} (bracket : Char) (cause : Cause) : Reader α := do
  match ← token with
  | some c => if c = bracket then drop else pure ()
  | none => pure ()
  fail cause

def items {α : Type} (item : Reader α) : Nat → Bool → Reader (List α)
  | 0, _ => fail .endInList
  | turns + 1, first => do
    if ← another first then
      let x ← item
      let xs ← items item turns false
      return x :: xs
    else return []

def members {α : Type} (value : Reader α) : Nat → Bool → Reader (List (String × α))
  | 0, _ => fail .endInObject
  | turns + 1, first => do
    match ← nextKey first with
    | none => return []
    | some key =>
      colon
      let x ← value
      let xs ← members value turns false
      return (key, x) :: xs

/-- How much text is left, as a bound for the turns of a loop. -/
def left : Reader Nat := fun rest => .ok (rest.length, rest)

/-- Runs a reader on a whole text. What it read is checked first, without a position; then only
blanks may follow. -/
def runChecked {α : Type} (r : Reader (Except Cause α)) (text : String) : Except Error α :=
  match r text.toList with
  | .error f => .error (f.inText text.toList)
  | .ok (.error cause, _) => .error ⟨cause, none⟩
  | .ok (.ok x, rest) =>
    match rest.dropWhile isBlank with
    | [] => .ok x
    | c :: cs => .error (Fault.inText text.toList ⟨.trailingCharacters, c :: cs, 1⟩)

def run {α : Type} (r : Reader α) (text : String) : Except Error α :=
  runChecked (Except.ok <$> r) text

end Reader

end Replay.Json
