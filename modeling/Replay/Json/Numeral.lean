import Replay.Json.Reader

/-!
Numerals. An integer that fits a word is exact. Any other numeral is read fast rather than exactly:
as many digits as fit a word, scaled once by a power of ten.
-/

namespace Replay.Json

open Reader (failNext)

def digitValue (c : Char) : Nat := c.toNat - '0'.toNat

/-- Digits taken into a significand while it stays below the bound: the significand, how many were
taken, and how many were left. -/
def absorb (bound : Nat) : Nat → List Char → Nat × Nat × Nat
  | n, [] => (n, 0, 0)
  | n, d :: ds =>
    let next := n * 10 + digitValue d
    if next < bound then
      let (m, taken, left) := absorb bound next ds
      (m, taken + 1, left)
    else (n, 0, ds.length + 1)

def powerOfTen (e : Nat) : Binary64 := (⟨1, e⟩ : Decimal).toBinary64 false

/-- A double times a power of ten; `none` if that is too large. Powers beyond the doubles are
divided off in steps; two steps take any significand to zero. -/
def scale : Nat → Binary64 → Int → Option Binary64
  | _, x, .ofNat e =>
    if e ≤ 308 then
      let y := x * powerOfTen e
      if y.isInfinite then none else some y
    else if x.isZero then some x else none
  | 0, x, .negSucc _ => some x
  | steps + 1, x, .negSucc e =>
    if e + 1 ≤ 308 then some (x / powerOfTen (e + 1))
    else if x.isZero then some x
    else scale steps (x / powerOfTen 308) (.negSucc e + 308)

/-- A significand and a power of ten as a number. -/
def scaled (negative : Bool) (significand : Nat) (exponent : Int) : Reader Value := fun rest =>
  match scale 3 (Binary64.ofNat significand) exponent with
  | some x => .ok (.number (if negative then -x else x), rest)
  | none => .error ⟨.numberOutOfRange, rest, 0⟩

def exponentPart (negative : Bool) (significand : Nat) (exponent : Int) : Reader Value :=
  fun rest =>
  let (minus, digits) : Bool × List Char :=
    match rest with
    | '+' :: r => (false, r)
    | '-' :: r => (true, r)
    | r => (false, r)
  match digits with
  | [] => .error ⟨.endInValue, [], 0⟩
  | d :: _ =>
    if d.isDigit then
      let ds := digits.takeWhile Char.isDigit
      let rest := digits.dropWhile Char.isDigit
      let (e, taken, left) := absorb 0x80000000 0 ds
      if left = 0 then
        scaled negative significand (if minus then exponent - e else exponent + e) rest
      else if significand ≠ 0 ∧ ¬ minus then .error ⟨.numberOutOfRange, digits.drop (taken + 1), 0⟩
      else .ok (.number (.finite negative .zero), rest)
    else .error ⟨.invalidNumber, digits, 1⟩

def fractionPart (negative : Bool) (significand : Nat) (exponent : Int) : Reader Value :=
  fun rest =>
  let ds := rest.takeWhile Char.isDigit
  let (n, taken, _) := absorb UInt64.size significand ds
  let exponent := exponent - taken
  match ds, rest.dropWhile Char.isDigit with
  | [], [] => .error ⟨.endInValue, [], 0⟩
  | [], r => .error ⟨.invalidNumber, r, 1⟩
  | _, 'e' :: r => exponentPart negative n exponent r
  | _, 'E' :: r => exponentPart negative n exponent r
  | _, r => scaled negative n exponent r

/-- An integer without fraction and exponent. Zero with a sign, and what has no word, is a
number. -/
def wholeValue (negative : Bool) (n : Nat) : Value :=
  if negative then
    if 0 < n ∧ n ≤ 0x8000000000000000 then .integer (-n) else .number (-(Binary64.ofNat n))
  else .integer n

/-- What follows the digits before the point, of which `left` did not fit the significand. -/
def afterDigits (negative : Bool) (significand left : Nat) : Reader Value := fun rest =>
  match rest with
  | '.' :: r => fractionPart negative significand left r
  | 'e' :: r => exponentPart negative significand left r
  | 'E' :: r => exponentPart negative significand left r
  | r =>
    if left = 0 then .ok (wholeValue negative significand, r)
    else scaled negative significand left r

def numeral (negative : Bool) : Reader Value := fun text =>
  match text with
  | [] => .error ⟨.endInValue, [], 0⟩
  | c :: rest =>
    if c = '0' then
      match rest with
      | d :: _ =>
        if d.isDigit then .error ⟨.invalidNumber, rest, 1⟩ else afterDigits negative 0 0 rest
      | [] => afterDigits negative 0 0 rest
    else if c.isDigit then
      let (n, _, left) := absorb UInt64.size 0 (text.takeWhile Char.isDigit)
      afterDigits negative n left (text.dropWhile Char.isDigit)
    else .error ⟨.invalidNumber, text, 1⟩

/-- Passes over the exponent behind its `e`. -/
def passExponent : Reader Unit := fun rest =>
  let digits :=
    match rest with
    | '+' :: r => r
    | '-' :: r => r
    | r => r
  match digits with
  | d :: r =>
    if d.isDigit then .ok ((), r.dropWhile Char.isDigit) else .error ⟨.invalidNumber, digits, 1⟩
  | [] => .error ⟨.invalidNumber, [], 0⟩

/-- Passes over a numeral behind its sign, whatever its size. -/
def passNumeral : Reader Unit := fun text =>
  match text with
  | '0' :: d :: r => if d.isDigit then .error ⟨.invalidNumber, d :: r, 1⟩ else fraction (d :: r)
  | ['0'] => .ok ((), [])
  | c :: _ =>
    if c.isDigit then fraction (text.dropWhile Char.isDigit) else .error ⟨.invalidNumber, text, 1⟩
  | [] => .error ⟨.invalidNumber, [], 0⟩
where
  fraction : Reader Unit := fun rest =>
    match rest with
    | '.' :: d :: r =>
      if d.isDigit then exponent (r.dropWhile Char.isDigit) else .error ⟨.invalidNumber, d :: r, 1⟩
    | ['.'] => .error ⟨.invalidNumber, [], 0⟩
    | r => exponent r
  exponent : Reader Unit := fun rest =>
    match rest with
    | 'e' :: r => passExponent r
    | 'E' :: r => passExponent r
    | r => .ok ((), r)

namespace Reader

/-- A value that is neither a list nor an object. -/
def scalar : Reader Value := do
  match ← token with
  | none => failNext .endInValue
  | some c =>
    if c = 'n' then
      drop
      word ['u', 'l', 'l']
      return .null
    else if c = 't' then
      drop
      word ['r', 'u', 'e']
      return .boolean true
    else if c = 'f' then
      drop
      word ['a', 'l', 's', 'e']
      return .boolean false
    else if c = '-' then
      drop
      numeral true
    else if c.isDigit then numeral false
    else if c = '"' then
      drop
      return .text (← textBody)
    else failNext .valueExpected

/-- A value of any kind, whose lists and objects hold values read by `inner`. -/
def valueWith (inner : Option (Reader Value)) : Reader Value := do
  let bracket ← token
  if bracket = some '[' then
    match inner with
    | none => failNext .tooDeep
    | some inner =>
      drop
      let xs ← items inner (← left) true
      closeList
      return .list xs
  else if bracket = some '\x7b' then
    match inner with
    | none => failNext .tooDeep
    | some inner =>
      drop
      let ms ← members inner (← left) true
      closeObject
      return .object ms
  else scalar

def value : Nat → Reader Value
  | 0 => valueWith none
  | depth + 1 => valueWith (some (value depth))

/-- Where the passing over a value stands: before a value, or inside the innermost bracket, before
or behind its first item. -/
inductive Turn where
  | value
  | inside (behindItem : Bool)

/-- Passes over a value. The open brackets are on a stack (`true` for a list), so that there is no
limit on their number. -/
def passGo : Nat → Turn → List Bool → Reader Unit
  | 0, _, _ => fail .endInValue
  | turns + 1, .value, stack => do
    match ← token with
    | none => failNext .endInValue
    | some c =>
      if c = '[' then
        drop
        passGo turns (.inside false) (true :: stack)
      else if c = '\x7b' then
        drop
        passGo turns (.inside false) (false :: stack)
      else
        if c = '-' then
          drop
          passNumeral
        else if c.isDigit then passNumeral
        else if c = '"' then
          drop
          passText
        else discard scalar
        if stack.isEmpty then return () else passGo turns (.inside true) stack
  | _ + 1, .inside _, [] => return ()
  | turns + 1, .inside behindItem, isList :: stack => do
    match ← token with
    | none => failNext (if isList then .endInList else .endInObject)
    | some c =>
      if c = (if isList then ']' else '\x7d') then
        drop
        if stack.isEmpty then return () else passGo turns (.inside true) stack
      else
        if behindItem then
          if c = ',' then drop
          else failNext (if isList then .listCommaOrEnd else .objectCommaOrEnd)
        unless isList do
          match ← token with
          | none => failNext .endInObject
          | some '"' =>
            drop
            passText
            colon
          | some _ => failNext .keyExpected
        passGo turns .value (isList :: stack)

/-- Passes over a value. Each turn takes a character or is followed by one that does. -/
def pass : Reader Unit := do
  passGo (2 * (← left) + 2) .value []

end Reader

end Replay.Json
