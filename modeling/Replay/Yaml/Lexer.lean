import Replay.Yaml.Scalar

/-!
The tokens of a text. A key of one line is known to be one only by the colon behind it; so the
place of its token is kept free where it may begin, and filled when the colon comes.
-/

namespace Replay.Yaml

/-- Where a key may have begun. -/
structure PossibleKey where
  slot : Nat
  line : Nat
  index : Nat
  column : Nat
  /-- Whether nothing but a key can stand here. -/
  required : Bool
  deriving DecidableEq

structure Lexer where
  place : Place
  /-- The column of the block that is read; -1 outside of all blocks. -/
  indent : Int
  outer : List Int
  keyAllowed : Bool
  /-- The possible key at the level that is read. -/
  key : Option PossibleKey
  /-- The possible keys before each bracket that is open. -/
  keys : List (Option PossibleKey)
  slots : Array (List Token)
  deriving DecidableEq

namespace Lexer

def start (text : List Char) : Lexer := ⟨.start text, -1, [], true, none, [], #[]⟩

def inBrackets (l : Lexer) : Bool := !l.keys.isEmpty

def tokens (l : Lexer) : List Token := l.slots.toList.flatten

def emit (t : Token) (l : Lexer) : Lexer := { l with slots := l.slots.push [t] }

def emitAt (n : Nat) (t : Token) (l : Lexer) : Lexer := { l.emit t with place := l.place.skip n }

def allow (b : Bool) (l : Lexer) : Lexer := { l with keyAllowed := b }

/-- Opens a block at a column if it is deeper than the one that is read. -/
def opens (column : Nat) (l : Lexer) : Bool := !l.inBrackets && l.indent < column

def openBlock (column : Nat) (t : Token) (l : Lexer) : Lexer :=
  if l.opens column then { l.emit t with indent := column, outer := l.indent :: l.outer } else l

/-- Ends the blocks that are deeper than a column. -/
def closeBlocks (column : Int) (l : Lexer) : Lexer :=
  if l.inBrackets then l else go l.outer l
where
  go : List Int → Lexer → Lexer
    | [], l => l
    | i :: outer, l =>
      if column < l.indent then go outer { l.emit .blockEnd with indent := i, outer } else l

/-- Gives a possible key up, which fails for a required one. -/
def dropKey (l : Lexer) : Option Lexer :=
  if l.key.any (·.required) then none else some { l with key := none }

/-- Remembers that a key may begin here. -/
def markKey (l : Lexer) : Option Lexer :=
  if l.keyAllowed then do
    let l ← l.dropKey
    let p := l.place
    let key : PossibleKey :=
      ⟨l.slots.size, p.line, p.index, p.column, !l.inBrackets && l.indent = p.column⟩
    return { l with key := some key, slots := l.slots.push [] }
  else some l

/-- Goes on to the next token: over blanks, comments and breaks. Each turn takes a line. -/
def skipToToken : Nat → Lexer → Lexer
  | 0, l => l
  | turns + 1, l =>
    let tabs := l.inBrackets || !l.keyAllowed
    let p := (l.place.skipWhile fun c => c = ' ' || (tabs && c = '\t')).skipComment
    if p.nextBreak then
      skipToToken turns
        { l with place := p.takeBreak.2, keyAllowed := !l.inBrackets || l.keyAllowed }
    else { l with place := p }

/-- A line that bounds documents or directives ends all blocks. -/
def leaveBlocks (l : Lexer) : Option Lexer :=
  (l.closeBlocks (-1)).dropKey.map (·.allow false)

def openBracket (t : Token) (l : Lexer) : Option Lexer := do
  let l ← l.markKey
  return ({ l with key := none, keys := l.key :: l.keys }.allow true).emitAt 1 t

def closeBracket (t : Token) (l : Lexer) : Option Lexer := do
  let l ← l.dropKey
  let l := match l.keys with
    | [] => l
    | key :: keys => { l with key, keys }
  return (l.allow false).emitAt 1 t

/-- An indicator that begins an item of a block. -/
def blockIndicator (begin_ t : Token) (l : Lexer) : Option Lexer := do
  if !l.inBrackets && !l.keyAllowed then none
  let l ← (l.openBlock l.place.column begin_).dropKey
  return l.emitAt 1 t

/-- A colon. Behind a key of one line, and not too far from its beginning, it fills the key's
place. -/
def colon (l : Lexer) : Option Lexer :=
  let p := l.place
  match l.key with
  | some key =>
    if key.line = p.line && p.index ≤ key.index + 1024 then
      let opens := l.opens key.column
      let filled := if opens then [Token.blockMapping, .key] else [.key]
      let l := if opens then { l with indent := key.column, outer := l.indent :: l.outer } else l
      let l := { l with key := none, slots := l.slots.set! key.slot filled }
      some ((l.allow false).emitAt 1 .value)
    else if key.required then none
    else loneColon { l with key := none }
  | none => loneColon l
where
  loneColon (l : Lexer) : Option Lexer :=
    if l.inBrackets then some ((l.allow false).emitAt 1 .value)
    else if l.keyAllowed then
      some (((l.openBlock l.place.column .blockMapping).allow true).emitAt 1 .value)
    else none

def keyLike (read : Place → Option (Token × Place)) (l : Lexer) : Option Lexer := do
  let l ← l.markKey
  let (t, place) ← read l.place
  return { (l.allow false).emit t with place }

def plainScalar (l : Lexer) : Option Lexer := do
  let l ← l.markKey
  let (text, broken, place) ← Scalar.plain l.inBrackets (l.indent + 1).toNat l.place
  return { (l.allow broken).emit (.scalar .plain (String.ofList text)) with place }

def blockScalar (literal : Bool) (l : Lexer) : Option Lexer := do
  let l ← l.dropKey
  let (text, place) ← Scalar.block literal l.indent (l.place.skip 1)
  let style := if literal then Style.literal else .folded
  return { (l.allow true).emit (.scalar style (String.ofList text)) with place }

/-- Whether a plain scalar begins with this character. -/
def beginsPlain (inBrackets : Bool) (c : Char) (next : Option Char) : Bool :=
  if c = '-' then !next.any isBlank
  else if c = '?' || c = ':' then !inBrackets && !endsWord next
  else !(isBlank c || isBreak c || ",[]\x7b\x7d#&*!|>'\"%@`".contains c)

def read (c : Char) (l : Lexer) : Option Lexer :=
  let p := l.place
  let next := p.peekAt 1
  let inside (read : Place → Option (String × Place)) (t : String → Token) :=
    l.keyLike fun p => (read (p.skip 1)).map fun (s, p) => (t s, p)
  let quote (single : Bool) (style : Style) :=
    inside (fun p => (Scalar.quoted single p).map fun (s, p) => (String.ofList s, p))
      (.scalar style)
  if p.column = 0 && c = '%' then do
    let l ← l.leaveBlocks
    let (t, place) ← directive (p.skip 1)
    return { l.emit t with place }
  else if p.atBound then
    l.leaveBlocks.map fun l => l.emitAt 3 (if c = '-' then .documentStart else .documentEnd)
  else if c = '[' then l.openBracket .sequenceOpen
  else if c = '\x7b' then l.openBracket .mappingOpen
  else if c = ']' then l.closeBracket .sequenceClose
  else if c = '\x7d' then l.closeBracket .mappingClose
  else if c = ',' then l.dropKey.map fun l => (l.allow true).emitAt 1 .comma
  else if c = '-' && endsWord next then
    (l.blockIndicator .blockSequence .blockEntry).map (·.allow true)
  else if c = '?' && (l.inBrackets || endsWord next) then
    (l.blockIndicator .blockMapping .key).map fun l => l.allow !l.inBrackets
  else if c = ':' && (l.inBrackets || endsWord next) then l.colon
  else if c = '*' then inside anchorName .alias
  else if c = '&' then inside anchorName .anchor
  else if c = '!' then
    l.keyLike fun p => (WrittenTag.read l.inBrackets p).map fun (t, p) => (.tag t, p)
  else if c = '|' && !l.inBrackets then l.blockScalar true
  else if c = '>' && !l.inBrackets then l.blockScalar false
  else if c = '\'' then quote true .singleQuoted
  else if c = '"' then quote false .doubleQuoted
  else if beginsPlain l.inBrackets c next then l.plainScalar
  else none

/-- Reads all tokens. Each turn takes a character at least. -/
def run : Nat → Lexer → Option (List Token)
  | 0, _ => none
  | turns + 1, l =>
    let l := l.skipToToken (l.place.rest.length + 1)
    let l := l.closeBlocks l.place.column
    match l.place.peek with
    | none => l.leaveBlocks.map (·.tokens)
    | some c => (l.read c).bind (run turns)

end Lexer

/-- The tokens of a text. A byte order mark may stand before it. -/
def Token.ofText? (text : List Char) : Option (List Token) :=
  let text := if text.head?.any (·.toNat = 0xFEFF) then text.drop 1 else text
  if text.all isAllowed then (Lexer.start text).run (text.length + 1) else none

end Replay.Yaml
