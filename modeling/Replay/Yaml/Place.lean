/-!
A place in a YAML text: what is left, and the column and line that block structure depends on.
Reading moves the place forward.
-/

namespace Replay.Yaml

/-- The characters a text may hold, apart from one byte order mark at its start. -/
def isAllowed (c : Char) : Bool :=
  let n := c.toNat
  n = 0x09 || n = 0x0A || n = 0x0D || (0x20 ≤ n && n ≤ 0x7E) || n = 0x85
    || (0xA0 ≤ n && n ≤ 0xD7FF) || (0xE000 ≤ n && n ≤ 0xFFFD && n != 0xFEFF) || 0x10000 ≤ n

def isBreak (c : Char) : Bool :=
  c = '\n' || c = '\r' || c.toNat = 0x85 || c.toNat = 0x2028 || c.toNat = 0x2029

def isBlank (c : Char) : Bool := c = ' ' || c = '\t'

def isWord (c : Char) : Bool := c.isAlphanum || c = '_' || c = '-'

/-- A blank, a break or the end. -/
def endsWord : Option Char → Bool
  | none => true
  | some c => isBlank c || isBreak c

structure Place where
  rest : List Char
  index : Nat
  line : Nat
  column : Nat
  deriving DecidableEq

namespace Place

def start (text : List Char) : Place := ⟨text, 0, 0, 0⟩

def peek (p : Place) : Option Char := p.rest.head?

def peekAt (p : Place) (n : Nat) : Option Char := p.rest[n]?

def next (p : Place) (c : Char) : Bool := p.peek == some c

def nextBlank (p : Place) : Bool := p.peek.any isBlank

def nextBreak (p : Place) : Bool := p.peek.any isBreak

def skip (n : Nat) (p : Place) : Place :=
  ⟨p.rest.drop n, p.index + n, p.line, p.column + n⟩

/-- Moves on to the next line. What is read is the break as it counts in a text: two kinds of
break stay as they are, every other is a line feed. -/
def takeBreak (p : Place) : List Char × Place :=
  let after (n : Nat) : Place := ⟨p.rest.drop n, p.index + n, p.line + 1, 0⟩
  match p.rest with
  | '\r' :: '\n' :: _ => (['\n'], after 2)
  | c :: _ =>
    if c.toNat = 0x2028 || c.toNat = 0x2029 then ([c], after 1)
    else if isBreak c then (['\n'], after 1)
    else ([], p)
  | [] => ([], p)

/-- Takes characters of the line as long as they are of a class. -/
def takeWhile (class_ : Char → Bool) (p : Place) : List Char × Place :=
  let cs := p.rest.takeWhile fun c => class_ c && !isBreak c
  (cs, p.skip cs.length)

def skipWhile (class_ : Char → Bool) (p : Place) : Place := (p.takeWhile class_).2

def skipBlanks (p : Place) : Place := p.skipWhile isBlank

def skipComment (p : Place) : Place := if p.next '#' then p.skipWhile fun _ => true else p

/-- Whether a line of three equal marks stands here, which bounds a document. -/
def atBound (p : Place) : Bool :=
  p.column = 0 && (p.rest.take 3 == ['-', '-', '-'] || p.rest.take 3 == ['.', '.', '.'])
    && endsWord (p.peekAt 3)

end Place

end Replay.Yaml
