import Replay.Text.Digits
import Replay.Yaml.Place
import Replay.Yaml.Token

/-!
Scalars as they are written: plain, quoted, or as a block of lines; and anchors, tags and
directives. Each reader takes its text off a place.
-/

namespace Replay.Yaml

/-- Blanks and breaks between words. In one line the blanks count; over a break, the first break
is a space unless others follow. -/
structure Gap where
  blanks : List Char
  first : List Char
  others : List Char
  broken : Bool

namespace Gap

def none : Gap := ⟨[], [], [], false⟩

/-- A first break, and the breaks of empty lines after it, in a folded text. -/
def foldBreaks (first others : List Char) : List Char :=
  if first = ['\n'] then (if others = [] then [' '] else others) else first ++ others

def text (g : Gap) : List Char := if g.broken then foldBreaks g.first g.others else g.blanks

/-- Takes blanks and breaks. A tab that stands for indentation is refused below `indent`. Each turn
takes a character. -/
def take (indent : Nat) : Nat → Gap → Place → Option (Gap × Place)
  | 0, g, p => some (g, p)
  | turns + 1, g, p =>
    match p.peek with
    | .none => some (g, p)
    | some c =>
      if isBlank c then
        if g.broken then
          if c = '\t' && p.column < indent then .none else take indent turns g (p.skip 1)
        else take indent turns { g with blanks := g.blanks ++ [c] } (p.skip 1)
      else if isBreak c then
        let (br, p) := p.takeBreak
        if g.broken then take indent turns { g with others := g.others ++ br } p
        else take indent turns { g with first := br, broken := true } p
      else some (g, p)

end Gap

namespace Scalar

/-- Characters of a plain scalar up to a blank, a break or an indicator. Inside brackets a colon
may not stand before another indicator. -/
def plainWord (inBrackets : Bool) : List Char → Option (List Char)
  | [] => some []
  | c :: rest =>
    let next := rest.head?
    if isBlank c || isBreak c then some []
    else if inBrackets && c = ':' && next.any (fun d => ",?[]\x7b\x7d".contains d) then none
    else if c = ':' && endsWord next then some []
    else if inBrackets && ",[]\x7b\x7d".contains c then some []
    else (plainWord inBrackets rest).map (c :: ·)

/-- A plain scalar, and whether a break was read behind it. It goes on over lines that are indented
deeper than the block it stands in. -/
def plainGo (inBrackets : Bool) (indent : Nat) :
    Nat → List Char → Gap → Place → Option (List Char × Bool × Place)
  | 0, _, _, _ => none
  | turns + 1, text, gap, p =>
    if p.atBound || p.next '#' then some (text, gap.broken, p)
    else do
      let word ← plainWord inBrackets p.rest
      let p := p.skip word.length
      let (text, gap) := if word = [] then (text, gap) else (text ++ gap.text ++ word, Gap.none)
      if p.nextBlank || p.nextBreak then
        let (gap, p) ← Gap.take indent p.rest.length gap p
        if !inBrackets && p.column < indent then return (text, gap.broken, p)
        plainGo inBrackets indent turns text gap p
      else return (text, gap.broken, p)

def plain (inBrackets : Bool) (indent : Nat) (p : Place) : Option (List Char × Bool × Place) :=
  plainGo inBrackets indent (p.rest.length + 1) [] Gap.none p

def letterEscape? (c : Char) : Option Char :=
  match c with
  | '0' => some (Char.ofNat 0)
  | 'a' => some (Char.ofNat 7)
  | 'b' => some (Char.ofNat 8)
  | 't' => some '\t'
  | '\t' => some '\t'
  | 'n' => some '\n'
  | 'v' => some (Char.ofNat 11)
  | 'f' => some (Char.ofNat 12)
  | 'r' => some '\r'
  | 'e' => some (Char.ofNat 27)
  | ' ' => some ' '
  | '"' => some '"'
  | '/' => some '/'
  | '\\' => some '\\'
  | 'N' => some (Char.ofNat 0x85)
  | '_' => some (Char.ofNat 0xA0)
  | 'L' => some (Char.ofNat 0x2028)
  | 'P' => some (Char.ofNat 0x2029)
  | _ => none

def numberEscape? (c : Char) : Option Nat :=
  match c with
  | 'x' => some 2
  | 'u' => some 4
  | 'U' => some 8
  | _ => none

def escape (p : Place) : Option (Char × Place) := do
  let c ← p.peek
  match letterEscape? c, numberEscape? c with
  | some d, _ => return (d, p.skip 1)
  | none, some digits =>
    let cs := (p.rest.drop 1).take digits
    if cs.length < digits then none
    let n ← Text.number? 16 cs
    if 0xD800 ≤ n && n ≤ 0xDFFF || 0x10FFFF < n then none
    return (Char.ofNat n, p.skip (digits + 1))
  | none, none => none

/-- Characters of a quoted scalar up to a blank, a break or the closing quote. The second result
says that an escaped break was taken. -/
def quotedWord (single : Bool) : Nat → Place → Option (List Char × Bool × Place)
  | 0, p => some ([], false, p)
  | turns + 1, p =>
    match p.peek with
    | none => some ([], false, p)
    | some c =>
      if isBlank c || isBreak c then some ([], false, p)
      else if single && c = '\'' && p.peekAt 1 == some '\'' then
        (quotedWord single turns (p.skip 2)).map fun (cs, r) => ('\'' :: cs, r)
      else if c = (if single then '\'' else '"') then some ([], false, p)
      else if !single && c = '\\' then
        if (p.peekAt 1).any isBreak then some ([], true, (p.skip 1).takeBreak.2)
        else do
          let (d, p) ← escape (p.skip 1)
          let (cs, r) ← quotedWord single turns p
          return (d :: cs, r)
      else (quotedWord single turns (p.skip 1)).map fun (cs, r) => (c :: cs, r)

/-- A quoted scalar behind its opening quote. -/
def quotedGo (single : Bool) : Nat → List Char → Place → Option (List Char × Place)
  | 0, _, _ => none
  | turns + 1, text, p =>
    if p.atBound || p.peek.isNone then none
    else do
      let (word, broken, p) ← quotedWord single p.rest.length p
      let text := text ++ word
      if p.next (if single then '\'' else '"') then return (text, p.skip 1)
      let (gap, p) ← Gap.take 0 p.rest.length { Gap.none with broken } p
      quotedGo single turns (text ++ gap.text) p

def quoted (single : Bool) (p : Place) : Option (List Char × Place) :=
  quotedGo single (p.rest.length + 1) [] p

inductive Chomp where
  | strip
  | clip
  | keep

/-- The indicators behind `|` or `>`: the breaks at the end, and the indentation. -/
def blockHead (p : Place) : Option (Chomp × Nat × Place) := do
  let chomp? (p : Place) : Option (Chomp × Place) :=
    if p.next '+' then some (.keep, p.skip 1)
    else if p.next '-' then some (.strip, p.skip 1)
    else none
  let depth? (p : Place) : Option (Nat × Place) :=
    (p.peek.bind (Text.digit? 10)).map fun n => (n, p.skip 1)
  match chomp? p, depth? p with
  | some (chomp, p), _ =>
    match depth? p with
    | some (0, _) => none
    | some (n, p) => return (chomp, n, p)
    | none => return (chomp, 0, p)
  | none, some (0, _) => none
  | none, some (n, p) =>
    match chomp? p with
    | some (chomp, p) => return (chomp, n, p)
    | none => return (.clip, n, p)
  | none, none => return (.clip, 0, p)

/-- Empty lines of a block, with the greatest column reached. While the indentation is not known
(zero), blanks of any number belong to it. -/
def emptyLines (indent : Nat) :
    Nat → (reached : Nat) → List Char → Place → Option (Nat × List Char × Place)
  | 0, reached, breaks, p => some (reached, breaks, p)
  | turns + 1, reached, breaks, p =>
    let spaces := (p.rest.takeWhile (· == ' ')).length
    let p := p.skip (if indent = 0 then spaces else min spaces (indent - p.column))
    let reached := max reached p.column
    if (indent = 0 || p.column < indent) && p.next '\t' then none
    else if p.nextBreak then
      let (br, p) := p.takeBreak
      emptyLines indent turns reached (breaks ++ br) p
    else some (reached, breaks, p)

def blockLines (literal : Bool) (indent : Nat) :
    Nat → (text : List Char) → (first others : List Char) → (wasBlank : Bool) → Place →
      Option (List Char × List Char × List Char × Place)
  | 0, text, first, others, _, p => some (text, first, others, p)
  | turns + 1, text, first, others, wasBlank, p =>
    if p.column = indent && p.peek.isSome then do
      let blank := p.nextBlank
      let joint :=
        if !literal && first = ['\n'] && !wasBlank && !blank then Gap.foldBreaks first others
        else first ++ others
      let (line, p) := p.takeWhile fun _ => true
      let (first, p) := p.takeBreak
      let (_, others, p) ← emptyLines indent p.rest.length 0 [] p
      blockLines literal indent turns (text ++ joint ++ line) first others blank p
    else some (text, first, others, p)

/-- A block scalar behind its indicator. Its indentation is given by the head, or by its first line
that is not empty; it is deeper than that of the block it stands in. -/
def block (literal : Bool) (parent : Int) (p : Place) : Option (List Char × Place) := do
  let (chomp, increment, p) ← blockHead p
  let p := p.skipBlanks.skipComment
  if !(p.peek.isNone || p.nextBreak) then none
  let p := p.takeBreak.2
  let given := if increment = 0 then 0 else parent.toNat + increment
  let (reached, others, p) ← emptyLines given p.rest.length 0 [] p
  let indent := if given = 0 then max (max reached (parent + 1).toNat) 1 else given
  let (text, first, others, p) ← blockLines literal indent (p.rest.length + 1) [] [] others false p
  match chomp with
  | .strip => return (text, p)
  | .clip => return (text ++ first, p)
  | .keep => return (text ++ first ++ others, p)

end Scalar

def anchorName (p : Place) : Option (String × Place) :=
  let (name, p) := p.takeWhile isWord
  if name ≠ [] && (endsWord p.peek || p.peek.any fun c => "?:,]\x7d%@`".contains c) then
    some (String.ofList name, p)
  else none

namespace WrittenTag

/-- The character that `%` escapes spell: one byte each, of a character in UTF-8. -/
def uriEscape (p : Place) : Option (Char × Place) := do
  let byte? (p : Place) : Option (Nat × Place) := do
    if !p.next '%' then none
    return (← Text.number? 16 [← p.peekAt 1, ← p.peekAt 2], p.skip 3)
  let (first, p) ← byte? p
  let more ←
    if first < 0x80 then some 0
    else if first / 32 = 6 then some 1
    else if first / 16 = 14 then some 2
    else if first / 8 = 30 then some 3
    else none
  let step : Nat × Place → Option (Nat × Place) := fun (n, p) => do
    let (b, p) ← byte? p
    if b / 64 ≠ 2 then none
    return (n * 64 + b % 64, p)
  let lead := if more = 0 then first else first % (64 >>> more)
  let (n, p) ← (List.replicate more ()).foldlM (fun s _ => step s) (lead, p)
  return (Char.ofNat n, p)

/-- The characters of a tag. Commas and brackets belong to it only between angle brackets. -/
def isUri (verbatim : Bool) (c : Char) : Bool :=
  isWord c || ";/?:@&=+$.%!~*'()".contains c || (verbatim && ",[]".contains c)

def uri (verbatim : Bool) : Nat → Place → Option (List Char × Place)
  | 0, p => some ([], p)
  | turns + 1, p =>
    match p.peek with
    | none => some ([], p)
    | some c =>
      if !isUri verbatim c then some ([], p)
      else do
        let (c, p) ← if c = '%' then uriEscape p else some (c, p.skip 1)
        let (cs, p) ← uri verbatim turns p
        return (c :: cs, p)

/-- `!`, or a name between two of them. In a directive the second one must be there. -/
def readHandle (directive : Bool) (p : Place) : Option (List Char × Place) :=
  if !p.next '!' then none
  else
    let (name, p) := (p.skip 1).takeWhile isWord
    if p.next '!' then some ('!' :: name ++ ['!'], p.skip 1)
    else if directive && name ≠ [] then none
    else some ('!' :: name, p)

def read (inBrackets : Bool) (p : Place) : Option (WrittenTag × Place) := do
  let (tag, p) : WrittenTag × Place ←
    if p.peekAt 1 == some '<' then do
      let (suffix, p) ← uri true p.rest.length (p.skip 2)
      if suffix = [] || !p.next '>' then none
      some (⟨"", String.ofList suffix⟩, p.skip 1)
    else do
      let (head, p) ← readHandle false p
      if 2 ≤ head.length && head.getLast? == some '!' then
        let (suffix, p) ← uri false p.rest.length p
        if suffix = [] then none
        some (⟨String.ofList head, String.ofList suffix⟩, p)
      else
        let (more, p) ← uri false p.rest.length p
        let suffix := head.drop 1 ++ more
        if suffix = [] then some (⟨"", "!"⟩, p) else some (⟨"!", String.ofList suffix⟩, p)
  if endsWord p.peek || (inBrackets && p.next ',') then return (tag, p)
  none

end WrittenTag

def versionNumber (p : Place) : Option (Nat × Place) :=
  let (digits, p) := p.takeWhile Char.isDigit
  if 9 < digits.length then none else (Text.number? 10 digits).map fun n => (n, p)

/-- A directive behind its `%`, with its line. -/
def directive (p : Place) : Option (Token × Place) := do
  let (name, p) := p.takeWhile isWord
  if name = [] || !endsWord p.peek then none
  let p := p.skipBlanks
  let (token, p) : Token × Place ←
    if name = "YAML".toList then do
      let (major, p) ← versionNumber p
      if !p.next '.' then none
      let (minor, p) ← versionNumber (p.skip 1)
      some (.version major minor, p)
    else if name = "TAG".toList then do
      let (handle, p) ← WrittenTag.readHandle true p
      if !p.nextBlank then none
      let (expansion, p) ← WrittenTag.uri true p.rest.length p.skipBlanks
      if expansion = [] || !endsWord p.peek then none
      some (.abbreviation (String.ofList handle) (String.ofList expansion), p)
    else none
  let p := p.skipBlanks.skipComment
  if p.peek.isNone || p.nextBreak then return (token, p.takeBreak.2)
  none

end Replay.Yaml
