import Replay.Yaml.Lexer

/-!
The tree of a YAML document. Main definitions: `Node.ofTokens?`, the grammar of documents, and
`Node.resolve`, which follows an alias to the node it stands for.
-/

namespace Replay.Yaml

/-- A node. A collection or a scalar may carry the number of an anchor, and an alias names one. -/
inductive Node where
  | scalar (anchor : Option Nat) (tag : Option String) (style : Style) (text : String)
  | sequence (anchor : Option Nat) (items : List Node)
  | mapping (anchor : Option Nat) (members : List (Node × Node))
  | alias (anchor : Nat)

namespace Node

/-- The node of an empty text or an absent value. -/
def absent : Node := .scalar none none .plain ""

mutual

/-- The nodes with their anchors, in the order in which they begin. -/
def anchored : Node → List (Nat × Node)
  | .scalar none _ _ _ => []
  | .scalar (some i) tag style text => [(i, .scalar (some i) tag style text)]
  | .sequence none items => anchoredItems items
  | .sequence (some i) items => (i, .sequence (some i) items) :: anchoredItems items
  | .mapping none members => anchoredMembers members
  | .mapping (some i) members => (i, .mapping (some i) members) :: anchoredMembers members
  | .alias _ => []

def anchoredItems : List Node → List (Nat × Node)
  | [] => []
  | n :: ns => anchored n ++ anchoredItems ns

def anchoredMembers : List (Node × Node) → List (Nat × Node)
  | [] => []
  | (k, v) :: ms => anchored k ++ (anchored v ++ anchoredMembers ms)

end

/-- What an alias in a document stands for: the last node with its number. No node with an anchor
is an alias itself. -/
def resolve (root : Node) : Node → Node
  | .alias i => ((root.anchored.reverse.find? (·.1 == i)).map (·.2)).getD absent
  | n => n

end Node

/-- What the reading of a document knows besides the tokens that are left. -/
structure Grammar where
  rest : List Token
  abbreviations : List (String × String)
  anchors : List (String × Nat)
  deriving DecidableEq

namespace Grammar

def standard : List (String × String) := [("!", "!"), ("!!", "tag:yaml.org,2002:")]

def peek (g : Grammar) : Option Token := g.rest.head?

def skip (g : Grammar) : Grammar := { g with rest := g.rest.drop 1 }

def nextIn (ts : List Token) (g : Grammar) : Bool := g.peek.any (· ∈ ts)

def define (name : String) (g : Grammar) : Nat × Grammar :=
  (g.anchors.length,
    { g with anchors := (name, g.anchors.length) :: g.anchors.filter (·.1 != name) })

/-- The anchor and the tag before a node, in either order. -/
def properties (g : Grammar) : Option String × Option WrittenTag × Grammar :=
  match g.rest with
  | .anchor a :: .tag t :: rest => (some a, some t, { g with rest })
  | .tag t :: .anchor a :: rest => (some a, some t, { g with rest })
  | .anchor a :: rest => (some a, none, { g with rest })
  | .tag t :: rest => (none, some t, { g with rest })
  | _ => (none, none, g)

/-- The full name of a tag; fails for a handle that is not known. -/
def expand (t : WrittenTag) (g : Grammar) : Option String :=
  if t.handle = "" then some t.suffix
  else (g.abbreviations.find? (·.1 == t.handle)).map fun (_, expansion) => expansion ++ t.suffix

mutual

/-- A node. `block` says whether a block may stand here, and `indentless` whether the items of a
sequence may stand here without a block of their own. -/
def node (block indentless : Bool) : Nat → Grammar → Option (Node × Grammar)
  | 0, _ => none
  | fuel + 1, g =>
    match g.rest with
    | .alias name :: rest => do
      let (_, i) ← g.anchors.find? (·.1 == name)
      return (.alias i, { g with rest })
    | _ => do
      let (name, written, g) := g.properties
      let tag ← match written with
        | none => some none
        | some t => (g.expand t).map some
      let (anchor, g) := match name with
        | none => (none, g)
        | some name => let (i, g) := g.define name; (some i, g)
      let bare : Option (Node × Grammar) :=
        if name.isNone && written.isNone then none else some (.scalar anchor tag .plain "", g)
      match g.peek with
      | some (.scalar style text) =>
        return (.scalar anchor (if tag = some "!" then none else tag) style text, g.skip)
      | some .sequenceOpen =>
        let (items, g) ← flowItems true fuel g.skip
        return (.sequence anchor items, g)
      | some .mappingOpen =>
        let (members, g) ← flowMembers true fuel g.skip
        return (.mapping anchor members, g)
      | some .blockSequence =>
        if block then
          let (items, g) ← blockItems fuel g.skip
          return (.sequence anchor items, g)
        else bare
      | some .blockMapping =>
        if block then
          let (members, g) ← blockMembers fuel g.skip
          return (.mapping anchor members, g)
        else bare
      | some .blockEntry =>
        if indentless then
          let (items, g) ← indentlessItems fuel g
          return (.sequence anchor items, g)
        else bare
      | _ => bare

def nodeUnless (block indentless : Bool) (stop : List Token) :
    Nat → Grammar → Option (Node × Grammar)
  | 0, _ => none
  | fuel + 1, g => if g.nextIn stop then some (.absent, g) else node block indentless fuel g

def blockItems : Nat → Grammar → Option (List Node × Grammar)
  | 0, _ => none
  | fuel + 1, g =>
    match g.peek with
    | some .blockEntry => do
      let (n, g) ← nodeUnless true false [.blockEntry, .blockEnd] fuel g.skip
      let (ns, g) ← blockItems fuel g
      return (n :: ns, g)
    | some .blockEnd => some ([], g.skip)
    | _ => none

def indentlessItems : Nat → Grammar → Option (List Node × Grammar)
  | 0, _ => none
  | fuel + 1, g =>
    match g.peek with
    | some .blockEntry => do
      let (n, g) ← nodeUnless true false [.blockEntry, .key, .value, .blockEnd] fuel g.skip
      let (ns, g) ← indentlessItems fuel g
      return (n :: ns, g)
    | _ => some ([], g)

def blockMembers : Nat → Grammar → Option (List (Node × Node) × Grammar)
  | 0, _ => none
  | fuel + 1, g =>
    let stop := [Token.key, .value, .blockEnd]
    match g.peek with
    | some .key => do
      let (k, g) ← nodeUnless true true stop fuel g.skip
      let (v, g) ← memberValue true stop fuel g
      let (ms, g) ← blockMembers fuel g
      return ((k, v) :: ms, g)
    | some .blockEnd => some ([], g.skip)
    | _ => none

/-- The value of a member behind its colon; without a colon there is none. -/
def memberValue (block : Bool) (stop : List Token) : Nat → Grammar → Option (Node × Grammar)
  | 0, _ => none
  | fuel + 1, g =>
    if g.nextIn [.value] then nodeUnless block block stop fuel g.skip else some (.absent, g)

/-- The items of a sequence in brackets. A key makes an item a mapping of one member. -/
def flowItems (first : Bool) : Nat → Grammar → Option (List Node × Grammar)
  | 0, _ => none
  | fuel + 1, g =>
    if g.nextIn [.sequenceClose] then some ([], g.skip)
    else do
      let g ← if first then some g else if g.nextIn [.comma] then some g.skip else none
      if g.nextIn [.sequenceClose] then return ([], g.skip)
      let stop := [Token.comma, .sequenceClose]
      let (n, g) ←
        if g.nextIn [.key] then do
          let g := g.skip
          let (k, g) ←
            if g.nextIn (.value :: stop) then some (.absent, g.skip) else node false false fuel g
          let (v, g) ← memberValue false stop fuel g
          some (.mapping none [(k, v)], g)
        else node false false fuel g
      let (ns, g) ← flowItems false fuel g
      return (n :: ns, g)

def flowMembers (first : Bool) : Nat → Grammar → Option (List (Node × Node) × Grammar)
  | 0, _ => none
  | fuel + 1, g =>
    if g.nextIn [.mappingClose] then some ([], g.skip)
    else do
      let g ← if first then some g else if g.nextIn [.comma] then some g.skip else none
      if g.nextIn [.mappingClose] then return ([], g.skip)
      let stop := [Token.comma, .mappingClose]
      let (k, v, g) ←
        if g.nextIn [.key] then do
          let (k, g) ← nodeUnless false false (.value :: stop) fuel g.skip
          let (v, g) ← memberValue false stop fuel g
          some (k, v, g)
        else do
          let (k, g) ← node false false fuel g
          some (k, .absent, g)
      let (ms, g) ← flowMembers false fuel g
      return ((k, v) :: ms, g)

end

/-- The directives before a document. Each may be given once. -/
def directives (version : Bool) (given : List (String × String)) :
    List Token → Option (List (String × String) × List Token)
  | .version major minor :: rest =>
    if version || major ≠ 1 || (minor ≠ 1 && minor ≠ 2) then none else directives true given rest
  | .abbreviation handle expansion :: rest =>
    if given.any (·.1 == handle) then none
    else directives version (given ++ [(handle, expansion)]) rest
  | rest => some (given, rest)

/-- Whether nothing of a document is left. -/
def atEnd (g : Grammar) : Bool :=
  match g.peek with
  | none => true
  | some (.version _ _) => true
  | some (.abbreviation _ _) => true
  | some .documentStart => true
  | some .documentEnd => true
  | some _ => false

/-- The node of a document at its start, and what follows it. Directives need a mark behind them,
and without a mark a document is not empty. -/
def document (tokens : List Token) : Option (Node × List Token) := do
  let (given, rest) ← directives false [] tokens
  let marked := rest.head? == some .documentStart
  if !marked && rest.length < tokens.length then none
  let g : Grammar := ⟨if marked then rest.drop 1 else rest, given ++ standard, []⟩
  if marked && g.atEnd then return (.absent, g.rest)
  let (n, g) ← node true false (4 * tokens.length + 4) g
  return (n, g.rest)

end Grammar

def Node.ofTokens? (tokens : List Token) : Option Node :=
  if tokens = [] then some .absent
  else do
    let (n, rest) ← Grammar.document tokens
    if rest.all (· = .documentEnd) then some n else none

def Node.ofText? (text : List Char) : Option Node := (Token.ofText? text).bind Node.ofTokens?

end Replay.Yaml
