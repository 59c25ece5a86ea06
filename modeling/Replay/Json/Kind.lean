import Replay.Json.Numeral

/-!
Kinds of values: what a place in a message may hold. A kind is checked in two ways. `Kind.ofValue`
takes a value that is already read, and its errors have no position. `Kind.read` reads from the
text, stops at the first thing that is wrong, and its faults tell where.

Either way the result is the value in its plain form: a choice as the text of its name, a record
as the object of the fields that were given.
-/

namespace Replay.Json

structure Slot (ρ : Type) where
  key : String
  required : Bool
  reading : ρ

inductive Kind where
  | boolean
  | number
  | word (bits : Nat)
  | text
  | choice (names : List String)
  /-- `null` or a value of the kind. -/
  | optional (kind : Kind)
  | list (kind : Kind)
  | record (title : String) (fields : List (Slot Kind))

namespace Kind

def expected : Kind → String
  | .boolean => "a boolean"
  | .number => "f64"
  | .word bits => "u" ++ Nat.repr bits
  | .text => "a string"
  | .choice _ => "string or map"
  | .optional k => k.expected
  | .list _ => "a sequence"
  | .record title _ => title

def double (n : Int) : Binary64 :=
  if n < 0 then -(Binary64.ofNat n.natAbs) else Binary64.ofNat n.natAbs

def accept (k : Kind) (v : Value) : Except Cause Value :=
  match k, v with
  | .boolean, .boolean b => .ok (.boolean b)
  | .number, .integer n => .ok (.number (double n))
  | .number, .number x => .ok (.number x)
  | .word bits, .integer n =>
    if 0 ≤ n ∧ n.toNat < 1 <<< bits then .ok (.integer n)
    else .error (.wrongValue (.integer n) k.expected)
  | .text, .text s => .ok (.text s)
  | k, v => .error (.wrongKind v.found k.expected)

def acceptName (names : List String) (name : String) : Except Cause String :=
  if name ∈ names then .ok name else .error (.unknownVariant name names)

/-- A choice is its name, or an object that gives nothing under the name. -/
def choiceOfValue (names : List String) : Value → Except Cause Value
  | .text s => (acceptName names s).map .text
  | .object [(key, v)] => do
    let name ← acceptName names key
    match v with
    | .null => return .text name
    | .object [] => return .text name
    | v => .error (.wrongKind v.found "unit")
  | .object _ => .error (.wrongValue .object "map with a single key")
  | v => .error (.wrongKind v.found "string or map")

end Kind

def elements (n : Nat) : String := if n = 1 then "1 element" else Nat.repr n ++ " elements"

namespace Slot

variable {ρ : Type}

def missing? (slots : List (Slot ρ)) (given : List (String × Value)) : Option String :=
  (slots.find? fun slot => slot.required && !given.any (·.1 == slot.key)).map (·.key)

def find? (slots : List (Slot ρ)) (key : String) : Option (Slot ρ) :=
  slots.find? (·.key == key)

end Slot

/-- A way to check a value that is already read. -/
abbrev Check := Value → Except Cause Value

/-- The fields that the members of an object give. Members without a field are passed over. -/
def fieldsOfMembers (slots : List (Slot Check)) :
    List (String × Value) → List (String × Value) → Except Cause (List (String × Value))
  | given, [] => .ok given
  | given, (key, v) :: rest =>
    match Slot.find? slots key with
    | none => fieldsOfMembers slots given rest
    | some slot =>
      if given.any (·.1 == key) then .error (.duplicateField key)
      else do fieldsOfMembers slots (given ++ [(key, ← slot.reading v)]) rest

/-- The fields that the items of a list give, in the order of the record. A list may end before
fields that are not required. -/
def fieldsOfItems (title : String) (count : Nat) :
    List (Slot Check) → Nat → List Value → Except Cause (List (String × Value))
  | [], _, [] => .ok []
  | [], n, v :: vs => .error (.wrongLength (n + (v :: vs).length) (elements n ++ " in sequence"))
  | slot :: slots, n, [] =>
    if slot.required then .error (.wrongLength n (title ++ " with " ++ elements count))
    else fieldsOfItems title count slots (n + 1) []
  | slot :: slots, n, v :: vs => do
    let field ← slot.reading v
    return (slot.key, field) :: (← fieldsOfItems title count slots (n + 1) vs)

/-- A record from an object or from a list. -/
def recordOfValue (title : String) (slots : List (Slot Check)) : Check
  | .object ms => do
    let given ← fieldsOfMembers slots [] ms
    match Slot.missing? slots given with
    | some key => .error (.missingField key)
    | none => return .object given
  | .list vs => return .object (← fieldsOfItems title slots.length slots 0 vs)
  | v => .error (.wrongKind v.found title)

mutual

/-- Checks a value that is already read. -/
def Kind.ofValue : Kind → Check
  | .choice names => Kind.choiceOfValue names
  | .optional k => fun v =>
    match v with
    | .null => .ok .null
    | v => k.ofValue v
  | .list k => fun v =>
    match v with
    | .list vs => do return .list (← vs.mapM k.ofValue)
    | v => .error (.wrongKind v.found "a sequence")
  | .record title fields => recordOfValue title (checks fields)
  | k => k.accept

def checks : List (Slot Kind) → List (Slot Check)
  | [] => []
  | ⟨key, required, k⟩ :: fields => ⟨key, required, k.ofValue⟩ :: checks fields

end

namespace Reader

/-- Fails because of what comes next: at once before a bracket, else behind the value. -/
def refuse {α : Type} (expected : String) : Reader α := do
  match ← token with
  | some '[' => fail (.wrongKind .list expected)
  | some '\x7b' => fail (.wrongKind .object expected)
  | _ => fail (.wrongKind (← scalar).found expected)

/-- Fails behind what was read if a check refused it. -/
def settle {α : Type} : Except Cause α → Reader α
  | .ok x => pure x
  | .error cause => fail cause

/-- Takes the opening bracket and reads what is inside, one level down. -/
def opened {α : Type} (depth : Nat) (inside : Nat → Reader α) : Reader α := do
  match depth with
  | 0 => failNext .tooDeep
  | depth + 1 =>
    drop
    inside depth

def name (names : List String) : Reader String := do
  match ← token with
  | some '"' =>
    drop
    settle (Kind.acceptName names (← textBody))
  | _ => refuse "variant identifier"

def choice (names : List String) (depth : Nat) : Reader Value := do
  match ← token with
  | none => failNext .endInValue
  | some '"' => return .text (← name names)
  | some '\x7b' =>
    opened depth fun _ => do
      let name ← name names
      colon
      match ← token with
      | some 'n' => discard scalar
      | _ => refuse "unit"
      match ← token with
      | some '\x7d' => drop
      | some _ => fail .valueExpected
      | none => fail .endInObject
      return .text name
  | some _ => failNext .valueExpected

def fieldsOfMembers (slots : List (Slot (Reader Value))) :
    Nat → Bool → List (String × Value) → Reader (List (String × Value))
  | 0, _, _ => fail .endInObject
  | turns + 1, first, given => do
    match ← nextKey first with
    | none => return given
    | some key =>
      match Slot.find? slots key with
      | none =>
        colon
        pass
        fieldsOfMembers slots turns false given
      | some slot =>
        if given.any (·.1 == key) then failClosing '\x7d' (.duplicateField key)
        else
          colon
          let v ← slot.reading
          fieldsOfMembers slots turns false (given ++ [(key, v)])

def fieldsOfItems (title : String) (count : Nat) :
    List (Slot (Reader Value)) → Nat → Bool → Reader (List (String × Value))
  | [], _, _ => return []
  | slot :: slots, n, first => do
    if ← another first then
      let v ← slot.reading
      let rest ← fieldsOfItems title count slots (n + 1) false
      return (slot.key, v) :: rest
    else if slot.required then
      failClosing ']' (.wrongLength n (title ++ " with " ++ elements count))
    else fieldsOfItems title count slots (n + 1) first

def record (title : String) (slots : Nat → List (Slot (Reader Value))) (depth : Nat) :
    Reader Value := do
  match ← token with
  | some '\x7b' =>
    opened depth fun depth => do
      let slots := slots depth
      let given ← fieldsOfMembers slots (← left) true []
      match Slot.missing? slots given with
      | some key => failClosing '\x7d' (.missingField key)
      | none =>
        closeObject
        return .object given
  | some '[' =>
    opened depth fun depth => do
      let slots := slots depth
      let given ← fieldsOfItems title slots.length slots 0 true
      closeList
      return .object given
  | _ => refuse title

end Reader

mutual

/-- Reads a value of the kind, with at most `depth` lists and objects inside one another. -/
def Kind.read : Kind → Nat → Reader Value
  | .choice names, depth => Reader.choice names depth
  | .optional k, depth => do
    match ← Reader.token with
    | some 'n' => Reader.scalar
    | _ => k.read depth
  | .list k, depth => do
    match ← Reader.token with
    | some '[' =>
      Reader.opened depth fun depth => do
        let vs ← Reader.items (k.read depth) (← Reader.left) true
        Reader.closeList
        return .list vs
    | _ => Reader.refuse "a sequence"
  | .record title fields, depth => Reader.record title (fun depth => readings fields depth) depth
  | k, _ => do
    match ← Reader.token with
    | some '[' => Reader.refuse k.expected
    | some '\x7b' => Reader.refuse k.expected
    | _ => Reader.settle (k.accept (← Reader.scalar))

def readings : List (Slot Kind) → Nat → List (Slot (Reader Value))
  | [], _ => []
  | ⟨key, required, k⟩ :: fields, depth => ⟨key, required, k.read depth⟩ :: readings fields depth

end

/-- How many lists and objects may be inside one another in a text. -/
def depthLimit : Nat := 127

namespace Reader

/-- Members of a tagged object: the variant under the tag, and all the others. -/
def taggedMembers (tag : String) (variants : List String) (inner : Reader Value) :
    Nat → Bool → Option String → Reader (Option String × List (String × Value))
  | 0, _, _ => fail .endInObject
  | turns + 1, first, variant => do
    match ← nextKey first with
    | none => return (variant, [])
    | some key =>
      if key == tag then
        if variant.isSome then failClosing '\x7d' (.duplicateField tag)
        else
          colon
          let variant ← name variants
          taggedMembers tag variants inner turns false (some variant)
      else
        colon
        let v ← inner
        let (variant, ms) ← taggedMembers tag variants inner turns false variant
        return (variant, (key, v) :: ms)

/-- A value that names its own variant, under the tag or as the first item of a list. What it
holds besides is read into memory and can be checked once the variant is known. -/
def tagged (title tag : String) (variants : List String) : Reader (String × Value) := do
  match ← token with
  | some '\x7b' =>
    opened depthLimit fun depth => do
      let (variant, ms) ← taggedMembers tag variants (value depth) (← left) true none
      match variant with
      | none => failClosing '\x7d' (.missingField tag)
      | some variant =>
        closeObject
        return (variant, .object ms)
  | some '[' =>
    opened depthLimit fun depth => do
      if ← another true then
        let variant ← name variants
        let vs ← items (value depth) (← left) false
        closeList
        return (variant, .list vs)
      else failClosing ']' (.missingField tag)
  | _ => refuse title

end Reader

end Replay.Json
