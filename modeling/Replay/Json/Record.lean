import Replay.Json.Kind

/-!
Records between values of a domain type and JSON: the fields to write, the kind to read, and how
the value is made from fields that are of the kind.
-/

namespace Replay.Json

/-- The given fields of a record that was read. -/
abbrev Fields := List (String × Value)

namespace Fields

def get (fields : Fields) (key : String) : Value :=
  match fields.find? (·.1 == key) with
  | some (_, v) => v
  | none => .null

end Fields

namespace Value

def toText : Value → String
  | .text s => s
  | _ => ""

def toBool : Value → Bool
  | .boolean b => b
  | _ => false

def toNat : Value → Nat
  | .integer n => n.toNat
  | _ => 0

def toBinary64 : Value → Binary64
  | .number x => x
  | _ => .zero

def toList {α : Type} (item : Value → α) : Value → List α
  | .list vs => vs.map item
  | _ => []

def toOption {α : Type} (item : Value → α) : Value → Option α
  | .null => none
  | v => some (item v)

def toFields : Value → Fields
  | .object ms => ms
  | _ => []

end Value

/-- A member that is left out if there is no value. -/
def optionalMember {α : Type} (key : String) (write : α → Value) : Option α → List (String × Value)
  | none => []
  | some x => [(key, write x)]

structure Record (α : Type) where
  title : String
  fields : List (Slot Kind)
  members : α → List (String × Value)
  ofFields : Fields → α

namespace Record

variable {α : Type} (r : Record α)

def kind : Kind := .record r.title r.fields

def toValue (x : α) : Value := .object (r.members x)

def ofValue (v : Value) : α := r.ofFields v.toFields

def render (x : α) : String := (r.toValue x).render

def parse (text : String) : Except Error α :=
  (Reader.run (r.kind.read depthLimit) text).map r.ofValue

end Record

end Replay.Json
