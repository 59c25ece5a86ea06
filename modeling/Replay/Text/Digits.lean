/-!
Digits and the whole numbers they spell, in bases up to sixteen.
-/

namespace Replay.Text

/-- The value of a digit. Letters may be of either case. -/
def digit? (base : Nat) (c : Char) : Option Nat :=
  let value :=
    if c.isDigit then c.toNat - '0'.toNat
    else if 'a' ≤ c && c ≤ 'f' then c.toNat - 'a'.toNat + 10
    else if 'A' ≤ c && c ≤ 'F' then c.toNat - 'A'.toNat + 10
    else base
  if value < base then some value else none

def number? (base : Nat) (cs : List Char) : Option Nat :=
  if cs = [] then none else cs.foldlM (fun n c => (digit? base c).map (n * base + ·)) 0

/-- Why a text spells no number below a bound. -/
inductive NumberFault where
  | empty
  | invalidDigit
  | tooLarge
  deriving DecidableEq

def NumberFault.message : NumberFault → String
  | .empty => "cannot parse integer from empty string"
  | .invalidDigit => "invalid digit found in string"
  | .tooLarge => "number too large to fit in target type"

/-- Reads digits from left to right as long as the number stays below a bound. -/
def numberBelowGo (bound : Nat) : Nat → List Char → Except NumberFault Nat
  | n, [] => .ok n
  | n, c :: cs =>
    match digit? 10 c with
    | none => .error .invalidDigit
    | some d => if n * 10 + d < bound then numberBelowGo bound (n * 10 + d) cs else .error .tooLarge

/-- A decimal number below a bound. A plus may stand before it, but not alone. -/
def numberBelow (bound : Nat) : List Char → Except NumberFault Nat
  | [] => .error .empty
  | '+' :: c :: cs => numberBelowGo bound 0 (c :: cs)
  | cs => numberBelowGo bound 0 cs

end Replay.Text
