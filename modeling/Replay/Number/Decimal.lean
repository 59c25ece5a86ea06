import Replay.Number.Binary64

/-!
Decimal numerals `digits · 10^exponent`: the double nearest to one, and the shortest one that a
given double reads back from.
-/

namespace Replay

def decimalLength (n : Nat) : Nat :=
  if n < 10 then 1 else decimalLength (n / 10) + 1

structure Decimal where
  digits : Nat
  exponent : Int
  deriving DecidableEq

namespace Decimal

/-- The double nearest to the numeral. Numerals beyond every double are settled by their length
alone, so that no large power of ten is formed for them. -/
def toBinary64 (negative : Bool) (d : Decimal) : Binary64 :=
  if d.digits = 0 then .finite negative .zero
  else
    let top : Int := decimalLength d.digits + d.exponent
    if 310 < top then .infinite negative
    else if top < -330 then .finite negative .zero
    else match d.exponent with
      | .ofNat e => .nearest negative (d.digits * Nat.pow 10 e * Magnitude.one) 1
      | .negSucc e => .nearest negative (d.digits * Magnitude.one) (Nat.pow 10 (e + 1))

def trim (d : Decimal) : Decimal :=
  go (decimalLength d.digits) d
where
  go : Nat → Decimal → Decimal
    | 0, d => d
    | fuel + 1, d => if d.digits % 10 = 0 then go fuel ⟨d.digits / 10, d.exponent + 1⟩ else d

/-- The exponent of the first digit of a positive quotient. -/
def leading (num den : Nat) : Int :=
  if den ≤ num then decimalLength (num / den) - 1
  else - (decimalLength ((den - 1) / num) : Int)

/-- Four times the numbers of quanta between which a real rounds to `u`, and whether these ends
round to it as well. Below a power of two the grid is twice as fine. -/
def neighbourhood (u : Nat) : Nat × Nat × Bool :=
  let s := Grid.spacing u
  let below := if 1 < s ∧ u = 1 <<< u.log2 then s else 2 * s
  (4 * u - below, 4 * u + 2 * s, u / s % 2 = 0)

/-- The point of the grid `10^k` that reads back as `u` quanta, if there is one: of two the
nearer, of two equally near the even one. -/
def onGrid? (u : Nat) (k : Int) : Option Nat :=
  let up := Nat.pow 10 k.toNat
  let down := Nat.pow 10 (-k).toNat
  let (low, high, closed) := neighbourhood u
  let inside (d : Nat) : Bool :=
    let x := 4 * (d * up * Magnitude.one)
    if closed then low * down ≤ x && x ≤ high * down else low * down < x && x < high * down
  let d := u * down / (up * Magnitude.one)
  match inside d, inside (d + 1) with
  | false, false => none
  | true, false => some d
  | false, true => some (d + 1)
  | true, true =>
    let twice := 2 * u * down
    let middle := (2 * d + 1) * up * Magnitude.one
    if twice < middle then some d
    else if middle < twice then some (d + 1)
    else some (d + d % 2)

/-- The numeral with the fewest digits that reads back as `m`, and the nearest of those.
Seventeen digits always suffice. -/
def shortest (m : Magnitude) : Decimal :=
  if m.quanta = 0 then ⟨0, 0⟩
  else
    let top := leading m.quanta Magnitude.one
    go m.quanta top 17 0
where
  go (u : Nat) (top : Int) : Nat → Nat → Decimal
    | 0, _ => ⟨0, 0⟩
    | left + 1, extra =>
      let k := top - extra
      match onGrid? u k with
      | some d => trim ⟨d, k⟩
      | none => go u top left (extra + 1)

/-- How numbers are written: which exponents of the first digit are written without an exponent
part, whether a whole number keeps a point and a zero, whether an exponent always has a sign. -/
structure Style where
  positional : Int → Bool
  pointZero : Bool
  exponentPlus : Bool
  nan : String
  infinity : String

/-- The digits of a numeral with the point put in its place, without an exponent part. -/
def writePositional (pointZero : Bool) (d : Decimal) : String :=
  let ds := Nat.repr d.digits
  match d.exponent with
  | .ofNat e =>
    ds ++ "".pushn '0' (if d.digits = 0 then 0 else e) ++ (if pointZero then ".0" else "")
  | .negSucc e =>
    let places := e + 1
    let cs := ds.toList
    let whole := cs.length - places
    if places < cs.length then
      String.ofList (cs.take whole) ++ "." ++ String.ofList (cs.drop whole)
    else "0." ++ "".pushn '0' (places - cs.length) ++ ds

/-- One digit before the point, and the power of ten behind an `e`. -/
def writeScientific (plus : Bool) (first : Int) (d : Decimal) : String :=
  let mantissa :=
    match (Nat.repr d.digits).toList with
    | [] => ""
    | [c] => String.singleton c
    | c :: cs => String.singleton c ++ "." ++ String.ofList cs
  let sign := if first < 0 then "-" else if plus then "+" else ""
  mantissa ++ "e" ++ sign ++ Nat.repr first.natAbs

def write (style : Style) (d : Decimal) : String :=
  let first := d.exponent + (decimalLength d.digits : Int) - 1
  if d.digits = 0 || style.positional first then writePositional style.pointZero d
  else writeScientific style.exponentPlus first d

end Decimal

def Binary64.write (style : Decimal.Style) : Binary64 → String
  | .nan => style.nan
  | .infinite negative => (if negative then "-" else "") ++ style.infinity
  | .finite negative m => (if negative then "-" else "") ++ (Decimal.shortest m).write style

end Replay
