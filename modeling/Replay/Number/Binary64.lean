import Replay.Number.Rounding

/-!
Double-precision numbers as exact values. A finite one is a sign and a magnitude, counted in
quanta of 2^-1074, so that order is the order of whole numbers and every operation is an exact
quotient of whole numbers, rounded once.
-/

namespace Replay

/-- A magnitude that a finite double has, in quanta of 2^-1074. -/
structure Magnitude where
  quanta : Nat
  fits : Grid.Fits quanta
  deriving DecidableEq

namespace Magnitude

/-- Quanta in the number one. -/
@[irreducible] def one : Nat := 1 <<< 1074

theorem one_pos : 0 < one := by decide +kernel

def zero : Magnitude := ⟨0, Grid.fits_zero⟩

instance : Inhabited Magnitude := ⟨zero⟩

instance : LE Magnitude := ⟨fun a b => a.quanta ≤ b.quanta⟩
instance : LT Magnitude := ⟨fun a b => a.quanta < b.quanta⟩

instance (a b : Magnitude) : Decidable (a ≤ b) := inferInstanceAs (Decidable (a.quanta ≤ b.quanta))
instance (a b : Magnitude) : Decidable (a < b) := inferInstanceAs (Decidable (a.quanta < b.quanta))

theorem ext {a b : Magnitude} (h : a.quanta = b.quanta) : a = b := by
  cases a
  cases b
  cases h
  rfl

/-- The magnitude nearest to `num / den` quanta; `none` is overflow. -/
def nearest? (num den : Nat) : Option Magnitude :=
  if h : Grid.round num den < Grid.bound then some ⟨Grid.round num den, Grid.fits_round h⟩ else none

def floor (m : Magnitude) : Nat := m.quanta / one

def ceil (m : Magnitude) : Nat := (m.quanta + (one - 1)) / one

end Magnitude

/-- A double-precision number. One value stands for every NaN. -/
inductive Binary64 where
  | nan
  | infinite (negative : Bool)
  | finite (negative : Bool) (magnitude : Magnitude)
  deriving DecidableEq

namespace Binary64

def zero : Binary64 := .finite false .zero

instance : Inhabited Binary64 := ⟨zero⟩

/-- The double nearest to `num / den` quanta with the given sign. -/
def nearest (negative : Bool) (num den : Nat) : Binary64 :=
  match Magnitude.nearest? num den with
  | some m => .finite negative m
  | none => .infinite negative

def ofNat (n : Nat) : Binary64 := nearest false (n * Magnitude.one) 1

def neg : Binary64 → Binary64
  | .nan => .nan
  | .infinite s => .infinite !s
  | .finite s m => .finite (!s) m

def isFinite : Binary64 → Bool
  | .finite _ _ => true
  | _ => false

def isZero : Binary64 → Bool
  | .finite _ m => m.quanta == 0
  | _ => false

def isInfinite : Binary64 → Bool
  | .infinite _ => true
  | _ => false

def isPositive : Binary64 → Bool
  | .nan => false
  | .infinite s => !s
  | .finite s m => !s && 0 < m.quanta

def mul : Binary64 → Binary64 → Binary64
  | .finite s a, .finite t b => nearest (s != t) (a.quanta * b.quanta) Magnitude.one
  | .infinite s, .infinite t => .infinite (s != t)
  | .infinite s, .finite t b => if b.quanta = 0 then .nan else .infinite (s != t)
  | .finite s a, .infinite t => if a.quanta = 0 then .nan else .infinite (s != t)
  | .nan, _ => .nan
  | _, .nan => .nan

def div : Binary64 → Binary64 → Binary64
  | .finite s a, .finite t b =>
    if b.quanta = 0 then
      if a.quanta = 0 then .nan else .infinite (s != t)
    else nearest (s != t) (a.quanta * Magnitude.one) b.quanta
  | .infinite _, .infinite _ => .nan
  | .infinite s, .finite t _ => .infinite (s != t)
  | .finite s _, .infinite t => .finite (s != t) .zero
  | .nan, _ => .nan
  | _, .nan => .nan

instance : Mul Binary64 := ⟨mul⟩
instance : Div Binary64 := ⟨div⟩
instance : Neg Binary64 := ⟨neg⟩

end Binary64

end Replay
