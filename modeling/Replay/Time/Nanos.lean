import Replay.Number.Binary64

/-!
Nanoseconds as 64-bit words. Sums stop at the largest word and differences at zero.
-/

namespace Replay

/-- A point in time, or a span of it, in nanoseconds. -/
abbrev Nanos := UInt64

namespace Nanos

def top : Nanos := 18446744073709551615

/-- A whole number as a word; what is too large becomes the largest word. -/
def saturate (n : Nat) : Nanos :=
  if h : n < UInt64.size then UInt64.ofNatLT n h else top

theorem toNat_saturate (n : Nat) : (saturate n).toNat = min n top.toNat := by
  have hs : UInt64.size = top.toNat + 1 := rfl
  unfold saturate
  split
  · rw [UInt64.toNat_ofNatLT]; omega
  · omega

def plus (a b : Nanos) : Nanos := saturate (a.toNat + b.toNat)

theorem toNat_plus (a b : Nanos) : (plus a b).toNat = min (a.toNat + b.toNat) top.toNat :=
  toNat_saturate _

def minus (a b : Nanos) : Nanos := saturate (a.toNat - b.toNat)

theorem toNat_minus (a b : Nanos) : (minus a b).toNat = a.toNat - b.toNat := by
  have hs : UInt64.size = top.toNat + 1 := rfl
  have := a.toNat_lt_size
  rw [minus, toNat_saturate]
  omega

def ofMillis (ms : Nat) : Nanos := saturate (ms * 1000000)

/-- A span given as seconds and nanoseconds. -/
def ofSpan (seconds nanos : Nat) : Nanos := saturate (seconds * 1000000000 + nanos)

end Nanos

/-- The whole part in nanoseconds. NaN and what is below zero become zero. -/
def Binary64.floorNanos : Binary64 → Nanos
  | .finite false m => Nanos.saturate m.floor
  | .infinite false => Nanos.top
  | _ => 0

/-- The number rounded up to whole nanoseconds. NaN and what is below zero become zero. -/
def Binary64.ceilNanos : Binary64 → Nanos
  | .finite false m => Nanos.saturate m.ceil
  | .infinite false => Nanos.top
  | _ => 0

structure Clock where
  now : Nanos
  deriving DecidableEq

/-- Moves the clock on. The word of its reading wraps. -/
def Clock.advance (c : Clock) (span : Nanos) : Clock := ⟨c.now + span⟩

end Replay
