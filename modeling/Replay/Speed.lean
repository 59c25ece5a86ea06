import Replay.Time.Nanos

/-!
Playback speeds: log time that passes per wall time. Main definition: `Speed.clamp`, which takes
any number to the speed that is used for it.
-/

namespace Replay

@[irreducible] def slowest : Magnitude :=
  ⟨Grid.round Magnitude.one 100, Grid.fits_round (by decide +kernel)⟩

structure Speed where
  magnitude : Magnitude
  slowest_le : slowest ≤ magnitude
  deriving DecidableEq

namespace Speed

def value (s : Speed) : Binary64 := .finite false s.magnitude

/-- A number that is no admissible speed is taken as the slowest one. -/
def clamp : Binary64 → Speed
  | .finite false m => if h : slowest ≤ m then ⟨m, h⟩ else ⟨slowest, Nat.le_refl _⟩
  | _ => ⟨slowest, Nat.le_refl _⟩

def one : Speed := clamp (Binary64.ofNat 1)

theorem clamp_value (s : Speed) : clamp s.value = s := by
  cases s with
  | mk m h => exact dif_pos h

/-- Log time that passes in a span of wall time: the product, without its fraction. -/
def logSpan (s : Speed) (wall : Nanos) : Nanos :=
  (.ofNat wall.toNat * s.value : Binary64).floorNanos

/-- Wall time in which a span of log time passes: the quotient, rounded up. -/
def wallSpan (s : Speed) (log : Nanos) : Nanos :=
  (.ofNat log.toNat / s.value : Binary64).ceilNanos

end Speed

end Replay
