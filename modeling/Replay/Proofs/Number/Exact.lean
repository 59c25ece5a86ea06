import Replay.Speed

/-!
Arithmetic on doubles that is exact: whole numbers below 2^53 are doubles, and their products and
quotients are exact as long as they are whole numbers of that kind. At the speed of real time a span
of log time is therefore the same span of wall time.
-/

namespace Replay

theorem roundHalfEven_mul (n : Nat) {den : Nat} (hd : 0 < den) :
    roundHalfEven (n * den) den = n := by
  unfold roundHalfEven
  simp only [Nat.mul_div_cancel _ hd, Nat.mul_mod_left, Nat.mul_zero, hd, if_true]

/-- A multiple of the spacing stays as it is when it is rounded with that spacing. -/
theorem Grid.roundHalfEven_of_dvd {s v den : Nat} (hs : 0 < s) (hd : 0 < den) (hv : s ∣ v) :
    roundHalfEven (v * den) (den * s) * s = v := by
  obtain ⟨k, rfl⟩ := hv
  have hnum : s * k * den = k * (den * s) := by
    rw [Nat.mul_comm s k, Nat.mul_assoc, Nat.mul_comm s den]
  rw [hnum, roundHalfEven_mul k (Nat.mul_pos hd hs), Nat.mul_comm]

theorem Grid.round_exact {u d : Nat} (hd : 0 < d) (h : Grid.spacing u ∣ u) :
    Grid.round (u * d) d = u := by
  unfold Grid.round
  simp only [Nat.mul_div_cancel _ hd]
  exact Grid.roundHalfEven_of_dvd (Grid.spacing_pos u) hd h

namespace Magnitude

theorem mul_one_eq_shift (n : Nat) : n * one = n <<< 1074 := by
  have hshift : ∀ k, n * 1 <<< k = n <<< k := by
    intro k
    rw [Nat.one_shiftLeft, Nat.shiftLeft_eq]
  unfold one
  exact hshift 1074

theorem fits_mul_one {n : Nat} (h : n < 1 <<< 53) : Grid.Fits (n * one) := by
  constructor
  · have hbound : 1 <<< 53 * one < Grid.bound := by decide +kernel
    exact Nat.lt_trans (Nat.mul_lt_mul_of_pos_right h one_pos) hbound
  · rw [mul_one_eq_shift]
    exact Grid.spacing_dvd_shift h

/-- What is on the grid is its own nearest magnitude. -/
theorem nearest_exact {u d : Nat} (h : Grid.Fits u) (hd : 0 < d) :
    nearest? (u * d) d = some ⟨u, h⟩ := by
  have hround := Grid.round_exact hd h.2
  have hlt : Grid.round (u * d) d < Grid.bound := by
    rw [hround]
    exact h.1
  unfold nearest?
  rw [dif_pos hlt]
  exact congrArg some (ext hround)

def whole (n : Nat) (h : n < 1 <<< 53) : Magnitude := ⟨n * one, fits_mul_one h⟩

theorem floor_whole {n : Nat} (h : n < 1 <<< 53) : (whole n h).floor = n :=
  Nat.mul_div_cancel n one_pos

theorem ceil_whole {n : Nat} (h : n < 1 <<< 53) : (whole n h).ceil = n := by
  have hpos := one_pos
  have hlt : one - 1 < one := Nat.sub_lt hpos Nat.one_pos
  simp only [ceil, whole]
  rw [Nat.add_comm, Nat.add_mul_div_right _ _ hpos, Nat.div_eq_of_lt hlt, Nat.zero_add]

end Magnitude

namespace Binary64

open Magnitude

theorem nearest_exact (s : Bool) {u d : Nat} (h : Grid.Fits u) (hd : 0 < d) :
    nearest s (u * d) d = .finite s ⟨u, h⟩ := by
  rw [nearest, Magnitude.nearest_exact h hd]

theorem nearest_whole (s : Bool) {n d : Nat} (h : n < 1 <<< 53) (hd : 0 < d) :
    nearest s (n * one * d) d = .finite s (whole n h) := nearest_exact s (fits_mul_one h) hd

theorem ofNat_whole {n : Nat} (h : n < 1 <<< 53) : ofNat n = .finite false (whole n h) := by
  have := nearest_whole false h Nat.one_pos
  rwa [Nat.mul_one] at this

/-- Products of whole numbers are exact below 2^53. -/
theorem ofNat_mul {a b : Nat} (ha : a < 1 <<< 53) (hb : b < 1 <<< 53) (h : a * b < 1 <<< 53) :
    ofNat a * ofNat b = .finite false (whole (a * b) h) := by
  have hnum : a * one * (b * one) = a * b * one * one := by
    simp only [Nat.mul_assoc, Nat.mul_left_comm one b]
  change mul (ofNat a) (ofNat b) = _
  rw [ofNat_whole ha, ofNat_whole hb]
  simp only [mul, whole, hnum, bne_self_eq_false]
  exact nearest_whole false h one_pos

/-- Quotients of whole numbers that come out whole are exact below 2^53. -/
theorem ofNat_div {a b : Nat} (hb : b < 1 <<< 53) (hpos : 0 < b) (h : a * b < 1 <<< 53)
    (ha : a < 1 <<< 53) : ofNat (a * b) / ofNat b = .finite false (whole a ha) := by
  have hquanta : 0 < b * one := Nat.mul_pos hpos one_pos
  have hnum : a * b * one * one = a * one * (b * one) := by
    simp only [Nat.mul_assoc, Nat.mul_left_comm one b]
  change div (ofNat (a * b)) (ofNat b) = _
  rw [ofNat_whole h, ofNat_whole hb]
  simp only [div, whole, hnum, bne_self_eq_false, Nat.ne_of_gt hquanta, if_false]
  exact nearest_whole false ha hquanta

theorem floorNanos_whole {n : Nat} (h : n < 1 <<< 53) :
    (floorNanos (.finite false (whole n h))).toNat = n := by
  have htop : 1 <<< 53 < Nanos.top.toNat := by decide
  rw [floorNanos, floor_whole, Nanos.toNat_saturate]
  omega

theorem ceilNanos_whole {n : Nat} (h : n < 1 <<< 53) :
    (ceilNanos (.finite false (whole n h))).toNat = n := by
  have htop : 1 <<< 53 < Nanos.top.toNat := by decide
  rw [ceilNanos, ceil_whole, Nanos.toNat_saturate]
  omega

end Binary64

namespace Speed

theorem value_one : one.value = Binary64.ofNat 1 := by
  have hone : Binary64.ofNat 1 = .finite false (Magnitude.whole 1 (by decide)) :=
    Binary64.ofNat_whole (by decide)
  have hle : slowest ≤ Magnitude.whole 1 (by decide) := by
    change slowest.quanta ≤ 1 * Magnitude.one
    decide +kernel
  rw [one, hone]
  simp only [clamp, hle, dif_pos, value]

/-- At the speed of real time as much log time passes as wall time. -/
theorem logSpan_one {span : Nanos} (h : span.toNat < 1 <<< 53) : one.logSpan span = span := by
  have hmul := Binary64.ofNat_mul h (b := 1) (by decide) (by rwa [Nat.mul_one])
  apply UInt64.toNat.inj
  rw [logSpan, value_one, hmul, Binary64.floorNanos_whole, Nat.mul_one]

theorem wallSpan_one {span : Nanos} (h : span.toNat < 1 <<< 53) : one.wallSpan span = span := by
  have hdiv := Binary64.ofNat_div (a := span.toNat) (b := 1) (by decide) Nat.one_pos
    (by rwa [Nat.mul_one]) h
  rw [Nat.mul_one] at hdiv
  apply UInt64.toNat.inj
  rw [wallSpan, value_one, hdiv, Binary64.ceilNanos_whole]

end Speed

end Replay
