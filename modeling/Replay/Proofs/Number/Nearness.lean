import Mathlib.Tactic.Ring
import Replay.Proofs.Number.Monotone

/-!
How far rounding goes. A quotient of at least 2^52 quanta is moved by one part in 2^53 at most, up
or down (`Grid.round_le_add`, `Grid.le_round_add`). So a wait is worth the log time that it was
asked for, but for two such parts (`Speed.wallSpan_worth`), and never nothing
(`Speed.wallSpan_pos`); and the log time of a span of wall time is as close to what the span is worth
(`Speed.logSpan_le`, `Speed.lt_logSpan`).
-/

namespace Replay

/-- What is rounded is within half a unit of the quotient. -/
theorem roundHalfEven_near (num : Nat) {den : Nat} (hd : 0 < den) :
    2 * (roundHalfEven num den * den) ≤ 2 * num + den ∧
      2 * num ≤ 2 * (roundHalfEven num den * den) + den := by
  have hsplit : num / den * den + num % den = num := by
    rw [Nat.mul_comm]
    exact Nat.div_add_mod num den
  have hrest := Nat.mod_lt num hd
  have hsucc : (num / den + 1) * den = num / den * den + den := Nat.succ_mul _ _
  unfold roundHalfEven
  dsimp only
  split
  · omega
  · split
    · omega
    · rcases Nat.mod_two_eq_zero_or_one (num / den) with heven | hodd
      · rw [heven, Nat.add_zero]
        omega
      · rw [hodd]
        omega

namespace Grid

variable {num den : Nat}

/-- From 2^52 on the grid is finer than one part in 2^52. -/
theorem spacing_shiftLeft_le {u : Nat} (h : 1 <<< 52 ≤ u) : spacing u <<< 52 ≤ u := by
  have hu : u ≠ 0 := by
    rintro rfl
    simp at h
  have hlog : 52 ≤ u.log2 := by
    rw [Nat.one_shiftLeft] at h
    exact (Nat.le_log2 hu).mpr h
  rw [spacing, ← Nat.shiftLeft_add, Nat.sub_add_cancel hlog, Nat.one_shiftLeft]
  exact Nat.log2_self_le hu

theorem mul_spacing_shiftLeft_le (hd : 0 < den) (h : den <<< 52 ≤ num) :
    (den * spacing (num / den)) <<< 52 ≤ num := by
  have hquotient : 1 <<< 52 ≤ num / den := by
    rw [Nat.le_div_iff_mul_le hd, Nat.one_shiftLeft, Nat.mul_comm, ← Nat.shiftLeft_eq]
    exact h
  calc (den * spacing (num / den)) <<< 52
      = spacing (num / den) <<< 52 * den := by
        rw [Nat.shiftLeft_eq, Nat.shiftLeft_eq]
        ring
    _ ≤ num / den * den := Nat.mul_le_mul_right _ (spacing_shiftLeft_le hquotient)
    _ ≤ num := Nat.div_mul_le_self num den

theorem round_near (num : Nat) (hd : 0 < den) :
    2 * (round num den * den) ≤ 2 * num + den * spacing (num / den) ∧
      2 * num ≤ 2 * (round num den * den) + den * spacing (num / den) := by
  have hvalue : round num den * den =
      roundHalfEven num (den * spacing (num / den)) * (den * spacing (num / den)) := by
    unfold round
    ring
  rw [hvalue]
  exact roundHalfEven_near num (Nat.mul_pos hd (spacing_pos _))

/-- A large quotient is rounded down by one part in 2^53 at most. -/
theorem le_round_add (hd : 0 < den) (h : den <<< 52 ≤ num) :
    num <<< 53 ≤ (round num den * den) <<< 53 + num := by
  have hspacing := mul_spacing_shiftLeft_le hd h
  have hround := (round_near num hd).2
  omega

/-- A large quotient is rounded up by one part in 2^53 at most. -/
theorem round_le_add (hd : 0 < den) (h : den <<< 52 ≤ num) :
    (round num den * den) <<< 53 ≤ num <<< 53 + num := by
  have hspacing := mul_spacing_shiftLeft_le hd h
  have hround := (round_near num hd).1
  omega

/-- Powers of two are not passed by rounding. -/
theorem round_le_one_shiftLeft (hd : 0 < den) {k : Nat} (h : num ≤ 1 <<< k * den) :
    round num den ≤ 1 <<< k := by
  have hquotient : num / den ≤ 1 <<< k := Nat.div_le_of_le_mul (Nat.mul_comm _ den ▸ h)
  have hlog := log2_mono hquotient
  rw [Nat.one_shiftLeft, Nat.log2_two_pow] at hlog
  exact round_le_of_dvd hd (spacing_dvd_one_shiftLeft hlog) h

/-- A quotient that is not below one is not rounded below one. -/
theorem one_le_round (hd : 0 < den) (h : den ≤ num) : 1 ≤ round num den := by
  have hone : round (1 * den) den = 1 := round_exact hd (by decide)
  rw [Nat.one_mul] at hone
  exact hone ▸ round_mono hd h

end Grid

namespace Magnitude

variable (m : Magnitude)

theorem le_ceil_mul : m.quanta ≤ m.ceil * one := by
  have hpos := one_pos
  have hsplit := Nat.div_add_mod (m.quanta + (one - 1)) one
  have hrest := Nat.mod_lt (m.quanta + (one - 1)) hpos
  rw [ceil, Nat.mul_comm]
  omega

theorem ceil_le {n : Nat} (h : m.quanta ≤ n * one) : m.ceil ≤ n := by
  have hpos := one_pos
  rw [ceil, ← Nat.lt_succ_iff, Nat.div_lt_iff_lt_mul hpos, Nat.succ_mul]
  omega

theorem floor_mul_le : m.floor * one ≤ m.quanta := Nat.div_mul_le_self _ _

theorem lt_floor_succ_mul : m.quanta < (m.floor + 1) * one :=
  Nat.lt_mul_of_div_lt (Nat.lt_succ_self _) one_pos

end Magnitude

namespace Binary64

variable {num den : Nat}

theorem nearest_cases (negative : Bool) (num den : Nat) :
    (∃ m, nearest negative num den = .finite negative m ∧ m.quanta = Grid.round num den) ∨
      nearest negative num den = .infinite negative := by
  unfold nearest Magnitude.nearest?
  split
  · rename_i m hm
    split at hm
    · exact Or.inl ⟨m, rfl, by rw [← Option.some.inj hm]⟩
    · cases hm
  · exact Or.inr rfl

/-- Rounded up to whole nanoseconds a number is not smaller, unless the largest word is given. -/
theorem round_le_ceilNanos (h : (nearest false num den).ceilNanos < Nanos.top) :
    Grid.round num den ≤ (nearest false num den).ceilNanos.toNat * Magnitude.one := by
  rcases nearest_cases false num den with ⟨m, hm, hquanta⟩ | hm
  · rw [hm, ceilNanos] at h ⊢
    rw [UInt64.lt_iff_toNat_lt, Nanos.toNat_saturate] at h
    rw [Nanos.toNat_saturate, Nat.min_eq_left (by omega), ← hquanta]
    exact m.le_ceil_mul
  · rw [hm] at h
    exact absurd h (UInt64.lt_irrefl _)

theorem ceilNanos_le {n : Nat} (h : Grid.round num den ≤ n * Magnitude.one)
    (hfits : n * Magnitude.one < Grid.bound) : (nearest false num den).ceilNanos.toNat ≤ n := by
  rw [nearest, Magnitude.nearest?_of_lt (Nat.lt_of_le_of_lt h hfits), ceilNanos,
    Nanos.toNat_saturate]
  exact Nat.le_trans (Nat.min_le_left _ _) (Magnitude.ceil_le _ h)

/-- Without its fraction a number is not larger. -/
theorem floorNanos_le_round (h : (nearest false num den).floorNanos < Nanos.top) :
    (nearest false num den).floorNanos.toNat * Magnitude.one ≤ Grid.round num den := by
  rcases nearest_cases false num den with ⟨m, hm, hquanta⟩ | hm
  · rw [hm, floorNanos, Nanos.toNat_saturate, ← hquanta]
    exact Nat.le_trans (Nat.mul_le_mul_right _ (Nat.min_le_left _ _)) m.floor_mul_le
  · rw [hm] at h
    exact absurd h (UInt64.lt_irrefl _)

/-- Only a fraction is left off, unless the largest word is given. -/
theorem round_lt_floorNanos (h : (nearest false num den).floorNanos < Nanos.top) :
    Grid.round num den < ((nearest false num den).floorNanos.toNat + 1) * Magnitude.one := by
  rcases nearest_cases false num den with ⟨m, hm, hquanta⟩ | hm
  · rw [hm, floorNanos] at h ⊢
    rw [UInt64.lt_iff_toNat_lt, Nanos.toNat_saturate] at h
    rw [Nanos.toNat_saturate, Nat.min_eq_left (by omega), ← hquanta]
    exact m.lt_floor_succ_mul
  · rw [hm] at h
    exact absurd h (UInt64.lt_irrefl _)

end Binary64

/-- At most as large, but for one part in 2^52: the error of two roundings. -/
def AlmostLe (a b : Nat) : Prop := a <<< 52 ≤ b <<< 52 + a

theorem AlmostLe.of_le {a b : Nat} (h : a ≤ b) : AlmostLe a b := by
  unfold AlmostLe
  omega

theorem shiftLeft_mul (a b k : Nat) : a <<< k * b = (a * b) <<< k := by
  rw [Nat.shiftLeft_eq, Nat.shiftLeft_eq, Nat.mul_right_comm]

theorem AlmostLe.of_mul_right {a b c : Nat} (hc : 0 < c) (h : AlmostLe (a * c) (b * c)) :
    AlmostLe a b := by
  refine Nat.le_of_mul_le_mul_right ?_ hc
  rwa [Nat.add_mul, shiftLeft_mul, shiftLeft_mul]

namespace Grid

open Magnitude (one)

theorem one_large : 1 <<< 53 ≤ one := by decide +kernel

theorem one_le_round_whole {n : Nat} (hn : 0 < n) : one ≤ round (n * one) 1 := by
  have hone : round (one * 1) 1 = one := by
    refine round_exact Nat.one_pos ?_
    have hfits := (Magnitude.fits_mul_one (n := 1) (by decide)).2
    rwa [Nat.one_mul] at hfits
  calc one = round (one * 1) 1 := hone.symm
    _ ≤ round (n * one) 1 := by
      refine round_mono Nat.one_pos ?_
      rw [Nat.mul_one]
      exact Nat.le_mul_of_pos_left _ hn

/-- The double of a whole number is near to it, also where both are multiplied. -/
theorem round_whole_near {n : Nat} (hn : 0 < n) (k : Nat) :
    (round (n * one) 1 * k) <<< 53 ≤ (n * one * k) <<< 53 + n * one * k ∧
      (n * one * k) <<< 53 ≤ (round (n * one) 1 * k) <<< 53 + n * one * k := by
  have hlarge : 1 <<< 52 ≤ n * one :=
    calc 1 <<< 52 ≤ 1 <<< 53 := by decide
      _ ≤ one := one_large
      _ ≤ n * one := Nat.le_mul_of_pos_left _ hn
  have hup := Nat.mul_le_mul_right k (round_le_add Nat.one_pos hlarge)
  have hdown := Nat.mul_le_mul_right k (le_round_add Nat.one_pos hlarge)
  simp only [Nat.mul_one, Nat.add_mul, shiftLeft_mul] at hup hdown
  exact ⟨hup, hdown⟩

end Grid

namespace Speed

variable (s : Speed) {log wall : Nanos}

theorem quanta_large : 1 <<< 52 ≤ s.magnitude.quanta := by
  have hslowest : 1 <<< 52 ≤ slowest.quanta := by decide +kernel
  exact Nat.le_trans hslowest s.slowest_le

theorem quanta_pos : 0 < s.magnitude.quanta := Nat.lt_of_lt_of_le (by decide) s.quanta_large

/-- The wall time in which a span of log time passes is a quotient that is rounded twice. -/
theorem wallSpan_eq (log : Nanos) : s.wallSpan log = (Binary64.nearest false
    (Grid.round (log.toNat * Magnitude.one) 1 * Magnitude.one) s.magnitude.quanta).ceilNanos := by
  obtain ⟨m, hm, hquanta⟩ := Binary64.ofNat_nanos log
  have hdiv : Binary64.div (.finite false m) s.value =
      Binary64.nearest false (m.quanta * Magnitude.one) s.magnitude.quanta := by
    simp only [Binary64.div, value, Nat.ne_of_gt s.quanta_pos, if_false, bne_self_eq_false]
  rw [wallSpan, hm, ← hquanta]
  exact congrArg Binary64.ceilNanos hdiv

/-- The quotient that a wait comes of is not zero, however fast log time runs: the largest speed is
below the square of the number of quanta in one. -/
theorem one_le_round_quotient (hlog : 0 < log.toNat) :
    1 ≤ Grid.round (Grid.round (log.toNat * Magnitude.one) 1 * Magnitude.one)
      s.magnitude.quanta := by
  refine Grid.one_le_round s.quanta_pos ?_
  calc s.magnitude.quanta
      ≤ Grid.bound := Nat.le_of_lt s.magnitude.fits.1
    _ ≤ Magnitude.one * Magnitude.one := by decide +kernel
    _ ≤ Grid.round (log.toNat * Magnitude.one) 1 * Magnitude.one :=
      Nat.mul_le_mul_right _ (Grid.one_le_round_whole hlog)

/-- A wait for a log time that is not reached is a nanosecond at least, at every speed. -/
theorem wallSpan_pos (hlog : 0 < log.toNat) : 0 < (s.wallSpan log).toNat := by
  have hquotient := s.one_le_round_quotient hlog
  rw [wallSpan_eq]
  rcases Binary64.nearest_cases false
    (Grid.round (log.toNat * Magnitude.one) 1 * Magnitude.one) s.magnitude.quanta with
    ⟨m, hm, hquanta⟩ | hm
  · rw [← hquanta] at hquotient
    have hceil := Nat.pos_of_mul_pos_right (Nat.lt_of_lt_of_le hquotient m.le_ceil_mul)
    rw [hm, Binary64.ceilNanos, Nanos.toNat_saturate]
    exact Nat.lt_min.mpr ⟨hceil, by decide⟩
  · rw [hm]
    decide

/-- A wait for less than 2^51 nanoseconds of log time is far from the longest one. -/
theorem wallSpan_le (hlog : log.toNat ≤ 1 <<< 51) : (s.wallSpan log).toNat ≤ 1 <<< 58 := by
  have hdouble : Grid.round (log.toNat * Magnitude.one) 1 = log.toNat * Magnitude.one := by
    have hround := Grid.round_exact Nat.one_pos
      (Magnitude.fits_mul_one (Nat.lt_of_le_of_lt hlog (by decide))).2
    rwa [Nat.mul_one] at hround
  have hslow : Magnitude.one ≤ 128 * s.magnitude.quanta :=
    calc Magnitude.one
        ≤ 128 * slowest.quanta := by decide +kernel
      _ ≤ 128 * s.magnitude.quanta := Nat.mul_le_mul_left _ s.slowest_le
  have hnum : log.toNat * Magnitude.one * Magnitude.one ≤
      1 <<< (58 + 1074) * s.magnitude.quanta :=
    calc log.toNat * Magnitude.one * Magnitude.one
        ≤ 1 <<< 51 * Magnitude.one * (128 * s.magnitude.quanta) :=
          Nat.mul_le_mul (Nat.mul_le_mul_right _ hlog) hslow
      _ = 1 <<< 51 * 128 * Magnitude.one * s.magnitude.quanta := by ring
      _ = 1 <<< (58 + 1074) * s.magnitude.quanta := by
          have hpower : 1 <<< 51 * 128 = 1 <<< 58 := by decide
          rw [hpower, Magnitude.mul_one_eq_shift, Nat.shiftLeft_add]
  have hround := Grid.round_le_one_shiftLeft s.quanta_pos hnum
  rw [Nat.shiftLeft_add, ← Magnitude.mul_one_eq_shift] at hround
  rw [wallSpan_eq, hdouble]
  exact Binary64.ceilNanos_le hround (by decide +kernel)

/-- A wait is not shorter than the quotient that it comes of, but for one rounding. -/
theorem quotient_le_wallSpan (hlog : 0 < log.toNat) (h : s.wallSpan log < Nanos.top) :
    let double := Grid.round (log.toNat * Magnitude.one) 1
    (double * Magnitude.one) <<< 53 ≤
      ((s.wallSpan log).toNat * s.magnitude.quanta * Magnitude.one) <<< 53 +
        double * Magnitude.one := by
  intro double
  have hlow : Magnitude.one ≤ double := Grid.one_le_round_whole hlog
  have hceil : Grid.round (double * Magnitude.one) s.magnitude.quanta ≤
      (s.wallSpan log).toNat * Magnitude.one := by
    rw [wallSpan_eq] at h ⊢
    exact Binary64.round_le_ceilNanos h
  generalize (s.wallSpan log).toNat = wall at hceil ⊢
  by_cases hlarge : s.magnitude.quanta <<< 52 ≤ double * Magnitude.one
  · have hquotient := Grid.le_round_add s.quanta_pos hlarge
    have hscaled := Nat.mul_le_mul_right s.magnitude.quanta hceil
    rw [Nat.mul_right_comm] at hscaled
    omega
  · -- less than a nanosecond of wall time is asked for, and a wait is one at least
    have hround := Nat.le_trans (s.one_le_round_quotient hlog) hceil
    have hwall : 0 < wall := Nat.pos_of_mul_pos_right (Nat.lt_of_lt_of_le Nat.one_pos hround)
    have hone := Nat.mul_le_mul_left (wall * s.magnitude.quanta) Grid.one_large
    have hspan := Nat.le_mul_of_pos_left s.magnitude.quanta hwall
    omega

/-- A wait is worth the log time that it was asked for, but for two roundings. -/
theorem wallSpan_worth (hlog : 0 < log.toNat) (h : s.wallSpan log < Nanos.top) :
    AlmostLe (log.toNat * Magnitude.one) ((s.wallSpan log).toNat * s.magnitude.quanta) := by
  have hdouble := (Grid.round_whole_near hlog Magnitude.one).2
  have hquotient := s.quotient_le_wallSpan hlog h
  refine AlmostLe.of_mul_right Magnitude.one_pos ?_
  unfold AlmostLe
  omega

/-- Below 2^53 the log time is a double, and only the quotient is rounded. -/
theorem wallSpan_worth_whole (hlog : 0 < log.toNat) (hlt : log.toNat < 1 <<< 53)
    (h : s.wallSpan log < Nanos.top) : (log.toNat * Magnitude.one) <<< 53 ≤
      ((s.wallSpan log).toNat * s.magnitude.quanta) <<< 53 + log.toNat * Magnitude.one := by
  have hquotient := s.quotient_le_wallSpan hlog h
  have hdouble : Grid.round (log.toNat * Magnitude.one) 1 = log.toNat * Magnitude.one := by
    have hround := Grid.round_exact Nat.one_pos (Magnitude.fits_mul_one hlt).2
    rwa [Nat.mul_one] at hround
  refine Nat.le_of_mul_le_mul_right ?_ Magnitude.one_pos
  rwa [Nat.add_mul, shiftLeft_mul, shiftLeft_mul, ← hdouble]

/-- Products of wall time and a speed are rounded in the full precision. -/
theorem product_large (hwall : 0 < wall.toNat) :
    Magnitude.one <<< 52 ≤ Grid.round (wall.toNat * Magnitude.one) 1 * s.magnitude.quanta := by
  have h := Nat.mul_le_mul (Grid.one_le_round_whole hwall) s.quanta_large
  rwa [Nat.one_shiftLeft, ← Nat.shiftLeft_eq] at h

/-- The log time of a span of wall time is at most what the span is worth, but for two roundings. -/
theorem logSpan_le (h : s.logSpan wall < Nanos.top) :
    AlmostLe ((s.logSpan wall).toNat * Magnitude.one) (wall.toNat * s.magnitude.quanta) := by
  rcases Nat.eq_zero_or_pos wall.toNat with hzero | hwall
  · have hnone : s.logSpan wall = 0 := by
      rw [UInt64.toNat.inj (hzero.trans UInt64.toNat_zero.symm), logSpan_zero]
    refine .of_le ?_
    rw [hnone, UInt64.toNat_zero, Nat.zero_mul]
    exact Nat.zero_le _
  · have hdouble := (Grid.round_whole_near hwall s.magnitude.quanta).1
    have hproduct := Grid.round_le_add Magnitude.one_pos (s.product_large hwall)
    have hfloor := h
    rw [logSpan_eq] at hfloor
    have hfloor := Nat.mul_le_mul_right Magnitude.one (Binary64.floorNanos_le_round hfloor)
    rw [← logSpan_eq] at hfloor
    refine AlmostLe.of_mul_right Magnitude.one_pos ?_
    rw [Nat.mul_right_comm _ s.magnitude.quanta]
    unfold AlmostLe
    omega

/-- It is what the span is worth, but for two roundings and a fraction of a nanosecond. -/
theorem lt_logSpan (hwall : 0 < wall.toNat) (h : s.logSpan wall < Nanos.top) :
    (wall.toNat * s.magnitude.quanta) <<< 52 <
      (((s.logSpan wall).toNat + 1) * Magnitude.one) <<< 52 + wall.toNat * s.magnitude.quanta := by
  have hdouble := (Grid.round_whole_near hwall s.magnitude.quanta).2
  have hproduct := Grid.le_round_add Magnitude.one_pos (s.product_large hwall)
  have hfloor := h
  rw [logSpan_eq] at hfloor
  have hfloor := Nat.mul_lt_mul_of_pos_right (Binary64.round_lt_floorNanos hfloor) Magnitude.one_pos
  rw [← logSpan_eq] at hfloor
  refine Nat.lt_of_mul_lt_mul_right (a := Magnitude.one) ?_
  rw [Nat.add_mul, shiftLeft_mul, shiftLeft_mul]
  rw [Nat.mul_right_comm _ Magnitude.one s.magnitude.quanta] at hdouble
  omega

end Speed

end Replay
