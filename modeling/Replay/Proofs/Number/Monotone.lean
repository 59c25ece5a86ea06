import Replay.Proofs.Number.Exact

/-!
Rounding keeps order: a larger quotient is never rounded to a smaller number, nor does it have fewer
whole nanoseconds, also where one of the two is too large to be finite. So more wall time never gives
less log time, and none gives none.
-/

namespace Replay

theorem roundHalfEven_mono (den : Nat) {a b : Nat} (h : a ≤ b) :
    roundHalfEven a den ≤ roundHalfEven b den := by
  have hq : a / den ≤ b / den := Nat.div_le_div_right h
  rcases Nat.lt_or_eq_of_le hq with hlt | heq
  · have := roundHalfEven_le a den
    have := le_roundHalfEven b den
    omega
  · -- of equal whole parts the larger rest is rounded up if the smaller one is
    have hrest : a % den ≤ b % den := by
      have ha := Nat.div_add_mod a den
      have hb := Nat.div_add_mod b den
      rw [heq] at ha
      omega
    unfold roundHalfEven
    simp only [heq]
    repeat' split
    all_goals omega

namespace Grid

/-- A point of the grid at the height of a quotient is not passed by rounding it. -/
theorem le_round_of_dvd {v num den : Nat} (hd : 0 < den) (hv : spacing (num / den) ∣ v)
    (h : v * den ≤ num) : v ≤ round num den :=
  calc v = roundHalfEven (v * den) (den * spacing (num / den)) * spacing (num / den) :=
        (roundHalfEven_of_dvd (spacing_pos _) hd hv).symm
    _ ≤ round num den := Nat.mul_le_mul_right _ (roundHalfEven_mono _ h)

theorem round_le_of_dvd {v num den : Nat} (hd : 0 < den) (hv : spacing (num / den) ∣ v)
    (h : num ≤ v * den) : round num den ≤ v :=
  calc round num den
      ≤ roundHalfEven (v * den) (den * spacing (num / den)) * spacing (num / den) :=
        Nat.mul_le_mul_right _ (roundHalfEven_mono _ h)
    _ = v := roundHalfEven_of_dvd (spacing_pos _) hd hv

theorem spacing_dvd_one_shiftLeft {u k : Nat} (h : u.log2 ≤ k) : spacing u ∣ 1 <<< k := by
  rw [spacing, Nat.one_shiftLeft, Nat.one_shiftLeft]
  exact Nat.pow_dvd_pow 2 (Nat.le_trans (Nat.sub_le _ _) h)

theorem log2_mono {a b : Nat} (h : a ≤ b) : a.log2 ≤ b.log2 := by
  by_cases ha : a = 0
  · simp [ha]
  · have hb : b ≠ 0 := by omega
    exact (Nat.le_log2 hb).mpr (Nat.le_trans (Nat.log2_self_le ha) h)

theorem round_mono {a b den : Nat} (hd : 0 < den) (h : a ≤ b) : round a den ≤ round b den := by
  by_cases hsame : spacing (a / den) = spacing (b / den)
  · unfold round
    simp only [hsame]
    exact Nat.mul_le_mul_right _ (roundHalfEven_mono _ h)
  · -- at different heights the lowest number of the upper one lies between
    have hq : a / den ≤ b / den := Nat.div_le_div_right h
    have hlog : (a / den).log2 < (b / den).log2 := by
      refine Nat.lt_of_not_le fun hle => hsame ?_
      rw [spacing, spacing, Nat.le_antisymm (log2_mono hq) hle]
    have hb : b / den ≠ 0 := by
      intro hz
      simp [hz] at hlog
    have hbelow : a / den < 1 <<< (b / den).log2 := by
      rw [Nat.one_shiftLeft]
      exact Nat.lt_of_lt_of_le Nat.lt_log2_self (Nat.pow_le_pow_right (by decide) hlog)
    have habove : 1 <<< (b / den).log2 ≤ b / den := by
      rw [Nat.one_shiftLeft]
      exact Nat.log2_self_le hb
    calc round a den
        ≤ 1 <<< (b / den).log2 := by
          refine round_le_of_dvd hd (spacing_dvd_one_shiftLeft (Nat.le_of_lt hlog)) ?_
          exact Nat.le_of_lt ((Nat.div_lt_iff_lt_mul hd).mp hbelow)
      _ ≤ round b den := by
          refine le_round_of_dvd hd (spacing_dvd_one_shiftLeft (Nat.le_refl _)) ?_
          exact (Nat.le_div_iff_mul_le hd).mp habove

/-- What is not above a point of the grid does not leave the grid when it is rounded. -/
theorem round_lt_bound {n u : Nat} (hu : Fits u) (h : n ≤ u) : round n 1 < bound := by
  refine Nat.lt_of_le_of_lt (round_mono Nat.one_pos h) (Nat.lt_of_le_of_lt ?_ hu.1)
  refine round_le_of_dvd Nat.one_pos ?_ (Nat.le_of_eq (Nat.mul_one u).symm)
  rw [Nat.div_one]
  exact hu.2

end Grid

/-- The number of all words is a double. -/
theorem Magnitude.fits_size : Grid.Fits (UInt64.size * Magnitude.one) := by decide +kernel

theorem Magnitude.nearest?_of_lt {num den : Nat} (h : Grid.round num den < Grid.bound) :
    nearest? num den = some ⟨Grid.round num den, Grid.fits_round h⟩ := dif_pos h

theorem Magnitude.floor_mono {a b : Magnitude} (h : a ≤ b) : a.floor ≤ b.floor :=
  Nat.div_le_div_right h

theorem Nanos.saturate_mono {a b : Nat} (h : a ≤ b) : Nanos.saturate a ≤ Nanos.saturate b := by
  rw [UInt64.le_iff_toNat_le, Nanos.toNat_saturate, Nanos.toNat_saturate]
  omega

theorem Nanos.le_top (a : Nanos) : a ≤ Nanos.top := by
  have hs : UInt64.size = Nanos.top.toNat + 1 := rfl
  rw [UInt64.le_iff_toNat_le]
  have := a.toNat_lt_size
  omega

namespace Binary64

/-- The larger of two quotients has no fewer whole nanoseconds, be it finite or not. -/
theorem floorNanos_nearest_mono {a b den : Nat} (hd : 0 < den) (h : a ≤ b) :
    (nearest false a den).floorNanos ≤ (nearest false b den).floorNanos := by
  have hround := Grid.round_mono hd h
  unfold nearest Magnitude.nearest?
  by_cases hb : Grid.round b den < Grid.bound
  · have ha : Grid.round a den < Grid.bound := Nat.lt_of_le_of_lt hround hb
    rw [dif_pos ha, dif_pos hb]
    exact Nanos.saturate_mono (Magnitude.floor_mono hround)
  · rw [dif_neg hb]
    exact Nanos.le_top _

/-- Every word is finite as a double. -/
theorem ofNat_nanos (n : Nanos) :
    ∃ m, ofNat n.toNat = .finite false m ∧ m.quanta = Grid.round (n.toNat * Magnitude.one) 1 := by
  have hround : Grid.round (n.toNat * Magnitude.one) 1 < Grid.bound :=
    Grid.round_lt_bound Magnitude.fits_size (Nat.mul_le_mul_right _ (Nat.le_of_lt n.toNat_lt_size))
  refine ⟨⟨Grid.round (n.toNat * Magnitude.one) 1, Grid.fits_round hround⟩, ?_, rfl⟩
  rw [ofNat, nearest, Magnitude.nearest?_of_lt hround]

end Binary64

namespace Speed

/-- The log time that passes in a span of wall time is a product that is rounded twice. -/
theorem logSpan_eq (s : Speed) (wall : Nanos) :
    s.logSpan wall = (Binary64.nearest false
      (Grid.round (wall.toNat * Magnitude.one) 1 * s.magnitude.quanta) Magnitude.one).floorNanos := by
  obtain ⟨m, hm, hquanta⟩ := Binary64.ofNat_nanos wall
  rw [logSpan, hm, ← hquanta]
  rfl

theorem logSpan_mono (s : Speed) {a b : Nanos} (h : a ≤ b) : s.logSpan a ≤ s.logSpan b := by
  rw [logSpan_eq, logSpan_eq]
  refine Binary64.floorNanos_nearest_mono Magnitude.one_pos (Nat.mul_le_mul_right _ ?_)
  refine Grid.round_mono Nat.one_pos (Nat.mul_le_mul_right _ ?_)
  exact UInt64.le_iff_toNat_le.mp h

@[simp] theorem logSpan_zero (s : Speed) : s.logSpan 0 = 0 := by
  have hzero : ∀ den, Grid.round 0 den = 0 := by
    intro den
    simp [Grid.round, roundHalfEven]
  have hpos : 0 < Grid.bound := Grid.bound_pos
  rw [logSpan_eq]
  simp only [UInt64.toNat_zero, Nat.zero_mul, hzero, Binary64.nearest, Magnitude.nearest?, hpos,
    dif_pos, Binary64.floorNanos, Magnitude.floor, Nat.zero_div]
  rfl

end Speed

end Replay
