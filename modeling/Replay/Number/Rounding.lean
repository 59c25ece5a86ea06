/-!
Rounding a quotient of whole numbers to the nearest whole number, a half to the even one, and
rounding it to the 53 significant bits of a double.

Main statement: `Grid.fits_round`, what `Grid.round` gives lies on the grid of the doubles.
-/

namespace Replay

/-- `num / den` to the nearest whole number; a tie goes to the even neighbour. -/
def roundHalfEven (num den : Nat) : Nat :=
  let q := num / den
  let twice := 2 * (num % den)
  if twice < den then q
  else if den < twice then q + 1
  else q + q % 2

theorem le_roundHalfEven (num den : Nat) : num / den ≤ roundHalfEven num den := by
  unfold roundHalfEven
  dsimp only
  split
  · exact Nat.le_refl _
  · split <;> omega

theorem roundHalfEven_le (num den : Nat) : roundHalfEven num den ≤ num / den + 1 := by
  unfold roundHalfEven
  dsimp only
  split
  · omega
  · split <;> omega

namespace Grid

/-- The distance between neighbours on the grid at height `u`: the lowest of 53 significant bits. -/
def spacing (u : Nat) : Nat := 1 <<< (u.log2 - 52)

/-- The bound of the grid; in quanta of 2^-1074 it is 2^1024. -/
@[irreducible] def bound : Nat := 1 <<< 2098

/-- The magnitudes of finite doubles, counted in quanta of 2^-1074. -/
def Fits (u : Nat) : Prop := u < bound ∧ spacing u ∣ u

theorem bound_pos : 0 < bound := by decide +kernel

theorem fits_zero : Fits 0 := ⟨bound_pos, Nat.dvd_zero _⟩

instance (u : Nat) : Decidable (Fits u) := inferInstanceAs (Decidable (_ ∧ _))

/-- The point of the grid nearest to `num / den`, without regard to the bound. -/
def round (num den : Nat) : Nat :=
  let s := spacing (num / den)
  roundHalfEven num (den * s) * s

theorem spacing_pos (u : Nat) : 0 < spacing u := by
  rw [spacing, Nat.one_shiftLeft]
  exact Nat.two_pow_pos _

/-- A number of at most 53 bits, shifted up, lies on the grid. -/
theorem spacing_dvd_shift {r k : Nat} (h : r < 1 <<< 53) : spacing (r <<< k) ∣ r <<< k := by
  rw [Nat.one_shiftLeft] at h
  rw [spacing, Nat.one_shiftLeft, Nat.shiftLeft_eq]
  rcases Nat.eq_zero_or_pos r with rfl | hr
  · simp
  · refine Nat.dvd_trans ?_ (Nat.dvd_mul_left _ _)
    apply Nat.pow_dvd_pow
    have hpos : r * 2 ^ k ≠ 0 := Nat.ne_of_gt (Nat.mul_pos hr (Nat.two_pow_pos k))
    have hlt : r * 2 ^ k < 2 ^ (53 + k) := by
      rw [Nat.pow_add]
      exact Nat.mul_lt_mul_of_pos_right h (Nat.two_pow_pos k)
    have := (Nat.log2_lt hpos).mpr hlt
    omega

theorem div_spacing_lt (q : Nat) : q / spacing q < 1 <<< 53 := by
  rw [Nat.div_lt_iff_lt_mul (spacing_pos q), spacing, Nat.one_shiftLeft, Nat.one_shiftLeft,
    ← Nat.pow_add]
  refine Nat.lt_of_lt_of_le (Nat.lt_log2_self (n := q)) ?_
  apply Nat.pow_le_pow_right (by decide)
  omega

theorem spacing_dvd_round (num den : Nat) : spacing (round num den) ∣ round num den := by
  unfold round
  dsimp only
  have hq := div_spacing_lt (num / den)
  rw [Nat.div_div_eq_div_mul] at hq
  have hle := roundHalfEven_le num (den * spacing (num / den))
  generalize roundHalfEven num (den * spacing (num / den)) = r at hle
  obtain ⟨k, hk⟩ : ∃ k, spacing (num / den) = 1 <<< k := ⟨_, rfl⟩
  rw [hk] at hq hle ⊢
  have hr : r * (1 <<< k) = r <<< k := by rw [Nat.one_shiftLeft, Nat.shiftLeft_eq]
  rw [hr]
  rcases Nat.lt_or_ge r (1 <<< 53) with h | h
  · exact spacing_dvd_shift h
  · have : r = 1 <<< 53 := by omega
    rw [this, ← Nat.shiftLeft_add]
    exact spacing_dvd_shift (by decide)

theorem fits_round {num den : Nat} (h : round num den < bound) : Fits (round num den) :=
  ⟨h, spacing_dvd_round num den⟩

end Grid

end Replay
