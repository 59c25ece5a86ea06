import Mathlib.Tactic.Ring
import Replay.Proofs.Number.Monotone
import Replay.Number.Decimal

/-!
The shortest decimal of a double rounds to the double: what is found on a grid of powers of ten lies
where numbers are rounded to it (`rounded_of_inside`), and seventeen digits always suffice
(`onGrid?_ne_none`).
-/

namespace Replay

/-- What is within half a step of a number is rounded to it, at half a step if it is even. -/
theorem roundHalfEven_eq_of_near {num den q : Nat} (hd : 0 < den)
    (hlow : 2 * (q * den) ≤ 2 * num + den) (hhigh : 2 * num ≤ 2 * (q * den) + den)
    (heven : 2 * (q * den) = 2 * num + den ∨ 2 * num = 2 * (q * den) + den → q % 2 = 0) :
    roundHalfEven num den = q := by
  have hsplit := Nat.div_add_mod num den
  rcases Nat.lt_or_ge num (q * den) with hbelow | habove
  · obtain ⟨p, rfl⟩ : ∃ p, q = p + 1 := by
      refine Nat.exists_eq_succ_of_ne_zero ?_
      rintro rfl
      omega
    rw [Nat.succ_mul p den] at hlow hhigh heven hbelow
    have hp : num / den = p := by
      refine Nat.div_eq_of_lt_le (by omega) ?_
      rw [Nat.succ_mul]
      exact hbelow
    rw [hp, Nat.mul_comm] at hsplit
    unfold roundHalfEven
    simp only [hp]
    rw [if_neg (by omega)]
    split
    · rfl
    · have := heven (by omega)
      omega
  · have hq : num / den = q := by
      refine Nat.div_eq_of_lt_le habove ?_
      rw [Nat.succ_mul]
      omega
    rw [hq, Nat.mul_comm] at hsplit
    unfold roundHalfEven
    simp only [hq]
    split
    · rfl
    · rw [if_neg (by omega), heven (by omega), Nat.add_zero]

theorem roundHalfEven_mul_right (num den : Nat) {c : Nat} (hc : 0 < c) :
    roundHalfEven (num * c) (den * c) = roundHalfEven num den := by
  have hrest : 2 * (num % den * c) = 2 * (num % den) * c := (Nat.mul_assoc _ _ _).symm
  unfold roundHalfEven
  simp only [Nat.mul_div_mul_right _ _ hc, Nat.mul_mod_mul_right, hrest, Nat.mul_lt_mul_right hc]

namespace Grid

theorem round_mul_right (num den : Nat) {c : Nat} (hc : 0 < c) :
    round (num * c) (den * c) = round num den := by
  simp only [round, Nat.mul_div_mul_right _ _ hc, Nat.mul_right_comm den c]
  rw [roundHalfEven_mul_right _ _ hc]

/-- Quotients of the same value are rounded alike. -/
theorem round_eq_of_cross {a b c d : Nat} (hb : 0 < b) (hd : 0 < d) (h : a * d = c * b) :
    round a b = round c d := by
  rw [← round_mul_right a b hd, h, Nat.mul_comm b d, round_mul_right c d hb]

variable {u num den : Nat}

theorem add_le_of_dvd {s a b : Nat} (ha : s ∣ a) (hb : s ∣ b) (h : a < b) : a + s ≤ b := by
  have hle := Nat.le_of_dvd (Nat.sub_pos_of_lt h) (Nat.dvd_sub hb ha)
  omega

/-- What is within half a spacing of a point of the grid is rounded to it. -/
theorem round_eq_of_near {t : Nat} (hd : 0 < den) (ht : spacing (num / den) = t) (hu : t ∣ u)
    (hlow : 2 * (u * den) ≤ 2 * num + den * t) (hhigh : 2 * num ≤ 2 * (u * den) + den * t)
    (heven : 2 * (u * den) = 2 * num + den * t ∨ 2 * num = 2 * (u * den) + den * t →
      u / t % 2 = 0) : round num den = u := by
  have hpos : 0 < t := ht ▸ spacing_pos _
  obtain ⟨q, rfl⟩ := hu
  have hproduct : t * q * den = q * (den * t) := by ring
  rw [hproduct] at hlow hhigh heven
  rw [Nat.mul_div_cancel_left q hpos] at heven
  simp only [round, ht]
  rw [roundHalfEven_eq_of_near (Nat.mul_pos hd hpos) hlow hhigh heven, Nat.mul_comm]

theorem log2_eq {l n : Nat} (hlow : 2 ^ l ≤ n) (hhigh : n < 2 ^ (l + 1)) : n.log2 = l :=
  (Nat.log2_eq_iff (Nat.ne_of_gt (Nat.lt_of_lt_of_le (Nat.two_pow_pos l) hlow))).mpr ⟨hlow, hhigh⟩

theorem log2_div_eq {l : Nat} (hd : 0 < den) (hlow : 2 ^ l * den ≤ num)
    (hhigh : num < 2 ^ (l + 1) * den) : (num / den).log2 = l :=
  log2_eq ((Nat.le_div_iff_mul_le hd).mpr hlow) ((Nat.div_lt_iff_lt_mul hd).mpr hhigh)

/-- Above a point of the grid the spacing is that of the point up to its upper neighbour. -/
theorem spacing_above (hu : 0 < u) (hd : 0 < den) (hdvd : spacing u ∣ u) (hlow : u * den ≤ num)
    (hhigh : num < (u + spacing u) * den) : spacing (num / den) = spacing u := by
  have htop : u + spacing u ≤ 2 ^ (u.log2 + 1) := by
    refine add_le_of_dvd hdvd ?_ Nat.lt_log2_self
    rw [spacing, Nat.one_shiftLeft]
    exact Nat.pow_dvd_pow 2 (by omega)
  have hlog : (num / den).log2 = u.log2 := by
    refine log2_div_eq hd (Nat.le_trans ?_ hlow) (Nat.lt_of_lt_of_le hhigh ?_)
    · exact Nat.mul_le_mul_right _ (Nat.log2_self_le (Nat.ne_of_gt hu))
    · exact Nat.mul_le_mul_right _ htop
  rw [spacing, spacing, hlog]

/-- Below a point of the grid that is no power of two the spacing is that of the point down to half
of it. -/
theorem spacing_below (hu : 0 < u) (hd : 0 < den) (hdvd : spacing u ∣ u)
    (hpower : spacing u = 1 ∨ u ≠ 2 ^ u.log2) (hlow : 2 * (u * den) ≤ 2 * num + den * spacing u)
    (hhigh : num < u * den) : spacing (num / den) = spacing u := by
  rcases hpower with hone | hpower
  · have hlog : (num / den).log2 ≤ u.log2 :=
      log2_mono (Nat.le_of_lt ((Nat.div_lt_iff_lt_mul hd).mpr hhigh))
    have hdvd : spacing (num / den) ∣ spacing u := by
      rw [spacing, spacing, Nat.one_shiftLeft, Nat.one_shiftLeft]
      exact Nat.pow_dvd_pow 2 (Nat.sub_le_sub_right hlog 52)
    rw [hone] at hdvd ⊢
    exact Nat.dvd_one.mp hdvd
  · have hbottom : 2 ^ u.log2 + spacing u ≤ u := by
      have hle := Nat.log2_self_le (Nat.ne_of_gt hu)
      refine add_le_of_dvd ?_ hdvd (by omega)
      rw [spacing, Nat.one_shiftLeft]
      exact Nat.pow_dvd_pow 2 (Nat.sub_le _ _)
    have hlog : (num / den).log2 = u.log2 := by
      refine log2_div_eq hd ?_ (Nat.lt_of_lt_of_le hhigh ?_)
      · have hproduct := Nat.mul_le_mul_right den hbottom
        rw [Nat.add_mul, Nat.mul_comm (spacing u)] at hproduct
        omega
      · exact Nat.mul_le_mul_right _ (Nat.le_of_lt Nat.lt_log2_self)
    rw [spacing, spacing, hlog]

theorem lt_log2_of_spacing (hwide : 1 < spacing u) : 52 < u.log2 := by
  rw [spacing, Nat.one_shiftLeft] at hwide
  exact Nat.lt_of_sub_pos (Nat.pos_of_ne_zero fun h => by simp [h] at hwide)

theorem lt_spacing_mul (u : Nat) : u < spacing u * 2 ^ 53 := by
  have hlt := (Nat.div_lt_iff_lt_mul (spacing_pos u)).mp (div_spacing_lt u)
  rwa [Nat.one_shiftLeft, Nat.mul_comm] at hlt

theorem spacing_mul_of_power (hwide : 1 < spacing u) (hpower : u = 2 ^ u.log2) :
    spacing u * 2 ^ 52 = u := by
  have hlarge := lt_log2_of_spacing hwide
  rw [spacing, Nat.one_shiftLeft, ← Nat.pow_add, Nat.sub_add_cancel (Nat.le_of_lt hlarge)]
  exact hpower.symm

/-- Below a power of two the spacing is half as wide. -/
theorem spacing_below_power (hd : 0 < den) (hwide : 1 < spacing u) (hpower : u = 2 ^ u.log2)
    (hlow : 4 * (u * den) ≤ 4 * num + den * spacing u) (hhigh : num < u * den) :
    2 * spacing (num / den) = spacing u := by
  have hlarge := lt_log2_of_spacing hwide
  obtain ⟨l, hl⟩ : ∃ l, u.log2 = l + 1 := ⟨u.log2 - 1, by omega⟩
  have hspacing : spacing u ≤ u := by
    have := spacing_mul_of_power hwide hpower
    omega
  have hlog : (num / den).log2 = l := by
    rw [hl, Nat.pow_succ] at hpower
    refine log2_div_eq hd ?_ ?_
    · have hproduct := Nat.mul_le_mul_left den hspacing
      rw [Nat.mul_comm den u] at hproduct
      rw [hpower, Nat.mul_right_comm] at hlow hproduct
      omega
    · rw [Nat.pow_succ, ← hpower]
      exact hhigh
  have hexponent : u.log2 - 52 = l - 52 + 1 := by omega
  rw [spacing, spacing, hlog, hexponent, Nat.one_shiftLeft, Nat.one_shiftLeft, Nat.pow_succ,
    Nat.mul_comm]

/-- A quotient is rounded to a point of the grid if it is within half a spacing above it, or within
half a spacing below it, where below a power of two the spacing is half as wide; on these ends the
point is an even number of spacings. -/
theorem round_eq_of_neighbourhood (hu : 0 < u) (hd : 0 < den) (hdvd : spacing u ∣ u)
    (hhigh : 2 * num ≤ 2 * (u * den) + den * spacing u)
    (hlow : if 1 < spacing u ∧ u = 2 ^ u.log2 then 4 * (u * den) ≤ 4 * num + den * spacing u
      else 2 * (u * den) ≤ 2 * num + den * spacing u)
    (heven : 2 * num = 2 * (u * den) + den * spacing u ∨
      2 * (u * den) = 2 * num + den * spacing u → u / spacing u % 2 = 0) :
    round num den = u := by
  have hpos := Nat.mul_pos hd (spacing_pos u)
  rcases Nat.lt_or_ge num (u * den) with hbelow | habove
  · split at hlow
    · rename_i hpower
      have hhalf := spacing_below_power hd hpower.1 hpower.2 hlow hbelow
      have ht := spacing_pos (num / den)
      generalize hspacing : spacing (num / den) = t at hhalf ht
      rw [← hhalf, Nat.mul_left_comm den 2 t] at hlow
      -- in halves of the spacing a multiple of it is even
      obtain ⟨q, hq⟩ := hhalf ▸ hdvd
      have hquotient : u / t = 2 * q := by
        rw [hq, Nat.mul_comm 2 t, Nat.mul_assoc, Nat.mul_div_cancel_left _ ht]
      refine round_eq_of_near hd hspacing ⟨2 * q, ?_⟩ (by omega) (by omega) fun _ => ?_
      · rw [hq, Nat.mul_comm 2 t, Nat.mul_assoc]
      · rw [hquotient, Nat.mul_mod_right]
    · rename_i hpower
      have hpower : spacing u = 1 ∨ u ≠ 2 ^ u.log2 := by
        have := spacing_pos u
        omega
      have hspacing := spacing_below hu hd hdvd hpower hlow hbelow
      exact round_eq_of_near hd hspacing hdvd hlow hhigh fun h => heven h.symm
  · have hspacing : spacing (num / den) = spacing u := by
      refine spacing_above hu hd hdvd habove ?_
      rw [Nat.add_mul, Nat.mul_comm (spacing u)]
      omega
    exact round_eq_of_near hd hspacing hdvd (by omega) hhigh fun h => heven h.symm

end Grid

namespace Decimal

/-- A decimal in quanta is a quotient of whole numbers. -/
def numerator (d : Decimal) : Nat := d.digits * 10 ^ d.exponent.toNat * Magnitude.one

def denominator (d : Decimal) : Nat := 10 ^ (-d.exponent).toNat

theorem denominator_pos (d : Decimal) : 0 < d.denominator := Nat.pow_pos (by decide)

/-- The number of quanta that a decimal is rounded to. -/
def rounded (d : Decimal) : Nat := Grid.round d.numerator d.denominator

/-- The decimal lies where numbers are rounded to `u` quanta. -/
def Inside (u : Nat) (d : Decimal) : Prop :=
  let (low, high, closed) := neighbourhood u
  low * d.denominator ≤ 4 * d.numerator ∧ 4 * d.numerator ≤ high * d.denominator ∧
    (closed = false →
      low * d.denominator ≠ 4 * d.numerator ∧ 4 * d.numerator ≠ high * d.denominator)

theorem between_iff (closed : Bool) (low x high : Nat) :
    (if closed then decide (low ≤ x) && decide (x ≤ high)
      else decide (low < x) && decide (x < high)) = true ↔
      low ≤ x ∧ x ≤ high ∧ (closed = false → low ≠ x ∧ x ≠ high) := by
  cases closed with
  | true => simp
  | false =>
    simp only [Bool.false_eq_true, if_false, Bool.and_eq_true, decide_eq_true_eq, forall_const]
    omega

/-- What is found on a grid of powers of ten lies inside. -/
theorem inside_of_onGrid? {u n : Nat} {k : Int} (h : onGrid? u k = some n) : Inside u ⟨n, k⟩ := by
  unfold onGrid? at h
  simp only [Nat.pow_eq] at h
  split at h
  · cases h
  · rename_i hn _
    injection h with h
    exact h ▸ (between_iff _ _ _ _).mp hn
  · rename_i hn
    injection h with h
    exact h ▸ (between_iff _ _ _ _).mp hn
  · rename_i hn hsucc
    have hn := (between_iff _ _ _ _).mp hn
    have hsucc := (between_iff _ _ _ _).mp hsucc
    split at h
    · injection h with h
      exact h ▸ hn
    split at h
    · injection h with h
      exact h ▸ hsucc
    · injection h with h
      rcases Nat.mod_two_eq_zero_or_one (u * 10 ^ (-k).toNat /
        (10 ^ k.toNat * Magnitude.one)) with heven | hodd
      · rw [heven, Nat.add_zero] at h
        exact h ▸ hn
      · rw [hodd] at h
        exact h ▸ hsucc

theorem high_mul (u s den : Nat) : (4 * u + 2 * s) * den = 4 * (u * den) + 2 * (den * s) := by
  ring

theorem low_mul (u below den : Nat) : (4 * u - below) * den = 4 * (u * den) - den * below := by
  rw [Nat.sub_mul, Nat.mul_assoc, Nat.mul_comm below]

theorem rounded_of_inside {u : Nat} {d : Decimal} (hu : 0 < u) (hdvd : Grid.spacing u ∣ u)
    (h : Inside u d) : d.rounded = u := by
  simp only [Inside, neighbourhood, Nat.one_shiftLeft, decide_eq_false_iff_not] at h
  obtain ⟨hlow, hhigh, hopen⟩ := h
  rw [high_mul] at hhigh hopen
  rw [low_mul] at hlow hopen
  have hdouble : d.denominator * (2 * Grid.spacing u) = 2 * (d.denominator * Grid.spacing u) :=
    Nat.mul_left_comm _ _ _
  refine Grid.round_eq_of_neighbourhood hu d.denominator_pos hdvd (by omega) ?_ ?_
  · split
    · rename_i hpower
      rw [if_pos hpower] at hlow
      omega
    · rename_i hpower
      rw [if_neg hpower] at hlow
      omega
  · intro hend
    by_cases heven : u / Grid.spacing u % 2 = 0
    · exact heven
    · obtain ⟨hlow', hhigh'⟩ := hopen heven
      have hpos := Nat.mul_pos d.denominator_pos (Grid.spacing_pos u)
      split at hlow'
      · rename_i hpower
        rw [if_pos hpower] at hlow
        omega
      · omega

/-- Powers of ten on both sides of a quotient, moved from the digits to the exponent. -/
theorem pow_shift (k : Int) (j : Nat) :
    10 ^ j * 10 ^ k.toNat * 10 ^ (-(k + j)).toNat = 10 ^ (k + j).toNat * 10 ^ (-k).toNat := by
  have hexponents : j + k.toNat + (-(k + j)).toNat = (k + j).toNat + (-k).toNat := by omega
  rw [← Nat.pow_add, ← Nat.pow_add, ← Nat.pow_add, hexponents]

/-- Zeros at the end of the digits can be moved to the exponent. -/
theorem rounded_shift (n : Nat) (k : Int) (j : Nat) :
    rounded ⟨n * 10 ^ j, k⟩ = rounded ⟨n, k + j⟩ := by
  refine Grid.round_eq_of_cross (denominator_pos _) (denominator_pos _) ?_
  calc n * 10 ^ j * 10 ^ k.toNat * Magnitude.one * 10 ^ (-(k + j)).toNat
      = n * (10 ^ j * 10 ^ k.toNat * 10 ^ (-(k + j)).toNat) * Magnitude.one := by ring
    _ = n * (10 ^ (k + j).toNat * 10 ^ (-k).toNat) * Magnitude.one := by rw [pow_shift]
    _ = n * 10 ^ (k + j).toNat * Magnitude.one * 10 ^ (-k).toNat := by ring

theorem rounded_trim (d : Decimal) : (trim d).rounded = d.rounded := by
  have hgo : ∀ fuel d, (trim.go fuel d).rounded = d.rounded := by
    intro fuel
    induction fuel with
    | zero => intro d; rfl
    | succ fuel ih =>
      intro d
      rw [trim.go]
      split
      · rename_i hzero
        have hshift := rounded_shift (d.digits / 10) d.exponent 1
        rw [Nat.pow_one, Nat.div_mul_cancel (Nat.dvd_of_mod_eq_zero hzero)] at hshift
        rw [ih]
        exact hshift.symm
      · rfl
  exact hgo _ d

theorem decimalLength_pos (n : Nat) : 0 < decimalLength n := by
  rw [decimalLength]
  split
  · exact Nat.one_pos
  · exact Nat.succ_pos _

theorem lt_pow_decimalLength (n : Nat) : n < 10 ^ decimalLength n := by
  induction n using Nat.strongRecOn with
  | ind n ih =>
    rw [decimalLength]
    split
    · assumption
    · have := ih (n / 10) (by omega)
      rw [Nat.pow_succ]
      omega

theorem pow_decimalLength_le {n : Nat} (hn : 0 < n) : 10 ^ (decimalLength n - 1) ≤ n := by
  induction n using Nat.strongRecOn with
  | ind n ih =>
    rw [decimalLength]
    split
    · exact hn
    · have hle := ih (n / 10) (by omega) (by omega)
      obtain ⟨l, hl⟩ := Nat.exists_eq_succ_of_ne_zero (Nat.ne_of_gt (decimalLength_pos (n / 10)))
      rw [hl, Nat.succ_sub_one] at hle
      rw [hl, Nat.add_sub_cancel, Nat.pow_succ]
      omega

/-- The power of ten of the first digit is not above the quotient. -/
theorem pow_leading_le {num den : Nat} (hnum : 0 < num) (hden : 0 < den) :
    10 ^ (leading num den).toNat * den ≤ num * 10 ^ (-leading num den).toNat := by
  unfold leading
  split
  · rename_i hle
    have hq : 0 < num / den := Nat.div_pos hle hden
    have hlow := (Nat.le_div_iff_mul_le hden).mp (pow_decimalLength_le hq)
    have hpos := decimalLength_pos (num / den)
    generalize decimalLength (num / den) = l at hlow hpos
    have hlength : ((l : Int) - 1).toNat = l - 1 := by omega
    have hnone : (-((l : Int) - 1)).toNat = 0 := by omega
    rw [hlength, hnone, Nat.pow_zero, Nat.mul_one]
    exact hlow
  · have hlt := (Nat.div_lt_iff_lt_mul hnum).mp (lt_pow_decimalLength ((den - 1) / num))
    have hnone : (-(decimalLength ((den - 1) / num) : Int)).toNat = 0 := by omega
    rw [hnone, Int.neg_neg, Int.toNat_natCast, Nat.pow_zero, Nat.one_mul, Nat.mul_comm]
    omega

/-- A grid without a point inside is as wide as the whole neighbourhood. -/
theorem wide_of_onGrid?_eq_none {u : Nat} {k : Int} (hu : 0 < u) (hdvd : Grid.spacing u ∣ u)
    (h : onGrid? u k = none) :
    2 * (10 ^ (-k).toNat * Grid.spacing u) +
      10 ^ (-k).toNat * (if 1 < Grid.spacing u ∧ u = 2 ^ u.log2 then Grid.spacing u
        else 2 * Grid.spacing u) ≤ 4 * (10 ^ k.toNat * Magnitude.one) := by
  have hup : 0 < 10 ^ k.toNat * Magnitude.one :=
    Nat.mul_pos (Nat.pow_pos (by decide)) Magnitude.one_pos
  have hdown : 0 < 10 ^ (-k).toNat := Nat.pow_pos (by decide)
  have hspacing : 0 < 10 ^ (-k).toNat * Grid.spacing u := Nat.mul_pos hdown (Grid.spacing_pos u)
  have hbelow : 0 < 10 ^ (-k).toNat * (if 1 < Grid.spacing u ∧ u = 2 ^ u.log2 then
      Grid.spacing u else 2 * Grid.spacing u) ∧
      10 ^ (-k).toNat * (if 1 < Grid.spacing u ∧ u = 2 ^ u.log2 then Grid.spacing u
        else 2 * Grid.spacing u) ≤ 4 * (u * 10 ^ (-k).toNat) := by
    have hle := Nat.mul_le_mul_left (10 ^ (-k).toNat) (Nat.le_of_dvd hu hdvd)
    rw [Nat.mul_comm u]
    split
    · omega
    · rw [Nat.mul_left_comm]
      omega
  unfold onGrid? at h
  simp only [Nat.pow_eq, neighbourhood, Nat.one_shiftLeft] at h
  split at h
  · rename_i hn hsucc
    rw [← Bool.not_eq_true, between_iff, high_mul, low_mul, Nat.mul_assoc] at hn hsucc
    generalize (if 1 < Grid.spacing u ∧ u = 2 ^ u.log2 then Grid.spacing u
      else 2 * Grid.spacing u) = below at *
    generalize 10 ^ k.toNat * Magnitude.one = step at *
    have hfloor := Nat.div_mul_le_self (u * 10 ^ (-k).toNat) step
    have hnext := Nat.lt_mul_of_div_lt (Nat.lt_succ_self (u * 10 ^ (-k).toNat / step)) hup
    rw [Nat.succ_mul (u * 10 ^ (-k).toNat / step) step] at hnext hsucc
    generalize u * 10 ^ (-k).toNat / step * step = floor at *
    refine Nat.le_of_not_lt fun hlt => ?_
    rcases Nat.lt_or_ge (4 * (u * 10 ^ (-k).toNat) - 10 ^ (-k).toNat * below) (4 * floor)
      with hin | hout
    · exact hn ⟨by omega, by omega, fun _ => by omega⟩
    · exact hsucc ⟨by omega, by omega, fun _ => by omega⟩
  · cases h
  · cases h
  · split at h
    · cases h
    · split at h
      · cases h
      · cases h

/-- Seventeen digits always suffice. -/
theorem onGrid?_ne_none {u : Nat} (hu : 0 < u) (hdvd : Grid.spacing u ∣ u) :
    onGrid? u (leading u Magnitude.one - 16) ≠ none := by
  intro h
  have hwide := wide_of_onGrid?_eq_none hu hdvd h
  have hleading := pow_leading_le hu Magnitude.one_pos
  obtain ⟨k, hk⟩ : ∃ k, leading u Magnitude.one = k + (16 : Nat) :=
    ⟨leading u Magnitude.one - 16, by omega⟩
  have hlast : k + (16 : Nat) - 16 = k := by omega
  rw [hk, hlast] at hwide
  rw [hk] at hleading
  -- a step of that grid is at most the number over the sixteenth power of ten
  have hfine : 10 ^ k.toNat * Magnitude.one * 10 ^ 16 ≤ u * 10 ^ (-k).toNat := by
    have hpos : 0 < 10 ^ (-(k + (16 : Nat))).toNat := Nat.pow_pos (by decide)
    refine Nat.le_of_mul_le_mul_right ?_ hpos
    calc 10 ^ k.toNat * Magnitude.one * 10 ^ 16 * 10 ^ (-(k + (16 : Nat))).toNat
        = 10 ^ 16 * 10 ^ k.toNat * 10 ^ (-(k + (16 : Nat))).toNat * Magnitude.one := by ring
      _ = 10 ^ (k + (16 : Nat)).toNat * Magnitude.one * 10 ^ (-k).toNat := by
          rw [pow_shift, Nat.mul_right_comm]
      _ ≤ u * 10 ^ (-(k + (16 : Nat))).toNat * 10 ^ (-k).toNat := Nat.mul_le_mul_right _ hleading
      _ = u * 10 ^ (-k).toNat * 10 ^ (-(k + (16 : Nat))).toNat := Nat.mul_right_comm _ _ _
  have hdown : 0 < 10 ^ (-k).toNat := Nat.pow_pos (by decide)
  generalize 10 ^ (-k).toNat = down at hwide hfine hdown
  generalize 10 ^ k.toNat * Magnitude.one = step at hwide hfine
  have hpos : 0 < down * Grid.spacing u := Nat.mul_pos hdown (Grid.spacing_pos u)
  split at hwide
  · rename_i hpower
    have hvalue : u * down = down * Grid.spacing u * 2 ^ 52 := by
      rw [Nat.mul_assoc, Grid.spacing_mul_of_power hpower.1 hpower.2, Nat.mul_comm]
    omega
  · have hvalue : u * down ≤ down * Grid.spacing u * 2 ^ 53 := by
      rw [Nat.mul_assoc, Nat.mul_comm u]
      exact Nat.mul_le_mul_left _ (Nat.le_of_lt (Grid.lt_spacing_mul u))
    rw [Nat.mul_left_comm down] at hwide
    omega

/-- The search ends at a grid with a point inside, if there is one within its steps. -/
theorem go_eq_trim {u : Nat} {top : Int} (left extra : Nat)
    (h : ∃ n < left, onGrid? u (top - (extra + n : Nat)) ≠ none) :
    ∃ n k, onGrid? u k = some n ∧ shortest.go u top left extra = trim ⟨n, k⟩ := by
  induction left generalizing extra with
  | zero =>
    obtain ⟨n, hn, -⟩ := h
    exact absurd hn (Nat.not_lt_zero n)
  | succ left ih =>
    rw [shortest.go]
    cases hgrid : onGrid? u (top - extra) with
    | some d => exact ⟨d, top - extra, hgrid, rfl⟩
    | none =>
      refine ih _ ?_
      obtain ⟨n, hn, hfound⟩ := h
      cases n with
      | zero => exact absurd hgrid hfound
      | succ n =>
        refine ⟨n, Nat.lt_of_succ_lt_succ hn, ?_⟩
        rwa [Nat.add_right_comm]

/-- The shortest decimal of a double is rounded to it. -/
theorem rounded_shortest (m : Magnitude) : (shortest m).rounded = m.quanta := by
  unfold shortest
  split
  · rename_i hzero
    rw [hzero]
    simp [rounded, numerator, denominator, Grid.round, roundHalfEven]
  · rename_i hzero
    have hpos := Nat.pos_of_ne_zero hzero
    obtain ⟨n, k, hgrid, hgo⟩ :=
      go_eq_trim 17 0 ⟨16, by decide, onGrid?_ne_none hpos m.fits.2⟩
    rw [hgo, rounded_trim]
    exact rounded_of_inside hpos m.fits.2 (inside_of_onGrid? hgrid)

end Decimal

end Replay
