import Replay.Proofs.Number.Nearness
import Replay.Proofs.Timeline.LogTime

/-!
Waiting for a log time. The wait that a running timeline asks for is rounded, and so is the log time
after it, and the two do not always make up for each other: the target can be missed
(`wait_too_short`). It is missed by one part in 2^51 at most, so that below 2^51 nanoseconds a
second wait is enough; and where the products have no more than 53 bits it is not missed at all
(`wait_reaches_but_for_rounding`).
-/

namespace Replay

/-- A multiple of a power of two with few bits lies on the grid. -/
theorem Grid.spacing_dvd_of_shiftLeft_eq {n r j k : Nat} (h : n <<< j = r <<< k)
    (hr : r < 1 <<< 53) : spacing n ∣ n := by
  rcases Nat.le_total j k with hjk | hkj
  · have hn : n = r <<< (k - j) := by
      refine Nat.eq_of_mul_eq_mul_right (Nat.two_pow_pos j) ?_
      rw [← Nat.shiftLeft_eq, ← Nat.shiftLeft_eq, ← Nat.shiftLeft_add,
        Nat.sub_add_cancel hjk, h]
    exact hn ▸ spacing_dvd_shift hr
  · have hn : n <<< (j - k) = r := by
      refine Nat.eq_of_mul_eq_mul_right (Nat.two_pow_pos k) ?_
      rw [← Nat.shiftLeft_eq, ← Nat.shiftLeft_eq, ← Nat.shiftLeft_add,
        Nat.sub_add_cancel hkj, h]
    have hle : n ≤ r := by
      rw [← hn, Nat.shiftLeft_eq]
      exact Nat.le_mul_of_pos_right _ (Nat.two_pow_pos _)
    have hdvd := spacing_dvd_shift (k := 0) (Nat.lt_of_le_of_lt hle hr)
    rwa [Nat.shiftLeft_zero] at hdvd

/-- What is short of a span by two roundings, and is rounded twice and loses its fraction, is short
by one part in 2^51 and a fraction. -/
theorem AlmostLe.lt_of_lt {a b c : Nat} (h : AlmostLe a b) (hlt : b <<< 52 < c <<< 52 + b) :
    a <<< 51 < c <<< 51 + a := by
  unfold AlmostLe at h
  omega

theorem AlmostLe.add {a b c d : Nat} (h : AlmostLe a b) (h' : AlmostLe c d) :
    AlmostLe (a + c) (b + d) := by
  unfold AlmostLe at *
  omega

namespace Speed

variable (s : Speed) {wall : Nanos}

/-- Log time that is worth no more than a span of wall time passes in it, but for one part in 2^51
and a fraction of a nanosecond. -/
theorem lt_logSpan_of_worth {n : Nat} (hn : 0 < n) (h : s.logSpan wall < Nanos.top)
    (hworth : AlmostLe (n * Magnitude.one) (wall.toNat * s.magnitude.quanta)) :
    n <<< 51 < ((s.logSpan wall).toNat + 1) <<< 51 + n := by
  have hwall : 0 < wall.toNat := by
    refine Nat.pos_of_ne_zero fun hzero => ?_
    have hlarge := Nat.mul_pos hn Magnitude.one_pos
    rw [hzero, Nat.zero_mul] at hworth
    unfold AlmostLe at hworth
    omega
  have hshort := hworth.lt_of_lt (s.lt_logSpan hwall h)
  refine Nat.lt_of_mul_lt_mul_right (a := Magnitude.one) ?_
  rwa [Nat.add_mul, shiftLeft_mul, shiftLeft_mul]

/-- A speed is a whole number of 2^-j parts. -/
def InParts (s : Speed) (m j : Nat) : Prop := s.magnitude.quanta <<< j = m * Magnitude.one

instance (s : Speed) (m j : Nat) : Decidable (s.InParts m j) :=
  inferInstanceAs (Decidable (_ = _))

variable {s} {m j : Nat}

theorem InParts.worth (h : s.InParts m j) (n : Nat) :
    (n * s.magnitude.quanta) <<< j = n * m * Magnitude.one := by
  rw [Nat.mul_assoc, ← h, Nat.mul_comm n, ← shiftLeft_mul, Nat.mul_comm]

theorem InParts.pos (h : s.InParts m j) : 0 < m := by
  refine Nat.pos_of_ne_zero fun hzero => ?_
  have hlarge := Nat.mul_pos s.quanta_pos (Nat.two_pow_pos j)
  rw [InParts, hzero, Nat.zero_mul, Nat.shiftLeft_eq] at h
  omega

/-- In few parts, a product is not rounded. -/
theorem InParts.round_product (h : s.InParts m j) (hfew : wall.toNat * m < 1 <<< 53) :
    Grid.round (Grid.round (wall.toNat * Magnitude.one) 1 * s.magnitude.quanta) Magnitude.one =
      wall.toNat * s.magnitude.quanta := by
  have hwall : wall.toNat < 1 <<< 53 :=
    Nat.lt_of_le_of_lt (Nat.le_mul_of_pos_right _ h.pos) hfew
  have hdouble := Grid.round_exact Nat.one_pos (Magnitude.fits_mul_one hwall).2
  have hgrid : Grid.spacing (wall.toNat * s.magnitude.quanta) ∣ wall.toNat * s.magnitude.quanta :=
    Grid.spacing_dvd_of_shiftLeft_eq ((h.worth _).trans (Magnitude.mul_one_eq_shift _)) hfew
  rw [Nat.mul_one] at hdouble
  rw [hdouble, Nat.mul_right_comm]
  exact Grid.round_exact Magnitude.one_pos hgrid

/-- In few parts, the log time of a span is what the span is worth, without its fraction. -/
theorem InParts.logSpan_whole (h : s.InParts m j) (hfew : wall.toNat * m < 1 <<< 53)
    (htop : s.logSpan wall < Nanos.top) : (s.logSpan wall).toNat <<< j ≤ wall.toNat * m ∧
      wall.toNat * m < ((s.logSpan wall).toNat + 1) <<< j := by
  have hproduct := h.round_product hfew
  rw [logSpan_eq] at htop
  have hle := Binary64.floorNanos_le_round htop
  have hlt := Binary64.round_lt_floorNanos htop
  rw [← logSpan_eq, hproduct] at hle hlt
  constructor
  · refine Nat.le_of_mul_le_mul_right ?_ Magnitude.one_pos
    rw [shiftLeft_mul, ← h.worth, Nat.shiftLeft_eq, Nat.shiftLeft_eq]
    exact Nat.mul_le_mul_right _ hle
  · refine Nat.lt_of_mul_lt_mul_right (a := Magnitude.one) ?_
    rw [shiftLeft_mul, ← h.worth, Nat.shiftLeft_eq, Nat.shiftLeft_eq]
    exact Nat.mul_lt_mul_of_pos_right hlt (Nat.two_pow_pos j)

/-- In few parts, a wait is worth the log time that it was asked for. -/
theorem InParts.wallSpan_whole (h : s.InParts m j) {log : Nanos} (hlog : 0 < log.toNat)
    (hfew : log.toNat <<< j < 1 <<< 53) (htop : s.wallSpan log < Nanos.top) :
    log.toNat <<< j ≤ (s.wallSpan log).toNat * m := by
  have hlt : log.toNat < 1 <<< 53 := by
    rw [Nat.shiftLeft_eq] at hfew
    exact Nat.lt_of_le_of_lt (Nat.le_mul_of_pos_right _ (Nat.two_pow_pos j)) hfew
  have hworth := s.wallSpan_worth_whole hlog hlt htop
  have hparts : log.toNat <<< j <<< 53 ≤
      ((s.wallSpan log).toNat * m) <<< 53 + log.toNat <<< j := by
    refine Nat.le_of_mul_le_mul_right ?_ Magnitude.one_pos
    have hscaled := Nat.mul_le_mul_right (2 ^ j) hworth
    rw [Nat.add_mul, shiftLeft_mul, shiftLeft_mul, ← Nat.shiftLeft_eq, ← Nat.shiftLeft_eq,
      h.worth] at hscaled
    rw [Nat.add_mul, shiftLeft_mul, shiftLeft_mul, shiftLeft_mul]
    exact hscaled
  -- half a unit of 53 bits is less than one of the parts
  omega

end Speed

namespace Timeline

variable (t : Timeline) {now target w : Nanos}

theorem until?_eq_none_iff : t.until? now target = none ↔ target ≤ t.current now := by
  unfold until?
  dsimp only
  split <;> simp [*]

theorem until?_eq_some (h : t.until? now target = some w) :
    t.current now < target ∧ t.speed.wallSpan (target - t.current now) = w := by
  unfold until? at h
  dsimp only at h
  split at h
  · cases h
  · exact ⟨UInt64.not_le.mp ‹_›, Option.some.inj h⟩

/-- The log time that a timeline starts at is reached at once. -/
theorem until_start (l : Nanos) (speed : Speed) (now : Nanos) :
    (start l speed now).until? now l = none := by
  rw [until?_eq_none_iff, current_start]
  exact UInt64.le_refl l

/-- No wait is empty, at whatever speed and for however near or far a target. -/
theorem until?_ne_zero : t.until? now target ≠ some 0 := by
  intro h
  obtain ⟨hlt, hspan⟩ := t.until?_eq_some h
  have hleft : 0 < (target - t.current now).toNat := by
    rw [UInt64.toNat_sub_of_le _ _ (UInt64.le_of_lt hlt)]
    exact Nat.sub_pos_of_lt (UInt64.lt_iff_toNat_lt.mp hlt)
  have hpos := t.speed.wallSpan_pos hleft
  rw [hspan] at hpos
  exact absurd hpos (by decide)

/-- While it is not saturated, the log time of a running timeline is a sum. -/
theorem toNat_current (hrun : t.paused = false) (h : t.current now < Nanos.top) :
    (t.current now).toNat = t.base.toNat + (t.passed now).toNat := by
  simp only [current, hrun, Bool.false_eq_true, if_false] at h ⊢
  rw [UInt64.lt_iff_toNat_lt, Nanos.toNat_plus] at h
  rw [Nanos.toNat_plus]
  omega

/-- A running timeline has gone on by what the time since the anchor is worth, but for one part in
2^51 of it and a fraction of a nanosecond. -/
theorem le_current_of_worth (hrun : t.paused = false) {n : Nat} (hn : 0 < n)
    (hworth : AlmostLe (n * Magnitude.one)
      ((Nanos.minus now t.anchor).toNat * t.speed.magnitude.quanta))
    (htop : t.current now < Nanos.top) :
    t.base.toNat + n ≤ (t.current now).toNat + ((n - 1) >>> 51 + 1) := by
  have hsum := t.toNat_current hrun htop
  have hpassed : t.passed now < Nanos.top := by
    rw [UInt64.lt_iff_toNat_lt] at htop ⊢
    omega
  have hlt := t.speed.lt_logSpan_of_worth hn hpassed hworth
  rw [← passed] at hlt
  omega

section Wait

variable (hrun : t.paused = false) (hanchor : t.anchor ≤ now)
  (hwait : t.until? now target = some w) (hclock : now.toNat + w.toNat < UInt64.size)

include hanchor hclock in
/-- The time since the anchor, before a wait and after it. -/
theorem toNat_since_anchor : (Nanos.minus (now + w) t.anchor).toNat =
    (Nanos.minus now t.anchor).toNat + w.toNat := by
  have hle := UInt64.le_iff_toNat_le.mp hanchor
  rw [Nanos.toNat_minus, Nanos.toNat_minus, UInt64.toNat_add, Nat.mod_eq_of_lt hclock]
  omega

include hrun hwait in
/-- What is asked for is the part of the way that is left. -/
theorem distance_eq : target.toNat - t.base.toNat =
      (t.passed now).toNat + (target - t.current now).toNat ∧
    0 < (target - t.current now).toNat ∧ t.passed now < Nanos.top := by
  obtain ⟨hlt, -⟩ := t.until?_eq_some hwait
  have htarget := UInt64.le_iff_toNat_le.mp target.le_top
  have hsub := UInt64.toNat_sub_of_le _ _ (UInt64.le_of_lt hlt)
  have hsum := t.toNat_current hrun (UInt64.lt_of_lt_of_le hlt target.le_top)
  rw [UInt64.lt_iff_toNat_lt] at hlt ⊢
  omega

include hrun hanchor hwait hclock in
/-- After a wait, the time since the anchor is worth the whole way, but for two roundings. -/
theorem wait_worth (htop : w < Nanos.top) : 0 < w.toNat ∧
    AlmostLe ((target.toNat - t.base.toNat) * Magnitude.one)
      ((Nanos.minus (now + w) t.anchor).toNat * t.speed.magnitude.quanta) := by
  obtain ⟨-, rfl⟩ := t.until?_eq_some hwait
  obtain ⟨hdistance, hleft, hpassed⟩ := t.distance_eq hrun hwait
  have hworth := t.speed.wallSpan_worth hleft htop
  constructor
  · refine Nat.pos_of_ne_zero fun hzero => ?_
    have hlarge := Nat.mul_pos hleft Magnitude.one_pos
    rw [hzero, Nat.zero_mul] at hworth
    unfold AlmostLe at hworth
    omega
  · rw [hdistance, t.toNat_since_anchor hanchor hclock, Nat.add_mul, Nat.add_mul]
    exact (t.speed.logSpan_le hpassed).add hworth

include hrun hanchor hwait hclock in
/-- A wait misses its target by one part in 2^51 of the way at most, rounded up. -/
theorem missed_le (htop : w < Nanos.top) : target.toNat - (t.current (now + w)).toNat ≤
    (target.toNat - t.base.toNat - 1) >>> 51 + 1 := by
  obtain ⟨hdistance, hleft, -⟩ := t.distance_eq hrun hwait
  by_cases hreached : target ≤ t.current (now + w)
  · rw [Nat.sub_eq_zero_of_le (UInt64.le_iff_toNat_le.mp hreached)]
    exact Nat.zero_le _
  · have hbelow := UInt64.lt_of_lt_of_le (UInt64.not_le.mp hreached) target.le_top
    have hpos : 0 < target.toNat - t.base.toNat := by omega
    have hle := t.le_current_of_worth hrun hpos
      (t.wait_worth hrun hanchor hwait hclock htop).2 hbelow
    omega

include hrun hanchor hwait hclock in
/-- Below 2^51 nanoseconds from the last change of speed, a second wait is enough. -/
theorem second_wait_reaches {again : Nanos} (htop : w < Nanos.top)
    (hnear : target.toNat - t.base.toNat < 1 <<< 51)
    (hagain : t.until? (now + w) target = some again)
    (hclock' : now.toNat + w.toNat + again.toNat < UInt64.size) :
    target ≤ t.current (now + w + again) := by
  obtain ⟨hdistance, hleft, -⟩ := t.distance_eq hrun hwait
  obtain ⟨hpos, hworth⟩ := t.wait_worth hrun hanchor hwait hclock htop
  have hmissed := t.missed_le hrun hanchor hwait hclock htop
  have hnow : (now + w).toNat = now.toNat + w.toNat := by
    rw [UInt64.toNat_add, Nat.mod_eq_of_lt hclock]
  have hanchor' : t.anchor ≤ now + w := by
    rw [UInt64.le_iff_toNat_le] at hanchor ⊢
    omega
  obtain ⟨hdistance', hleft', -⟩ := t.distance_eq hrun hagain
  obtain ⟨hlt, hspan⟩ := t.until?_eq_some hagain
  -- one nanosecond is left, and the second wait is worth it
  have hone : (target - t.current (now + w)).toNat = 1 := by
    have hsub := UInt64.toNat_sub_of_le _ _ (UInt64.le_of_lt hlt)
    omega
  have hbelow : again < Nanos.top := by
    have hsize : UInt64.size = Nanos.top.toNat + 1 := rfl
    rw [UInt64.lt_iff_toNat_lt]
    omega
  have hasked := t.speed.wallSpan_worth hleft' (hspan ▸ hbelow)
  rw [hspan, hone] at hasked
  rw [← hnow] at hclock'
  have hsince := t.toNat_since_anchor hanchor' hclock'
  have hworth' := hworth.add hasked
  rw [← Nat.add_mul, ← Nat.add_mul, ← hsince] at hworth'
  by_contra hshort
  have hbelow' := UInt64.lt_of_lt_of_le (UInt64.not_le.mp hshort) target.le_top
  have hle := t.le_current_of_worth hrun (Nat.succ_pos _) hworth' hbelow'
  rw [UInt64.not_le, UInt64.lt_iff_toNat_lt] at hshort
  omega

include hrun hanchor hwait hclock in
/-- Where the speed has few parts, a wait reaches its target. -/
theorem wait_reaches_of_inParts {m j : Nat} (hparts : t.speed.InParts m j)
    (hfew : (Nanos.minus (now + w) t.anchor).toNat * m < 1 <<< 53)
    (hnear : (target.toNat - t.base.toNat) <<< j < 1 <<< 53) :
    target ≤ t.current (now + w) := by
  obtain ⟨hdistance, hleft, hpassed⟩ := t.distance_eq hrun hwait
  have hsince := t.toNat_since_anchor hanchor hclock
  rw [hsince, Nat.add_mul] at hfew
  rw [hdistance, Nat.shiftLeft_eq, Nat.add_mul, ← Nat.shiftLeft_eq, ← Nat.shiftLeft_eq] at hnear
  obtain ⟨-, rfl⟩ := t.until?_eq_some hwait
  have htop : t.speed.wallSpan (target - t.current now) < Nanos.top := by
    have hwide : 1 <<< 53 < Nanos.top.toNat := by decide
    have hspan := Nat.le_mul_of_pos_right
      (t.speed.wallSpan (target - t.current now)).toNat hparts.pos
    rw [UInt64.lt_iff_toNat_lt]
    omega
  have hworth := hparts.wallSpan_whole hleft (Nat.lt_of_le_of_lt (Nat.le_add_left _ _) hnear) htop
  have hbefore := (hparts.logSpan_whole (Nat.lt_of_le_of_lt (Nat.le_add_right _ _) hfew) hpassed).1
  by_contra hshort
  have hbelow := UInt64.lt_of_lt_of_le (UInt64.not_le.mp hshort) target.le_top
  have hsum := t.toNat_current hrun hbelow
  have hpassed' : t.passed (now + t.speed.wallSpan (target - t.current now)) < Nanos.top := by
    rw [UInt64.lt_iff_toNat_lt] at hbelow ⊢
    omega
  have hafter := (hparts.logSpan_whole (by rw [hsince, Nat.add_mul]; exact hfew) hpassed').2
  rw [hsince, Nat.add_mul] at hafter
  have hreached : (target.toNat - t.base.toNat) <<< j <
      ((t.passed (now + t.speed.wallSpan (target - t.current now))).toNat + 1) <<< j := by
    rw [hdistance, Nat.shiftLeft_eq, Nat.add_mul, ← Nat.shiftLeft_eq, ← Nat.shiftLeft_eq]
    exact Nat.lt_of_le_of_lt (Nat.add_le_add hbefore hworth) hafter
  rw [Nat.shiftLeft_eq, Nat.shiftLeft_eq] at hreached
  have hcount := Nat.lt_of_mul_lt_mul_right hreached
  rw [UInt64.not_le, UInt64.lt_iff_toNat_lt] at hshort
  omega

include hrun hanchor hwait hclock in
/-- A running timeline whose clock has not gone back behind the anchor asks for a wait. Unless that
is the longest there is, it ends before the target by one part in 2^51 of the way from the base at
most, rounded up; on a way below 2^51 nanoseconds a second wait then reaches the target. Where the
speed is in so few parts that the products have 53 bits, the first wait does. -/
theorem wait_reaches_but_for_rounding :
    (w < Nanos.top → target.toNat - (t.current (now + w)).toNat ≤
      (target.toNat - t.base.toNat - 1) >>> 51 + 1) ∧
    (∀ again, w < Nanos.top → target.toNat - t.base.toNat < 1 <<< 51 →
      t.until? (now + w) target = some again →
      now.toNat + w.toNat + again.toNat < UInt64.size →
      t.until? (now + w + again) target = none) ∧
    (∀ m j, t.speed.InParts m j →
      (Nanos.minus (now + w) t.anchor).toNat * m < 1 <<< 53 →
      (target.toNat - t.base.toNat) <<< j < 1 <<< 53 →
      target ≤ t.current (now + w) ∧ t.until? (now + w) target = none) := by
  refine ⟨t.missed_le hrun hanchor hwait hclock, ?_, ?_⟩
  · intro again htop hnear hagain hclock'
    rw [until?_eq_none_iff]
    exact t.second_wait_reaches hrun hanchor hwait hclock htop hnear hagain hclock'
  · intro m j hparts hfew hnear
    have hreached := t.wait_reaches_of_inParts hrun hanchor hwait hclock hparts hfew hnear
    exact ⟨hreached, t.until?_eq_none_iff.mpr hreached⟩

end Wait

/-- Where the clock goes on by the waits that are asked for, no third one is, on a way below 2^51
nanoseconds. -/
theorem until?_after_second_wait (hrun : t.paused = false) {clock : Nat} {again : Nanos}
    (hanchor : t.anchor.toNat ≤ clock) (hnear : target.toNat - t.base.toNat < 1 <<< 51)
    (hwait : t.until? (UInt64.ofNat clock) target = some w)
    (hagain : t.until? (UInt64.ofNat (clock + w.toNat)) target = some again)
    (hclock : clock + w.toNat + again.toNat < UInt64.size) :
    t.until? (UInt64.ofNat (clock + w.toNat + again.toNat)) target = none := by
  have hnow : (UInt64.ofNat clock).toNat = clock := UInt64.toNat_ofNat_of_lt' (by omega)
  obtain ⟨hlt, hspan⟩ := t.until?_eq_some hwait
  obtain ⟨hdistance, -, -⟩ := t.distance_eq hrun hwait
  have htop : w < Nanos.top := by
    have hwide : 1 <<< 58 < Nanos.top.toNat := by decide
    rw [UInt64.lt_iff_toNat_lt, ← hspan]
    exact Nat.lt_of_le_of_lt (t.speed.wallSpan_le (by omega)) hwide
  rw [UInt64.ofNat_add, UInt64.ofNat_toNat] at hagain ⊢
  rw [UInt64.ofNat_add, UInt64.ofNat_toNat, until?_eq_none_iff]
  refine t.second_wait_reaches hrun ?_ hwait ?_ htop hnear hagain ?_
  · rw [UInt64.le_iff_toNat_le, hnow]
    exact hanchor
  · omega
  · rw [hnow]
    exact hclock

def tenths (n : Nat) : Speed := Speed.clamp (Binary64.nearest false (n * Magnitude.one) 10)

theorem waits_reach_at_tenths :
    let t := start 0 (tenths 7) 0
    let u := start 1000 (tenths 15) 40
    t.until? 0 63 = some 90 ∧ 63 - (t.current 90).toNat ≤ 1 ∧
      t.until? 90 63 = some 2 ∧ t.until? 92 63 = none ∧
      u.until? 50 1100 = some 57 ∧ 1100 ≤ u.current 107 := by
  have hwait : (start 0 (tenths 7) 0).until? 0 63 = some 90 := by decide +kernel
  have hagain : (start 0 (tenths 7) 0).until? 90 63 = some 2 := by decide +kernel
  have hwait' : (start 1000 (tenths 15) 40).until? 50 1100 = some 57 := by decide +kernel
  have hparts : (tenths 15).InParts 3 1 := by decide +kernel
  obtain ⟨hmissed, hsecond, -⟩ :=
    (start 0 (tenths 7) 0).wait_reaches_but_for_rounding rfl (by decide) hwait (by decide)
  obtain ⟨-, -, hfirst⟩ :=
    (start 1000 (tenths 15) 40).wait_reaches_but_for_rounding rfl (by decide) hwait' (by decide)
  exact ⟨hwait, hmissed (by decide), hagain,
    hsecond 2 (by decide) (by decide) hagain (by decide), hwait',
    (hfirst 3 1 hparts (by decide) (by decide)).1⟩

/-- Waiting as long as it was asked for is not always enough: 63 nanoseconds at a speed of 0.7 need
91 nanoseconds of wall time, and 90 are asked for. -/
theorem wait_too_short : ¬ ∀ (t : Timeline) (now target w : Nanos), t.paused = false →
    t.until? now target = some w → now.toNat + w.toNat < UInt64.size →
    target ≤ t.current (now + w) ∧ t.until? (now + w) target = none := by
  intro h
  have hreached := (h (start 0 (tenths 7) 0) 0 63 90 rfl (by decide +kernel) (by decide)).1
  have hcurrent : (start 0 (tenths 7) 0).current (0 + 90) = 62 := by decide +kernel
  rw [hcurrent] at hreached
  exact absurd hreached (by decide)

end Timeline

end Replay
