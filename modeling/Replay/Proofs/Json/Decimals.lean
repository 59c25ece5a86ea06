import Replay.Proofs.Json.Numerals
import Replay.Proofs.Number.Shortest

/-!
Short decimals are read back. A double whose decimal has at most fifteen digits is written with
these digits, and reading them divides one exact double by another, which rounds once and so gives
the double that the decimal is rounded to (`readsBack_of_isShort`).
-/

namespace Replay

/-- A decimal of at most fifteen digits in front of its point, or with the zeros there, and at most
22 places behind it. -/
def Decimal.IsShort (d : Decimal) : Prop :=
  d.digits * 10 ^ d.exponent.toNat < 10 ^ 15 ∧ -22 ≤ d.exponent

instance (d : Decimal) : Decidable d.IsShort := inferInstanceAs (Decidable (_ ∧ _))

theorem Decimal.rounded_places (n j : Nat) :
    rounded ⟨n, -j⟩ = Grid.round (n * Magnitude.one) (10 ^ j) := by
  have hnone : (-(j : Int)).toNat = 0 := by omega
  simp only [rounded, numerator, denominator, hnone, Int.neg_neg, Int.toNat_natCast, Nat.pow_zero,
    Nat.mul_one]

theorem Binary64.nearest_eq_of_round {num den : Nat} {m : Magnitude} (negative : Bool)
    (h : Grid.round num den = m.quanta) : nearest negative num den = .finite negative m := by
  have hlt : Grid.round num den < Grid.bound := h ▸ m.fits.1
  rw [nearest, Magnitude.nearest?_of_lt hlt]
  exact congrArg (Binary64.finite negative) (Magnitude.ext h)

theorem toList_pushn (s : String) (c : Char) (n : Nat) :
    (s.pushn c n).toList = s.toList ++ List.replicate n c := by
  rw [String.pushn_eq_repeat_push]
  induction n with
  | zero => simp [Nat.repeat]
  | succ n ih => rw [Nat.repeat, String.toList_push, ih, List.replicate_succ', List.append_assoc]

namespace Json

open Magnitude (one)
open Reader (scalar)

theorem fits_powerOfTen : ∀ e < 23, Grid.Fits (10 ^ e * one) := by decide +kernel

theorem powerOfTen_eq {e : Nat} (he : e < 23) :
    powerOfTen e = .finite false ⟨10 ^ e * one, fits_powerOfTen e he⟩ := by
  have hlength : decimalLength 1 = 1 := by rw [decimalLength, if_pos (by decide)]
  have hsmall : ¬(310 < ((1 : Nat) : Int) + e) := by omega
  have hlarge : ¬(((1 : Nat) : Int) + e < -330) := by omega
  have hexact := Binary64.nearest_exact false (fits_powerOfTen e he) Nat.one_pos
  rw [Nat.mul_one] at hexact
  rw [powerOfTen, Decimal.toBinary64, if_neg Nat.one_ne_zero]
  simp only [hlength, if_neg hsmall, if_neg hlarge]
  rw [Nat.one_mul]
  exact hexact

/-- Digits over a power of ten are read as the double that they are rounded to. -/
theorem scaled_eq {n j : Nat} (hn : Grid.Fits (n * one)) (hpos : 0 < j) (hj : j < 23)
    {m : Magnitude} (hm : Decimal.rounded ⟨n, -j⟩ = m.quanta) (negative : Bool)
    (rest : List Char) :
    scaled negative n (-j) rest = .ok (.number (.finite negative m), rest) := by
  obtain ⟨i, rfl⟩ := Nat.exists_eq_succ_of_ne_zero (Nat.ne_of_gt hpos)
  have hexact := Binary64.nearest_exact false hn Nat.one_pos
  rw [Nat.mul_one] at hexact
  have hdouble : Binary64.ofNat n = .finite false ⟨n * one, hn⟩ := hexact
  have hquanta : 10 ^ (i + 1) * one ≠ 0 :=
    Nat.ne_of_gt (Nat.mul_pos (Nat.pow_pos (by decide)) Magnitude.one_pos)
  have hround : Grid.round (n * one * one) (10 ^ (i + 1) * one) = m.quanta := by
    rw [Grid.round_mul_right _ _ Magnitude.one_pos, ← Decimal.rounded_places, hm]
  have hquotient : Binary64.ofNat n / powerOfTen (i + 1) = .finite false m := by
    rw [hdouble, powerOfTen_eq hj]
    change Binary64.div _ _ = _
    simp only [Binary64.div, hquanta, if_false, bne_self_eq_false]
    exact Binary64.nearest_eq_of_round false hround
  have hscale : scale 3 (Binary64.ofNat n) (-((i + 1 : Nat) : Int)) = some (.finite false m) := by
    change scale 3 (Binary64.ofNat n) (.negSucc i) = _
    rw [scale, if_pos (by omega), hquotient]
  rw [scaled, hscale]
  cases negative <;> rfl

section Texts

variable {ds fs rest : List Char}

/-- Digits on both sides of a point are read as one number over a power of ten. -/
theorem numeral_point (hds : Canonical ds) (hfs : ∀ c ∈ fs, c.isDigit = true) (hne : fs ≠ [])
    (hlt : Nat.ofDigitChars 10 (ds ++ fs) 0 < UInt64.size) (hrest : Stops rest)
    (negative : Bool) :
    numeral negative (ds ++ '.' :: (fs ++ rest)) =
      exponentOrEnd negative (Nat.ofDigitChars 10 (ds ++ fs) 0) (-fs.length) rest := by
  rw [Nat.ofDigitChars_append] at hlt ⊢
  have hwhole : Nat.ofDigitChars 10 ds 0 < UInt64.size :=
    Nat.lt_of_le_of_lt (le_ofDigitChars fs _) hlt
  have hpoint : Stops ('.' :: (fs ++ rest)) := stops_cons rfl _
  rw [numeral_digits hds hwhole hpoint]
  change fractionPart negative _ (0 : Nat) (fs ++ rest) = _
  rw [fractionPart_eq, takeWhile_digits hfs hrest, dropWhile_digits hfs hrest]
  cases fs with
  | nil => exact absurd rfl hne
  | cons f fs =>
    simp only [absorb_eq (f :: fs) hlt]
    rw [Int.natCast_zero, Int.zero_sub]

/-- An exponent below zero is taken off. -/
theorem exponentPart_minus {k : Nat} (hk : k < 0x80000000) (negative : Bool) (n : Nat)
    (exponent : Int) :
    exponentPart negative n exponent ('-' :: Nat.toDigits 10 k) =
      scaled negative n (exponent - k) [] := by
  have hdigits : ∀ c ∈ Nat.toDigits 10 k, c.isDigit = true := (canonical_toDigits k).1
  have htake := takeWhile_digits hdigits stops_nil
  have hdrop := dropWhile_digits hdigits stops_nil
  rw [List.append_nil] at htake hdrop
  have hnumber := Nat.ofDigitChars_ten_toDigits (n := k)
  have habsorb := absorb_eq (Nat.toDigits 10 k) (n := 0) (by rw [hnumber]; exact hk)
  rw [hnumber] at habsorb
  obtain ⟨c, cs, hcs⟩ := List.exists_cons_of_ne_nil (Nat.toDigits_ne_nil (n := k) (b := 10))
  rw [exponentPart_eq, if_neg (by decide), if_pos rfl]
  rw [hcs] at htake hdrop habsorb hdigits ⊢
  simp only [exponentDigits, hdigits c List.mem_cons_self, if_true, htake, hdrop, habsorb]

theorem ofDigitChars_zeros (k n : Nat) :
    Nat.ofDigitChars 10 (List.replicate k '0') n = n * 10 ^ k := by
  induction k generalizing n with
  | zero => exact (Nat.mul_one n).symm
  | succ k ih =>
    rw [List.replicate_succ, Nat.ofDigitChars_cons, ih, Nat.sub_self, Nat.add_zero, Nat.pow_succ,
      Nat.mul_comm 10 n, Nat.mul_assoc, Nat.mul_comm 10]

theorem isDigit_of_mem_zeros {k : Nat} : ∀ c ∈ List.replicate k '0', c.isDigit = true := by
  intro c hc
  rw [List.eq_of_mem_replicate hc]
  rfl

theorem length_toDigits (n : Nat) : (Nat.toDigits 10 n).length = decimalLength n := by
  induction n using Nat.strongRecOn with
  | ind n ih =>
    rw [decimalLength]
    split
    · rename_i hlt
      rw [Nat.toDigits_of_lt_base hlt]
      rfl
    · rename_i hle
      rw [Nat.toDigits_of_base_le (by decide) (Nat.le_of_not_lt hle), List.length_append,
        ih (n / 10) (by omega)]
      rfl

/-- A whole number with a point and a zero behind it. -/
theorem numeral_whole {d : Decimal} {e : Nat} (hpos : 0 < d.digits) (hexponent : d.exponent = e)
    (hlt : d.digits * 10 ^ e < 10 ^ 15) (negative : Bool) :
    numeral negative (d.writePositional true).toList =
      scaled negative (d.digits * 10 ^ (e + 1)) (-(1 : Nat)) [] := by
  have htext : (d.writePositional true).toList =
      (Nat.toDigits 10 d.digits ++ List.replicate e '0') ++ '.' :: (['0'] ++ []) := by
    have hzero : d.digits ≠ 0 := Nat.ne_of_gt hpos
    rw [Decimal.writePositional, hexponent]
    simp [toList_pushn, Nat.toList_repr, hzero]
  have hcanonical : Canonical (Nat.toDigits 10 d.digits ++ List.replicate e '0') := by
    refine ⟨?_, ?_⟩
    · intro c hc
      rcases List.mem_append.mp hc with hc | hc
      · exact (canonical_toDigits d.digits).1 c hc
      · exact isDigit_of_mem_zeros c hc
    · obtain ⟨c, cs, hcs, hc⟩ := toDigits_eq_cons hpos
      rw [hcs]
      exact Or.inr ⟨c, _, rfl, hc⟩
  have hnumber : Nat.ofDigitChars 10
      (Nat.toDigits 10 d.digits ++ List.replicate e '0' ++ ['0']) 0 =
      d.digits * 10 ^ (e + 1) := by
    rw [List.append_assoc, Nat.ofDigitChars_append, Nat.ofDigitChars_ten_toDigits,
      ← List.replicate_succ', ofDigitChars_zeros]
  have hsize : d.digits * 10 ^ (e + 1) < UInt64.size := by
    rw [Nat.pow_succ, ← Nat.mul_assoc]
    have : 10 ^ 15 * 10 < UInt64.size := by decide
    omega
  rw [← hnumber] at hsize
  rw [htext, numeral_point hcanonical (by simp) (by simp) hsize stops_nil, hnumber]
  rfl

/-- Digits with a point among them. -/
theorem numeral_among {places : Nat} (hds : Canonical ds) (hplaces : 0 < places)
    (hmany : places < ds.length) (hlt : Nat.ofDigitChars 10 ds 0 < UInt64.size)
    (negative : Bool) :
    numeral negative (ds.take (ds.length - places) ++ '.' :: ds.drop (ds.length - places)) =
      scaled negative (Nat.ofDigitChars 10 ds 0) (-places) [] := by
  have hparts := List.take_append_drop (ds.length - places) ds
  have hwhole : Canonical (ds.take (ds.length - places)) := hds.take (by omega)
  have hfraction : ∀ c ∈ ds.drop (ds.length - places), c.isDigit = true :=
    fun c hc => hds.1 c (List.mem_of_mem_drop hc)
  have hlength : (ds.drop (ds.length - places)).length = places := by
    rw [List.length_drop]
    omega
  have hne : ds.drop (ds.length - places) ≠ [] := List.ne_nil_of_length_pos (by omega)
  have hread := numeral_point hwhole hfraction hne (by rw [hparts]; exact hlt) stops_nil negative
  rw [hparts, hlength, List.append_nil] at hread
  exact hread

/-- Digits behind a point, with the zeros that fill the places up. -/
theorem numeral_behind {places : Nat} (hds : ∀ c ∈ ds, c.isDigit = true) (hplaces : 0 < places)
    (hfew : ds.length ≤ places) (hlt : Nat.ofDigitChars 10 ds 0 < UInt64.size)
    (negative : Bool) :
    numeral negative ('0' :: '.' :: (List.replicate (places - ds.length) '0' ++ ds)) =
      scaled negative (Nat.ofDigitChars 10 ds 0) (-places) [] := by
  have hzero : Canonical ['0'] := canonical_toDigits 0
  have hfraction : ∀ c ∈ List.replicate (places - ds.length) '0' ++ ds, c.isDigit = true := by
    intro c hc
    rcases List.mem_append.mp hc with hc | hc
    · exact isDigit_of_mem_zeros c hc
    · exact hds c hc
  have hlength : (List.replicate (places - ds.length) '0' ++ ds).length = places := by
    rw [List.length_append, List.length_replicate]
    omega
  have hne : List.replicate (places - ds.length) '0' ++ ds ≠ [] :=
    List.ne_nil_of_length_pos (by omega)
  have hvalue : Nat.ofDigitChars 10
      (['0'] ++ (List.replicate (places - ds.length) '0' ++ ds)) 0 =
      Nat.ofDigitChars 10 ds 0 := by
    rw [Nat.ofDigitChars_append, Nat.ofDigitChars_append, ofDigitChars_zeros]
    change Nat.ofDigitChars 10 ds (0 * _) = _
    rw [Nat.zero_mul]
  have hread := numeral_point hzero hfraction hne (by rw [hvalue]; exact hlt) stops_nil negative
  rw [hvalue, hlength, List.append_nil] at hread
  exact hread

/-- The digits with a point among them or in front of them. -/
theorem numeral_places {d : Decimal} {places : Nat} (hplaces : 0 < places)
    (hexponent : d.exponent = -places) (hlt : d.digits < UInt64.size) (negative : Bool) :
    numeral negative (d.writePositional true).toList =
      scaled negative d.digits (-places) [] := by
  obtain ⟨e, rfl⟩ := Nat.exists_eq_succ_of_ne_zero (Nat.ne_of_gt hplaces)
  have hdigits := canonical_toDigits d.digits
  have hnumber := Nat.ofDigitChars_ten_toDigits (n := d.digits)
  have hnegative : d.exponent = .negSucc e := hexponent
  rw [← hnumber] at hlt
  rw [Decimal.writePositional, hnegative]
  simp only [Nat.toList_repr]
  split
  · rename_i hmany
    have hread := numeral_among hdigits hplaces hmany hlt negative
    rw [hnumber] at hread
    rw [String.toList_append, String.toList_append, String.toList_ofList, String.toList_ofList,
      String.toList_ofList, List.append_assoc]
    exact hread
  · rename_i hfew
    have hread := numeral_behind hdigits.1 hplaces (Nat.le_of_not_lt hfew) hlt negative
    rw [hnumber] at hread
    rw [String.toList_append, String.toList_append, toList_pushn, Nat.toList_repr]
    exact hread

/-- The digits with a point behind the first and an exponent below zero. -/
theorem numeral_scientific {d : Decimal} {first : Int}
    (hfirst : first = d.exponent + (decimalLength d.digits : Int) - 1) (hbelow : first < 0)
    (hsmall : first.natAbs < 0x80000000) (hlt : d.digits < UInt64.size) (negative : Bool) :
    numeral negative (d.writeScientific true first).toList =
      scaled negative d.digits d.exponent [] := by
  have hdigits := canonical_toDigits d.digits
  have hnumber := Nat.ofDigitChars_ten_toDigits (n := d.digits)
  have hlength := length_toDigits d.digits
  obtain ⟨c, cs, hcs⟩ := List.exists_cons_of_ne_nil (Nat.toDigits_ne_nil (n := d.digits) (b := 10))
  rw [hcs] at hdigits hnumber hlength
  have hcanonical : Canonical [c] := hdigits.take Nat.one_pos
  have hexponent : -(cs.length : Int) - first.natAbs = d.exponent := by
    rw [List.length_cons] at hlength
    omega
  have hstops : Stops ('e' :: '-' :: Nat.toDigits 10 first.natAbs) := stops_cons rfl _
  rw [← hnumber] at hlt
  rw [Decimal.writeScientific, Nat.toList_repr, hcs]
  cases cs with
  | nil =>
    have htext : (String.singleton c ++ "e" ++ "-" ++ Nat.repr first.natAbs).toList =
        [c] ++ 'e' :: '-' :: Nat.toDigits 10 first.natAbs := by simp [Nat.toList_repr]
    have hread := numeral_digits hcanonical hlt hstops negative
    rw [hnumber] at hread
    simp only [if_pos hbelow]
    rw [htext, hread]
    change exponentPart negative d.digits (0 : Nat) ('-' :: Nat.toDigits 10 first.natAbs) = _
    rw [exponentPart_minus hsmall, ← hexponent]
    rfl
  | cons c' cs =>
    have hread := numeral_point hcanonical (fun d hd => hdigits.1 d (List.mem_cons_of_mem c hd))
      (by simp) hlt hstops negative
    have htext : (String.singleton c ++ "." ++ String.ofList (c' :: cs) ++ "e" ++ "-" ++
        Nat.repr first.natAbs).toList =
        [c] ++ '.' :: (c' :: cs ++ 'e' :: '-' :: Nat.toDigits 10 first.natAbs) := by
      simp [Nat.toList_repr]
    have hall : [c] ++ c' :: cs = c :: c' :: cs := rfl
    rw [hall, hnumber] at hread
    simp only [if_pos hbelow]
    rw [htext, hread]
    change exponentPart negative d.digits (-(c' :: cs).length)
      ('-' :: Nat.toDigits 10 first.natAbs) = _
    rw [exponentPart_minus hsmall, hexponent]

end Texts

theorem fits_twice {n : Nat} (h : n < 1 <<< 53) : Grid.Fits (2 * n * one) := by
  constructor
  · have hbound : 2 * 1 <<< 53 * one < Grid.bound := by decide +kernel
    exact Nat.lt_trans (Nat.mul_lt_mul_of_pos_right (by omega) Magnitude.one_pos) hbound
  · rw [Magnitude.mul_one_eq_shift, ← Nat.shiftLeft_succ_inside]
    exact Grid.spacing_dvd_shift h

theorem decimalLength_add_le {n e bound : Nat} (hpos : 0 < n) (h : n * 10 ^ e < 10 ^ bound) :
    decimalLength n + e ≤ bound := by
  have hlow := Nat.mul_le_mul_right (10 ^ e) (Decimal.pow_decimalLength_le hpos)
  rw [← Nat.pow_add] at hlow
  have hlt := (Nat.pow_lt_pow_iff_right (by decide)).mp (Nat.lt_of_le_of_lt hlow h)
  omega

/-- A short decimal is read as digits over a power of ten of the same value. -/
theorem numeral_write {d : Decimal} (hpos : 0 < d.digits) (hshort : d.IsShort) (negative : Bool) :
    ∃ n j, 0 < j ∧ j < 23 ∧ Grid.Fits (n * one) ∧ Decimal.rounded ⟨n, -(j : Nat)⟩ = d.rounded ∧
      numeral negative (d.write numberStyle).toList = scaled negative n (-j) [] := by
  obtain ⟨hlarge, hplaces⟩ := hshort
  have hlength := decimalLength_add_le hpos hlarge
  have hnonzero : ¬d.digits = 0 := Nat.ne_of_gt hpos
  simp only [Decimal.write, numberStyle, hnonzero, decide_false, Bool.false_or]
  rcases Int.lt_or_le d.exponent 0 with hbelow | hwhole
  · obtain ⟨places, hexponent⟩ : ∃ places : Nat, d.exponent = -places :=
      ⟨(-d.exponent).toNat, by omega⟩
    have hnone : d.exponent.toNat = 0 := by omega
    rw [hnone, Nat.pow_zero, Nat.mul_one] at hlarge
    have hbits : d.digits < 1 <<< 53 := Nat.lt_trans hlarge (by decide)
    have hword : d.digits < UInt64.size := Nat.lt_trans hlarge (by decide)
    refine ⟨d.digits, places, by omega, by omega, Magnitude.fits_mul_one hbits, ?_, ?_⟩
    · rw [← hexponent]
    split
    · exact numeral_places (by omega) hexponent hword negative
    · rename_i hscientific
      simp only [Bool.and_eq_true, decide_eq_true_eq] at hscientific
      rw [numeral_scientific rfl (by omega) (by omega) hword negative, hexponent]
  · obtain ⟨e, hexponent⟩ := Int.eq_ofNat_of_zero_le hwhole
    rw [hexponent, Int.toNat_natCast] at hlarge hlength
    have hfirst := Decimal.decimalLength_pos d.digits
    have hpositional : (-5 ≤ d.exponent + (decimalLength d.digits : Int) - 1 &&
        d.exponent + (decimalLength d.digits : Int) - 1 < 16) = true := by
      simp only [Bool.and_eq_true, decide_eq_true_eq]
      omega
    have htwice : d.digits * 10 ^ (e + 1) = 2 * (5 * (d.digits * 10 ^ e)) := by
      rw [Nat.pow_succ, ← Nat.mul_assoc]
      omega
    have hbits : 5 * (d.digits * 10 ^ e) < 1 <<< 53 :=
      Nat.lt_trans (Nat.mul_lt_mul_of_pos_left hlarge (by decide)) (by decide)
    refine ⟨d.digits * 10 ^ (e + 1), 1, by decide, by decide, ?_, ?_, ?_⟩
    · rw [htwice]
      exact fits_twice hbits
    · rw [Decimal.rounded_shift]
      have hvalue : -((1 : Nat) : Int) + (e + 1 : Nat) = d.exponent := by omega
      rw [hvalue]
    · rw [if_pos hpositional]
      exact numeral_whole hpos hexponent hlarge negative

theorem readsBack_of_numeral {m : Magnitude} {negative : Bool}
    (h : numeral negative ((Decimal.shortest m).write numberStyle).toList =
      .ok (.number (.finite negative m), [])) : ReadsBack (.finite negative m) := by
  simp only [ReadsBack, writeNumber, Binary64.isFinite, if_true, Binary64.write,
    String.toList_append]
  cases negative with
  | true =>
    rw [← h]
    exact scalar_minus _
  | false =>
    obtain ⟨c, hc, hdigit⟩ := write_begins numberStyle (Decimal.shortest m)
    obtain ⟨cs, hcs⟩ := List.head?_eq_some_iff.mp hc
    rw [hcs] at h ⊢
    change scalar (c :: cs) = _
    rw [scalar_digit hdigit, h]

/-- Short decimals are read back. -/
theorem readsBack_of_isShort {m : Magnitude} (h : (Decimal.shortest m).IsShort)
    (negative : Bool) : ReadsBack (.finite negative m) := by
  have hvalue := Decimal.rounded_shortest m
  rcases Nat.eq_zero_or_pos (Decimal.shortest m).digits with hzero | hpos
  · have hnothing : (Decimal.shortest m).rounded = 0 := by
      simp [Decimal.rounded, Decimal.numerator, hzero, Grid.round, roundHalfEven]
    obtain rfl : m = .zero := Magnitude.ext (hvalue.symm.trans hnothing)
    cases negative <;> decide +kernel
  · obtain ⟨n, j, hj, hj', hn, hrounded, hread⟩ := numeral_write hpos h negative
    refine readsBack_of_numeral ?_
    rw [hread]
    exact scaled_eq hn hj hj' (hrounded.trans hvalue) negative []

end Json

end Replay
