import Replay.Proofs.Json.Strings
import Replay.Json.Numeral

/-!
Numerals in front of other text. Nothing that may stand behind a value continues a numeral, so a
numeral is read in its place as it is alone (`scalar_number_append`). Whole numbers that fit a word
are read back from their digits.
-/

namespace Replay.Json

open Reader

/-- Text that does not continue digits. -/
def Stops (rest : List Char) : Prop := ∀ c ∈ rest.head?, c.isDigit = false

/-- Text that does not continue a numeral. -/
def Ends (rest : List Char) : Prop :=
  Stops rest ∧ ∀ c ∈ rest.head?, c ≠ '.' ∧ c ≠ 'e' ∧ c ≠ 'E'

theorem stops_nil : Stops [] := by simp [Stops]

theorem stops_cons {c : Char} (hc : c.isDigit = false) (rest : List Char) : Stops (c :: rest) := by
  simp [Stops, hc]

theorem ends_nil : Ends [] := by simp [Ends, Stops]

theorem ends_cons {c : Char} (hc : c = ',' ∨ c = ']' ∨ c = '\x7d') (rest : List Char) :
    Ends (c :: rest) := by
  rcases hc with rfl | rfl | rfl <;> simp [Ends, Stops, Char.isDigit]

section Digits

variable {ds rest : List Char}

theorem takeWhile_append_of_stops (hrest : Stops rest) (cs : List Char) :
    (cs ++ rest).takeWhile Char.isDigit = cs.takeWhile Char.isDigit := by
  induction cs with
  | nil =>
    cases rest with
    | nil => rfl
    | cons c rest => exact List.takeWhile_cons_of_neg (by simp [hrest c rfl])
  | cons c cs ih =>
    rw [List.cons_append, List.takeWhile_cons, List.takeWhile_cons, ih]

theorem dropWhile_append_of_stops (hrest : Stops rest) (cs : List Char) :
    (cs ++ rest).dropWhile Char.isDigit = cs.dropWhile Char.isDigit ++ rest := by
  induction cs with
  | nil =>
    cases rest with
    | nil => rfl
    | cons c rest => exact List.dropWhile_cons_of_neg (by simp [hrest c rfl])
  | cons c cs ih =>
    rw [List.cons_append, List.dropWhile_cons, List.dropWhile_cons, ih]
    split <;> rfl

theorem takeWhile_digits (hds : ∀ c ∈ ds, c.isDigit = true) (hrest : Stops rest) :
    (ds ++ rest).takeWhile Char.isDigit = ds := by
  have hnone := takeWhile_append_of_stops hrest []
  rw [List.nil_append] at hnone
  rw [List.takeWhile_append_of_pos hds, hnone, List.takeWhile_nil, List.append_nil]

theorem dropWhile_digits (hds : ∀ c ∈ ds, c.isDigit = true) (hrest : Stops rest) :
    (ds ++ rest).dropWhile Char.isDigit = rest := by
  have hall := dropWhile_append_of_stops hrest []
  rw [List.nil_append] at hall
  rw [List.dropWhile_append_of_pos hds, hall, List.dropWhile_nil, List.nil_append]

end Digits

section InFront

variable {cs rest : List Char} {v : Value}

theorem scaled_append {negative : Bool} {significand : Nat} {exponent : Int}
    (h : scaled negative significand exponent cs = .ok (v, [])) (rest : List Char) :
    cs = [] ∧ scaled negative significand exponent rest = .ok (v, rest) := by
  unfold scaled at h ⊢
  split at h
  · cases h
    exact ⟨rfl, rfl⟩
  · cases h

/-- The exponent behind its sign. -/
def exponentDigits (negative : Bool) (significand : Nat) (exponent : Int) (minus : Bool) :
    Reader Value := fun digits =>
  match digits with
  | [] => .error ⟨.endInValue, [], 0⟩
  | d :: _ =>
    if d.isDigit then
      let ds := digits.takeWhile Char.isDigit
      let rest := digits.dropWhile Char.isDigit
      let (e, taken, left) := absorb 0x80000000 0 ds
      if left = 0 then
        scaled negative significand (if minus then exponent - e else exponent + e) rest
      else if significand ≠ 0 ∧ ¬ minus then .error ⟨.numberOutOfRange, digits.drop (taken + 1), 0⟩
      else .ok (.number (.finite negative .zero), rest)
    else .error ⟨.invalidNumber, digits, 1⟩

theorem exponentPart_eq (negative : Bool) (significand : Nat) (exponent : Int) (c : Char)
    (cs : List Char) :
    exponentPart negative significand exponent (c :: cs) =
      if c = '+' then exponentDigits negative significand exponent false cs
      else if c = '-' then exponentDigits negative significand exponent true cs
      else exponentDigits negative significand exponent false (c :: cs) := by
  split
  · rename_i h
    subst h
    rfl
  split
  · rename_i h
    subst h
    rfl
  · unfold exponentPart
    split
    rename_i hsign
    split at hsign
    · simp_all
    · simp_all
    · cases hsign
      rfl

theorem exponentDigits_append {negative minus : Bool} {significand : Nat} {exponent : Int}
    (h : exponentDigits negative significand exponent minus cs = .ok (v, [])) (hrest : Ends rest) :
    exponentDigits negative significand exponent minus (cs ++ rest) = .ok (v, rest) := by
  cases cs with
  | nil => cases h
  | cons d ds =>
    have htake := takeWhile_append_of_stops hrest.1 (d :: ds)
    have hdrop := dropWhile_append_of_stops hrest.1 (d :: ds)
    rw [List.cons_append] at htake hdrop
    simp only [exponentDigits, List.cons_append, htake, hdrop] at h ⊢
    split at h
    · rename_i hd
      rw [if_pos hd]
      split at h
      · rename_i hleft
        rw [if_pos hleft]
        obtain ⟨hnil, hscaled⟩ := scaled_append h rest
        rw [hnil, List.nil_append, hscaled]
      · rename_i hleft
        rw [if_neg hleft]
        split at h
        · cases h
        · rename_i hlarge
          rw [if_neg hlarge]
          injection h with h
          injection h with hv hnil
          rw [hv, hnil, List.nil_append]
    · cases h

theorem exponentPart_append {negative : Bool} {significand : Nat} {exponent : Int}
    (h : exponentPart negative significand exponent cs = .ok (v, [])) (hrest : Ends rest) :
    exponentPart negative significand exponent (cs ++ rest) = .ok (v, rest) := by
  cases cs with
  | nil => cases h
  | cons c cs =>
    rw [List.cons_append]
    rw [exponentPart_eq] at h ⊢
    split at h
    · rename_i hc
      rw [if_pos hc]
      exact exponentDigits_append h hrest
    rename_i hplus
    rw [if_neg hplus]
    split at h
    · rename_i hc
      rw [if_pos hc]
      exact exponentDigits_append h hrest
    · rename_i hminus
      rw [if_neg hminus]
      exact exponentDigits_append h hrest

/-- A number with its point, in front of its exponent or its end. -/
def exponentOrEnd (negative : Bool) (significand : Nat) (exponent : Int) : Reader Value
  | 'e' :: r => exponentPart negative significand exponent r
  | 'E' :: r => exponentPart negative significand exponent r
  | r => scaled negative significand exponent r

theorem exponentOrEnd_append {negative : Bool} {significand : Nat} {exponent : Int}
    (h : exponentOrEnd negative significand exponent cs = .ok (v, [])) (hrest : Ends rest) :
    exponentOrEnd negative significand exponent (cs ++ rest) = .ok (v, rest) := by
  unfold exponentOrEnd at h
  split at h
  · exact exponentPart_append h hrest
  · exact exponentPart_append h hrest
  · obtain ⟨rfl, hscaled⟩ := scaled_append h rest
    rw [List.nil_append]
    unfold exponentOrEnd
    split
    · exact absurd rfl (hrest.2 'e' rfl).2.1
    · exact absurd rfl (hrest.2 'E' rfl).2.2
    · exact hscaled

theorem fractionPart_eq (negative : Bool) (significand : Nat) (exponent : Int) (cs : List Char) :
    fractionPart negative significand exponent cs =
      match cs.takeWhile Char.isDigit with
      | [] =>
        match cs.dropWhile Char.isDigit with
        | [] => .error ⟨.endInValue, [], 0⟩
        | r => .error ⟨.invalidNumber, r, 1⟩
      | d :: ds =>
        let (n, taken, _) := absorb UInt64.size significand (d :: ds)
        exponentOrEnd negative n (exponent - taken) (cs.dropWhile Char.isDigit) := by
  unfold fractionPart
  generalize cs.takeWhile Char.isDigit = ds
  generalize cs.dropWhile Char.isDigit = r
  cases ds with
  | nil => cases r <;> rfl
  | cons d ds =>
    simp only [exponentOrEnd]
    cases r with
    | nil => rfl
    | cons c r => split <;> simp_all

theorem fractionPart_append {negative : Bool} {significand : Nat} {exponent : Int}
    (h : fractionPart negative significand exponent cs = .ok (v, [])) (hrest : Ends rest) :
    fractionPart negative significand exponent (cs ++ rest) = .ok (v, rest) := by
  rw [fractionPart_eq] at h ⊢
  rw [takeWhile_append_of_stops hrest.1, dropWhile_append_of_stops hrest.1]
  split at h
  · split at h <;> cases h
  · exact exponentOrEnd_append h hrest

theorem afterDigits_append {negative : Bool} {significand left : Nat}
    (h : afterDigits negative significand left cs = .ok (v, [])) (hrest : Ends rest) :
    afterDigits negative significand left (cs ++ rest) = .ok (v, rest) := by
  unfold afterDigits at h
  split at h
  · exact fractionPart_append h hrest
  · exact exponentPart_append h hrest
  · exact exponentPart_append h hrest
  · have hend : cs = [] ∧ (if left = 0 then Except.ok (wholeValue negative significand, rest)
        else scaled negative significand left rest) = .ok (v, rest) := by
      split at h
      · injection h with h
        injection h with hv hnil
        rw [if_pos ‹_›, hv]
        exact ⟨hnil, rfl⟩
      · rw [if_neg ‹_›]
        exact scaled_append h rest
    rw [hend.1, List.nil_append]
    unfold afterDigits
    split
    · exact absurd rfl (hrest.2 '.' rfl).1
    · exact absurd rfl (hrest.2 'e' rfl).2.1
    · exact absurd rfl (hrest.2 'E' rfl).2.2
    · exact hend.2

theorem numeral_append {negative : Bool} (h : numeral negative cs = .ok (v, []))
    (hrest : Ends rest) : numeral negative (cs ++ rest) = .ok (v, rest) := by
  cases cs with
  | nil => cases h
  | cons c cs =>
    have htake := takeWhile_append_of_stops hrest.1 (c :: cs)
    have hdrop := dropWhile_append_of_stops hrest.1 (c :: cs)
    rw [List.cons_append] at htake hdrop
    simp only [numeral, List.cons_append, htake, hdrop] at h ⊢
    split at h
    · rename_i hzero
      rw [if_pos hzero]
      cases cs with
      | nil =>
        cases rest with
        | nil => exact h
        | cons d rest =>
          rw [List.nil_append]
          simp only [hrest.1 d rfl, Bool.false_eq_true, if_false]
          exact afterDigits_append h hrest
      | cons d cs =>
        simp only [List.cons_append] at h ⊢
        split at h
        · cases h
        · rename_i hd
          rw [if_neg hd]
          exact afterDigits_append h hrest
    rename_i hzero
    rw [if_neg hzero]
    split at h
    · rename_i hc
      rw [if_pos hc]
      exact afterDigits_append h hrest
    · cases h

end InFront

section Whole

theorem le_ofDigitChars (cs : List Char) (n : Nat) : n ≤ Nat.ofDigitChars 10 cs n := by
  induction cs generalizing n with
  | nil => exact Nat.le_refl n
  | cons c cs ih =>
    rw [Nat.ofDigitChars_cons]
    refine Nat.le_trans ?_ (ih _)
    omega

/-- Digits of a number below the bound are all taken. -/
theorem absorb_eq {bound n : Nat} (cs : List Char) (h : Nat.ofDigitChars 10 cs n < bound) :
    absorb bound n cs = (Nat.ofDigitChars 10 cs n, cs.length, 0) := by
  induction cs generalizing n with
  | nil => rfl
  | cons c cs ih =>
    have hnext : n * 10 + digitValue c = 10 * n + (c.toNat - '0'.toNat) := by
      rw [digitValue, Nat.mul_comm]
    rw [Nat.ofDigitChars_cons, ← hnext] at h ⊢
    have hlt : n * 10 + digitValue c < bound := Nat.lt_of_le_of_lt (le_ofDigitChars cs _) h
    simp only [absorb, hlt, if_true, ih h, List.length_cons]

/-- The digits of a positive number do not begin with zero. -/
theorem toDigits_eq_cons {n : Nat} (hn : 0 < n) :
    ∃ c cs, Nat.toDigits 10 n = c :: cs ∧ c ≠ '0' := by
  induction n using Nat.strongRecOn with
  | ind n ih =>
    by_cases hlt : n < 10
    · have hdigit : ∀ n < 10, 0 < n → Nat.digitChar n ≠ '0' := by decide
      exact ⟨_, [], Nat.toDigits_of_lt_base hlt, hdigit n hlt hn⟩
    · have hle : 10 ≤ n := Nat.le_of_not_lt hlt
      obtain ⟨c, cs, hcs, hc⟩ := ih (n / 10) (Nat.div_lt_self hn (by decide)) (by omega)
      rw [Nat.toDigits_of_base_le (by decide) hle, hcs]
      exact ⟨c, cs ++ [Nat.digitChar (n % 10)], rfl, hc⟩

/-- Digits as a number is written: no zero stands in front of other digits. -/
def Canonical (ds : List Char) : Prop :=
  (∀ c ∈ ds, c.isDigit = true) ∧ (ds = ['0'] ∨ ∃ c cs, ds = c :: cs ∧ c ≠ '0')

theorem canonical_toDigits (n : Nat) : Canonical (Nat.toDigits 10 n) := by
  refine ⟨fun c hc => Nat.isDigit_of_mem_toDigits (by decide) (by decide) hc, ?_⟩
  rcases Nat.eq_zero_or_pos n with rfl | hpos
  · exact Or.inl rfl
  · exact Or.inr (toDigits_eq_cons hpos)

theorem Canonical.exists_cons {ds : List Char} (h : Canonical ds) : ∃ c cs, ds = c :: cs := by
  rcases h.2 with rfl | ⟨c, cs, rfl, -⟩
  · exact ⟨'0', [], rfl⟩
  · exact ⟨c, cs, rfl⟩

theorem Canonical.take {ds : List Char} (h : Canonical ds) {n : Nat} (hn : 0 < n) :
    Canonical (ds.take n) := by
  obtain ⟨n, rfl⟩ := Nat.exists_eq_succ_of_ne_zero (Nat.ne_of_gt hn)
  refine ⟨fun c hc => h.1 c (List.mem_of_mem_take hc), ?_⟩
  rcases h.2 with rfl | ⟨c, cs, rfl, hc⟩
  · exact Or.inl (by simp)
  · exact Or.inr ⟨c, cs.take n, rfl, hc⟩

/-- Of the digits in front of a point, an exponent or the end, as many are taken as fit a word. -/
theorem numeral_eq {ds rest : List Char} (hds : Canonical ds) (hrest : Stops rest)
    (negative : Bool) :
    numeral negative (ds ++ rest) =
      afterDigits negative (absorb UInt64.size 0 ds).1 (absorb UInt64.size 0 ds).2.2 rest := by
  obtain ⟨hdigits, rfl | ⟨c, cs, rfl, hc⟩⟩ := hds
  · cases rest with
    | nil => rfl
    | cons d rest =>
      have hd := hrest d rfl
      rw [List.singleton_append, numeral, if_pos rfl]
      simp only [hd, Bool.false_eq_true, if_false]
      rfl
  · have htake := takeWhile_digits hdigits hrest
    have hdrop := dropWhile_digits hdigits hrest
    rw [List.cons_append] at htake hdrop ⊢
    simp only [numeral, if_neg hc, hdigits c List.mem_cons_self, if_true, htake, hdrop]

/-- The digits in front of a point, an exponent or the end are read as their number. -/
theorem numeral_digits {ds rest : List Char} (hds : Canonical ds)
    (hlt : Nat.ofDigitChars 10 ds 0 < UInt64.size) (hrest : Stops rest) (negative : Bool) :
    numeral negative (ds ++ rest) =
      afterDigits negative (Nat.ofDigitChars 10 ds 0) 0 rest := by
  rw [numeral_eq hds hrest, absorb_eq ds hlt]

/-- A whole number that fits a word is read from its digits. -/
theorem numeral_toDigits {n : Nat} (hn : n < UInt64.size) (negative : Bool) :
    numeral negative (Nat.toDigits 10 n) = .ok (wholeValue negative n, []) := by
  have hnumber := Nat.ofDigitChars_ten_toDigits (n := n)
  have hread := numeral_digits (canonical_toDigits n) (by rw [hnumber]; exact hn) stops_nil negative
  rw [List.append_nil, hnumber] at hread
  exact hread

end Whole

/-- Text that begins with a digit. -/
def BeginsWithDigit (cs : List Char) : Prop := ∃ c ∈ cs.head?, c.isDigit = true

theorem BeginsWithDigit.append {cs : List Char} (h : BeginsWithDigit cs) (rest : List Char) :
    BeginsWithDigit (cs ++ rest) := by
  obtain ⟨c, hc, hdigit⟩ := h
  refine ⟨c, ?_, hdigit⟩
  rw [List.head?_append, Option.mem_def.mp hc]
  rfl

theorem toDigits_begins (n : Nat) : BeginsWithDigit (Nat.toDigits 10 n) := by
  obtain ⟨c, cs, hcs⟩ := List.exists_cons_of_ne_nil (Nat.toDigits_ne_nil (n := n) (b := 10))
  have hmem : c ∈ Nat.toDigits 10 n := by simp [hcs]
  exact ⟨c, by simp [hcs], Nat.isDigit_of_mem_toDigits (by decide) (by decide) hmem⟩

section Doubles

theorem writePositional_begins (pointZero : Bool) (d : Decimal) :
    BeginsWithDigit (d.writePositional pointZero).toList := by
  have hdigits := toDigits_begins d.digits
  unfold Decimal.writePositional
  split
  · simp only [String.toList_append, Nat.toList_repr]
    exact (hdigits.append _).append _
  · simp only [Nat.toList_repr]
    split
    · rename_i e _ hplaces
      obtain ⟨c, hc, hdigit⟩ := hdigits
      obtain ⟨cs, hcs⟩ := List.head?_eq_some_iff.mp hc
      obtain ⟨whole, hwhole⟩ := Nat.exists_eq_add_of_lt hplaces
      simp only [String.toList_append, String.toList_ofList]
      refine BeginsWithDigit.append (BeginsWithDigit.append ⟨c, ?_, hdigit⟩ _) _
      have htake : (Nat.toDigits 10 d.digits).length - (e + 1) = whole + 1 := by omega
      rw [htake, hcs]
      rfl
    · simp only [String.toList_append]
      exact (BeginsWithDigit.append ⟨'0', rfl, rfl⟩ _).append _

theorem writeScientific_begins (plus : Bool) (first : Int) (d : Decimal) :
    BeginsWithDigit (d.writeScientific plus first).toList := by
  obtain ⟨c, hc, hdigit⟩ := toDigits_begins d.digits
  obtain ⟨cs, hcs⟩ := List.head?_eq_some_iff.mp hc
  simp only [Decimal.writeScientific, Nat.toList_repr, hcs]
  cases cs with
  | nil => exact ⟨c, by simp, hdigit⟩
  | cons c' cs => exact ⟨c, by simp, hdigit⟩

theorem write_begins (style : Decimal.Style) (d : Decimal) :
    BeginsWithDigit (d.write style).toList := by
  simp only [Decimal.write]
  split
  · exact writePositional_begins _ _
  · exact writeScientific_begins _ _ _

/-- The text of a double that is finite: a sign or a digit comes first. -/
theorem writeNumber_begins {x : Binary64} (hx : x.isFinite = true) :
    ∃ c ∈ (writeNumber x).head?, c = '-' ∨ c.isDigit = true := by
  cases x with
  | nan => cases hx
  | infinite negative => cases hx
  | finite negative m =>
    simp only [writeNumber, Binary64.isFinite, Binary64.write, if_true, String.toList_append]
    cases negative with
    | true => exact ⟨'-', rfl, Or.inl rfl⟩
    | false =>
      obtain ⟨c, hc, hdigit⟩ := write_begins numberStyle (Decimal.shortest m)
      exact ⟨c, hc, Or.inr hdigit⟩

end Doubles

section Scalar

theorem ne_of_isDigit {c d : Char} (hc : c.isDigit = true) (hd : d.isDigit = false) : c ≠ d := by
  rintro rfl
  rw [hc] at hd
  cases hd

theorem isBlank_of_isDigit {c : Char} (hc : c.isDigit = true) : isBlank c = false := by
  have hspace : c ≠ ' ' := ne_of_isDigit hc rfl
  have hfeed : c ≠ '\n' := ne_of_isDigit hc rfl
  have htab : c ≠ '\t' := ne_of_isDigit hc rfl
  have hreturn : c ≠ '\r' := ne_of_isDigit hc rfl
  simp [isBlank, hspace, hfeed, htab, hreturn]

theorem scalar_minus (cs : List Char) : scalar ('-' :: cs) = numeral true cs := by
  rw [scalar, bind_ok (token_cons rfl cs)]
  rfl

theorem scalar_digit {c : Char} (hc : c.isDigit = true) (cs : List Char) :
    scalar (c :: cs) = numeral false (c :: cs) := by
  have hn : c ≠ 'n' := ne_of_isDigit hc rfl
  have ht : c ≠ 't' := ne_of_isDigit hc rfl
  have hf : c ≠ 'f' := ne_of_isDigit hc rfl
  have hminus : c ≠ '-' := ne_of_isDigit hc rfl
  rw [scalar, bind_ok (token_cons (isBlank_of_isDigit hc) cs)]
  simp only [if_neg hn, if_neg ht, if_neg hf, if_neg hminus, if_pos hc]

/-- The reader of numbers gives a double back from its text. -/
def ReadsBack (x : Binary64) : Prop := scalar (writeNumber x) = .ok (.number x, [])

variable {x : Binary64} {rest : List Char}

/-- What the reader of numbers makes of the text of a double. -/
def readBack? (x : Binary64) : Option Binary64 :=
  match scalar (writeNumber x) with
  | .ok (.number y, []) => some y
  | _ => none

theorem readBack?_eq_some_iff : readBack? x = some x ↔ ReadsBack x := by
  unfold readBack? ReadsBack
  split
  · rename_i y h
    rw [h]
    simp
  · rename_i h
    constructor
    · intro hx
      cases hx
    · intro hx
      exact absurd hx (h x)

instance : Decidable (ReadsBack x) := decidable_of_iff _ readBack?_eq_some_iff

/-- What is not finite is written as a word. -/
theorem ReadsBack.isFinite (h : ReadsBack x) : x.isFinite = true := by
  cases x with
  | nan => cases h
  | infinite negative => cases h
  | finite negative m => rfl

/-- A double that is read back is read back in its place in a text. -/
theorem ReadsBack.scalar_append (h : ReadsBack x) (hrest : Ends rest) :
    scalar (writeNumber x ++ rest) = .ok (.number x, rest) := by
  obtain ⟨c, hhead, hc⟩ := writeNumber_begins h.isFinite
  obtain ⟨cs, hcs⟩ := List.head?_eq_some_iff.mp hhead
  rw [ReadsBack, hcs] at h
  rw [hcs, List.cons_append]
  rcases hc with rfl | hc
  · rw [scalar_minus] at h ⊢
    exact numeral_append h hrest
  · rw [scalar_digit hc] at h ⊢
    exact numeral_append h hrest

/-- A whole number that fits a word is read back in its place in a text. -/
theorem scalar_writeInteger {n : Nat} (hn : n < UInt64.size) (hrest : Ends rest) :
    scalar (writeInteger n ++ rest) = .ok (.integer n, rest) := by
  have hwrite : writeInteger n = Nat.toDigits 10 n := if_neg (by omega)
  obtain ⟨c, hhead, hc⟩ := toDigits_begins n
  obtain ⟨cs, hcs⟩ := List.head?_eq_some_iff.mp hhead
  have h := numeral_append (numeral_toDigits hn false) hrest
  rw [hcs] at h
  rw [hwrite, hcs, List.cons_append, scalar_digit hc]
  exact h

end Scalar

end Replay.Json
