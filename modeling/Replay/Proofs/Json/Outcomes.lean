import Replay.Proofs.Json.Grammar

/-!
What readers make of strings and numerals, whether they fail or not. Either way it is settled by the
string or the numeral alone: what follows does not matter (`outcome_textBody`,
`Numeral.takes_scalar`).
-/

namespace Replay.Json

open Reader

section Outcomes

variable {α β : Type}

/-- What a reader gives and what it leaves, unless it fails. -/
def outcome (r : Reader α) (cs : List Char) : Option (α × List Char) := (r cs).toOption

theorem outcome_ok {r : Reader α} {cs rest : List Char} {a : α} (h : r cs = .ok (a, rest)) :
    outcome r cs = some (a, rest) := by
  rw [outcome, h]
  rfl

theorem outcome_error {r : Reader α} {cs : List Char} {f : Fault} (h : r cs = .error f) :
    outcome r cs = none := by
  rw [outcome, h]
  rfl

theorem outcome_bind (x : Reader α) (f : α → Reader β) (cs : List Char) :
    outcome (x >>= f) cs = (outcome x cs).bind fun p => outcome (f p.1) p.2 := by
  change Except.toOption (x cs >>= fun p => f p.1 p.2) = _
  unfold outcome
  cases x cs <;> rfl

theorem outcome_bind_ok {x : Reader α} {cs rest : List Char} {a : α} (h : x cs = .ok (a, rest))
    (f : α → Reader β) : outcome (x >>= f) cs = outcome (f a) rest := by
  rw [outcome, bind_ok h]
  rfl

/-- In front of anything that may follow a value, the reader takes this text and gives what is
said, or it fails there. -/
def Takes (r : Reader α) (cs : List Char) (o : Option α) : Prop :=
  ∀ rest, Ends rest → outcome r (cs ++ rest) = o.map (·, rest)

/-- What the reader gives for a text that stands alone. -/
def given (r : Reader α) (cs : List Char) : Option α := (outcome r cs).map (·.1)

theorem Takes.given_eq {r : Reader α} {cs : List Char} {o : Option α} (h : Takes r cs o) :
    given r cs = o := by
  have halone := h [] ends_nil
  rw [List.append_nil] at halone
  rw [given, halone, Option.map_map]
  exact Option.map_id'

end Outcomes

section Strings

variable {a b c d : Char} {n turns : Nat} {rest : List Char}

theorem hexWord_eq (h : Text.number? 16 [a, b, c, d] = some n) (rest : List Char) :
    hexWord (a :: b :: c :: d :: rest) = .ok (n, rest) := by
  simp only [hexWord, h]

/-- The second escape of a pair of surrogates. -/
def lowHalf (n : Nat) : Reader Char := do
  half '\\'
  half 'u'
  let m ← hexWord
  if isLow m then return pairChar n m else fail .loneSurrogate

theorem half_self (c : Char) (rest : List Char) : half c (c :: rest) = .ok ((), rest) := if_pos rfl

theorem half_of_ne (h : c ≠ d) (rest : List Char) : outcome (half d) (c :: rest) = none :=
  outcome_error (if_neg h)

theorem longEscape_eq : longEscape = (do
    let n ← hexWord
    if isLow n then fail .loneSurrogate
    else if isHigh n then lowHalf n
    else return Char.ofNat n) := rfl

theorem outcome_longEscape (h : Text.number? 16 [a, b, c, d] = some n) (rest : List Char) :
    outcome longEscape (a :: b :: c :: d :: rest) =
      if isLow n then none
      else if isHigh n then outcome (lowHalf n) rest
      else some (Char.ofNat n, rest) := by
  rw [longEscape_eq, outcome_bind_ok (hexWord_eq h rest)]
  cases isLow n <;> cases isHigh n <;> rfl

theorem outcome_lowHalf_long {m : Nat} (h : Text.number? 16 [a, b, c, d] = some m) (n : Nat)
    (rest : List Char) :
    outcome (lowHalf n) ((Piece.long a b c d m h).text ++ rest) =
      if isLow m then some (pairChar n m, rest) else none := by
  change outcome (lowHalf n) ('\\' :: 'u' :: a :: b :: c :: d :: rest) = _
  rw [lowHalf, outcome_bind_ok (half_self _ _), outcome_bind_ok (half_self _ _),
    outcome_bind_ok (hexWord_eq h rest)]
  cases isLow m <;> rfl

/-- A pair of surrogates is not continued by what is no escape. -/
theorem outcome_lowHalf_of_ne (hc : c ≠ '\\') (n : Nat) (rest : List Char) :
    outcome (lowHalf n) (c :: rest) = none := by
  rw [lowHalf, outcome_bind, half_of_ne hc]
  rfl

/-- A pair of surrogates is not continued by a short escape. -/
theorem outcome_lowHalf_short (h : shortEscape? c = some d) (n : Nat) (rest : List Char) :
    outcome (lowHalf n) ((Piece.short c d h).text ++ rest) = none := by
  have hc : c ≠ 'u' := by
    rintro rfl
    cases h
  change outcome (lowHalf n) ('\\' :: c :: rest) = none
  rw [lowHalf, outcome_bind_ok (half_self _ _), outcome_bind, half_of_ne hc]
  rfl

/-- What a string up to its quote gives if its first character is given and the others are
read. -/
def behind (turns : Nat) : Char × List Char → Option (List Char × List Char)
  | (c, rest) => (textGo turns rest).toOption.map fun (cs, r) => (c :: cs, r)

theorem toOption_map {α β ε : Type} (f : α → β) (x : Except ε α) :
    (x.map f).toOption = x.toOption.map f := by
  cases x <;> rfl

/-- What is written for a character is read as it, and the rest of the string behind it. -/
theorem behind_of_eq {cs : List Char} {chars : Option (List Char)}
    (h : (textGo turns cs).toOption = chars.map (·, rest)) (c : Char) :
    behind turns (c, cs) = (chars.map (c :: ·)).map (·, rest) := by
  rw [behind, h, Option.map_map, Option.map_map]
  rfl

section Steps

variable (turns : Nat) (cs : List Char)

theorem textGo_plain (h : c ≠ '"' ∧ c ≠ '\\' ∧ 32 ≤ c.toNat) :
    (textGo (turns + 1) ((Piece.plain c h).text ++ cs)).toOption = behind turns (c, cs) := by
  change (textGo (turns + 1) (c :: cs)).toOption = _
  rw [textGo, if_neg h.1, if_neg h.2.1, if_neg (Nat.not_lt.mpr h.2.2), toOption_map]
  rfl

theorem textGo_escape :
    (textGo (turns + 1) ('\\' :: cs)).toOption = (outcome escape cs).bind (behind turns) := by
  have hquote : ('\\' : Char) ≠ '"' := by decide
  rw [textGo, if_neg hquote, if_pos rfl, outcome]
  cases escape cs with
  | error f => rfl
  | ok p => exact toOption_map _ _

theorem textGo_short (h : shortEscape? c = some d) :
    (textGo (turns + 1) ((Piece.short c d h).text ++ cs)).toOption = behind turns (d, cs) := by
  have hescape : escape (c :: cs) = .ok (d, cs) := by simp only [escape, h]
  change (textGo (turns + 1) ('\\' :: c :: cs)).toOption = _
  rw [textGo_escape, outcome_ok hescape]
  rfl

theorem textGo_long (h : Text.number? 16 [a, b, c, d] = some n) :
    (textGo (turns + 1) ((Piece.long a b c d n h).text ++ cs)).toOption =
      (if isLow n then none
        else if isHigh n then outcome (lowHalf n) cs
        else some (Char.ofNat n, cs)).bind (behind turns) := by
  change (textGo (turns + 1) ('\\' :: 'u' :: a :: b :: c :: d :: cs)).toOption = _
  rw [textGo_escape, ← outcome_longEscape h]
  rfl

end Steps

theorem pieces_cons (p : Piece) (ps : List Piece) (rest : List Char) :
    (p :: ps).flatMap Piece.text ++ rest = p.text ++ (ps.flatMap Piece.text ++ rest) := by
  rw [List.flatMap_cons, List.append_assoc]

/-- A pair of surrogates is continued by a long escape only. -/
theorem outcome_lowHalf_pieces {ps : List Piece}
    (hps : ∀ a b c d m h ps', ps = .long a b c d m h :: ps' → False) (n : Nat)
    (rest : List Char) :
    outcome (lowHalf n) (ps.flatMap Piece.text ++ '"' :: rest) = none := by
  cases ps with
  | nil => exact outcome_lowHalf_of_ne (by decide) n rest
  | cons p ps =>
    rw [pieces_cons]
    cases p with
    | plain c h => exact outcome_lowHalf_of_ne h.2.1 n _
    | short c d h => exact outcome_lowHalf_short h n _
    | long a b c d m h => exact (hps a b c d m h ps rfl).elim

/-- A string is read as the characters that its pieces stand for. -/
theorem textGo_pieces (ps : List Piece) (hturns : ps.length < turns) (rest : List Char) :
    (textGo turns (ps.flatMap Piece.text ++ '"' :: rest)).toOption =
      (characters? ps).map (·, rest) := by
  fun_induction characters? ps generalizing turns with
  | case1 =>
    obtain ⟨turns, rfl, -⟩ := exists_turn hturns
    rfl
  | case2 c h ps ih =>
    obtain ⟨turns, rfl, hmore⟩ := exists_turn hturns
    rw [pieces_cons, textGo_plain, behind_of_eq (ih hmore)]
  | case3 c d h ps ih =>
    obtain ⟨turns, rfl, hmore⟩ := exists_turn hturns
    rw [pieces_cons, textGo_short, behind_of_eq (ih hmore)]
  | case4 a b c d n h ps hlow =>
    obtain ⟨turns, rfl, -⟩ := exists_turn hturns
    rw [pieces_cons, textGo_long, if_pos hlow]
    rfl
  | case5 a b c d n h hlow hhigh a' b' c' d' m h' ps hm ih =>
    obtain ⟨turns, rfl, hmore⟩ := exists_turn hturns
    have hless : ps.length < turns := by
      simp only [List.length_cons] at hmore
      omega
    rw [pieces_cons, textGo_long, if_neg hlow, if_pos hhigh, pieces_cons,
      outcome_lowHalf_long, if_pos hm]
    exact behind_of_eq (ih hless) _
  | case6 a b c d n h hlow hhigh a' b' c' d' m h' ps hm =>
    obtain ⟨turns, rfl, -⟩ := exists_turn hturns
    rw [pieces_cons, textGo_long, if_neg hlow, if_pos hhigh, pieces_cons,
      outcome_lowHalf_long, if_neg hm]
    rfl
  | case7 a b c d n h ps hlow hhigh hps =>
    obtain ⟨turns, rfl, -⟩ := exists_turn hturns
    rw [pieces_cons, textGo_long, if_neg hlow, if_pos hhigh, outcome_lowHalf_pieces hps]
    rfl
  | case8 a b c d n h ps hlow hhigh ih =>
    obtain ⟨turns, rfl, hmore⟩ := exists_turn hturns
    rw [pieces_cons, textGo_long, if_neg hlow, if_neg hhigh]
    exact behind_of_eq (ih hmore) _

theorem length_le_pieces (ps : List Piece) : ps.length ≤ (ps.flatMap Piece.text).length := by
  induction ps with
  | nil => exact Nat.le_refl _
  | cons p ps ih =>
    have hpos : 0 < p.text.length := by cases p <;> exact Nat.succ_pos _
    rw [List.flatMap_cons, List.length_append, List.length_cons]
    omega

/-- A string behind its opening quote is read as the one that its pieces stand for. -/
theorem outcome_textBody (ps : List Piece) (rest : List Char) :
    outcome textBody (ps.flatMap Piece.text ++ '"' :: rest) = (string? ps).map (·, rest) := by
  have hlen := length_le_pieces ps
  have hturns : ps.length < (ps.flatMap Piece.text ++ '"' :: rest).length := by
    rw [List.length_append, List.length_cons]
    omega
  rw [outcome, textBody, toOption_map, textGo_pieces ps hturns, string?, Option.map_map,
    Option.map_map]
  rfl

end Strings

section Numerals

/-- The reader takes this text as a double, or it fails there. -/
def TakesNumber (r : Reader Value) (cs : List Char) : Prop :=
  ∃ x : Option Binary64, Takes r cs (x.map .number)

theorem TakesNumber.of_eq {r r' : Reader Value} {cs cs' : List Char} (h : TakesNumber r cs)
    (heq : ∀ rest, Ends rest → r' (cs' ++ rest) = r (cs ++ rest)) : TakesNumber r' cs' := by
  obtain ⟨x, hx⟩ := h
  refine ⟨x, fun rest hrest => ?_⟩
  rw [outcome, heq rest hrest]
  exact hx rest hrest

variable (negative : Bool) (significand : Nat) (power : Int)

theorem takesNumber_scaled : TakesNumber (scaled negative significand power) [] := by
  refine ⟨(scale 3 (Binary64.ofNat significand) power).map
    fun x => if negative then -x else x, fun rest _ => ?_⟩
  rw [List.nil_append, outcome, scaled]
  cases scale 3 (Binary64.ofNat significand) power <;> rfl

/-- The digits of an exponent are read behind its mark and its sign. -/
theorem takesNumber_exponentDigits (minus : Bool) (ds : Digits) :
    TakesNumber (exponentDigits negative significand power minus) ds.chars := by
  obtain ⟨d, cs, hcs⟩ := List.exists_cons_of_ne_nil ds.ne_nil
  have hd : d.isDigit = true := ds.isDigit d (by simp [hcs])
  have hread : ∀ rest, Ends rest →
      outcome (exponentDigits negative significand power minus) (ds.chars ++ rest) =
        if (absorb 0x80000000 0 ds.chars).2.2 = 0 then
          outcome (scaled negative significand
            (if minus then power - (absorb 0x80000000 0 ds.chars).1
              else power + (absorb 0x80000000 0 ds.chars).1)) rest
        else if significand ≠ 0 ∧ ¬ minus then none
        else some (.number (.finite negative .zero), rest) := by
    intro rest hrest
    have htake := takeWhile_digits ds.isDigit hrest.1
    have hdrop := dropWhile_digits ds.isDigit hrest.1
    rw [hcs, List.cons_append] at htake hdrop ⊢
    simp only [outcome, exponentDigits, if_pos hd, htake, hdrop]
    split
    · rfl
    split
    · rfl
    · rfl
  split at hread
  · obtain ⟨x, hx⟩ := takesNumber_scaled negative significand
      (if minus then power - (absorb 0x80000000 0 ds.chars).1
        else power + (absorb 0x80000000 0 ds.chars).1)
    exact ⟨x, fun rest hrest => (hread rest hrest).trans (hx rest hrest)⟩
  split at hread
  · exact ⟨none, hread⟩
  · exact ⟨some (.finite negative .zero), hread⟩

theorem takesNumber_exponentPart (e : Exponent) :
    TakesNumber (exponentPart negative significand power) (e.sign.text ++ e.digits.chars) := by
  have hdigits := fun minus =>
    takesNumber_exponentDigits negative significand power minus e.digits
  cases e.sign with
  | none =>
    refine (hdigits false).of_eq fun rest _ => ?_
    obtain ⟨d, cs, hcs⟩ := List.exists_cons_of_ne_nil e.digits.ne_nil
    have hd : d.isDigit = true := e.digits.isDigit d (by simp [hcs])
    have hplus : d ≠ '+' := ne_of_isDigit hd rfl
    have hminus : d ≠ '-' := ne_of_isDigit hd rfl
    rw [Sign.text, List.nil_append, hcs, List.cons_append, exponentPart_eq, if_neg hplus,
      if_neg hminus]
  | plus =>
    exact (hdigits false).of_eq fun rest _ =>
      exponentPart_eq negative significand power '+' (e.digits.chars ++ rest)
  | minus =>
    exact (hdigits true).of_eq fun rest _ =>
      exponentPart_eq negative significand power '-' (e.digits.chars ++ rest)

theorem takesNumber_exponentOrEnd (e : Option Exponent) :
    TakesNumber (exponentOrEnd negative significand power) (e.elim [] Exponent.text) := by
  cases e with
  | none =>
    refine (takesNumber_scaled negative significand power).of_eq fun rest hrest => ?_
    change exponentOrEnd negative significand power rest = scaled negative significand power rest
    unfold exponentOrEnd
    split
    · exact absurd rfl (hrest.2 'e' rfl).2.1
    · exact absurd rfl (hrest.2 'E' rfl).2.2
    · rfl
  | some e =>
    refine (takesNumber_exponentPart negative significand power e).of_eq fun rest _ => ?_
    change exponentOrEnd negative significand power (e.text ++ rest) = _
    rw [Exponent.text]
    cases e.capital <;> rfl

/-- Neither an exponent nor what may follow a value continues digits. -/
theorem stops_exponent (e : Option Exponent) {rest : List Char} (hrest : Ends rest) :
    Stops (e.elim [] Exponent.text ++ rest) := by
  cases e with
  | none => exact hrest.1
  | some e =>
    change Stops (e.text ++ rest)
    rw [Exponent.text]
    cases e.capital <;> exact stops_cons rfl _

theorem takesNumber_fractionPart (ds : Digits) (e : Option Exponent) :
    TakesNumber (fractionPart negative significand power)
      (ds.chars ++ e.elim [] Exponent.text) := by
  obtain ⟨d, cs, hcs⟩ := List.exists_cons_of_ne_nil ds.ne_nil
  refine (takesNumber_exponentOrEnd negative (absorb UInt64.size significand ds.chars).1
    (power - (absorb UInt64.size significand ds.chars).2.1) e).of_eq fun rest hrest => ?_
  have hstops := stops_exponent e hrest
  rw [List.append_assoc, fractionPart_eq, takeWhile_digits ds.isDigit hstops,
    dropWhile_digits ds.isDigit hstops, hcs]

/-- What may follow a value does not continue whole digits. -/
theorem afterDigits_end (left : Nat) {rest : List Char} (hrest : Ends rest) :
    afterDigits negative significand left rest =
      if left = 0 then .ok (wholeValue negative significand, rest)
      else scaled negative significand left rest := by
  unfold afterDigits
  split
  · exact absurd rfl (hrest.2 '.' rfl).1
  · exact absurd rfl (hrest.2 'e' rfl).2.1
  · exact absurd rfl (hrest.2 'E' rfl).2.2
  · rfl

namespace Numeral

variable (n : Numeral)

/-- There are only whole digits, and they fit a word. -/
def IsWord : Prop :=
  n.fraction = none ∧ n.exponent = none ∧ (absorb UInt64.size 0 n.whole).2.2 = 0

variable {n}

theorem tail_eq_nil (hfraction : n.fraction = none) (hexponent : n.exponent = none) :
    n.tail = [] := by
  rw [tail, hfraction, hexponent]
  rfl

theorem takesNumber_tail (h : ¬ n.IsWord) :
    TakesNumber (afterDigits negative significand (absorb UInt64.size 0 n.whole).2.2) n.tail := by
  generalize hleft : (absorb UInt64.size 0 n.whole).2.2 = left
  cases hfraction : n.fraction with
  | some ds =>
    refine (takesNumber_fractionPart negative significand left ds n.exponent).of_eq
      fun rest _ => ?_
    rw [tail, hfraction]
    rfl
  | none =>
    cases hexponent : n.exponent with
    | some e =>
      refine (takesNumber_exponentPart negative significand left e).of_eq fun rest _ => ?_
      rw [tail, hfraction, hexponent]
      change afterDigits negative significand left (e.text ++ rest) = _
      rw [Exponent.text]
      cases e.capital <;> rfl
    | none =>
      have hne : left ≠ 0 := fun hzero => h ⟨hfraction, hexponent, hleft.trans hzero⟩
      rw [tail_eq_nil hfraction hexponent]
      refine (takesNumber_scaled negative significand left).of_eq fun rest hrest => ?_
      exact (afterDigits_end _ _ _ hrest).trans (if_neg hne)

/-- What follows the whole digits does not continue them. -/
theorem stops_tail (n : Numeral) {rest : List Char} (hrest : Ends rest) :
    Stops (n.tail ++ rest) := by
  rw [tail, List.append_assoc]
  cases n.fraction with
  | none => exact stops_exponent n.exponent hrest
  | some ds => exact stops_cons rfl _

/-- A numeral is read by its sign, its whole digits and what follows them. -/
theorem scalar_text (n : Numeral) {rest : List Char} (hrest : Ends rest) :
    scalar (n.text ++ rest) =
      afterDigits n.negative (absorb UInt64.size 0 n.whole).1 (absorb UInt64.size 0 n.whole).2.2
        (n.tail ++ rest) := by
  have hnumeral := numeral_eq n.canonical (n.stops_tail hrest)
  rw [text, List.append_assoc, List.append_assoc]
  cases n.negative with
  | true => exact (scalar_minus _).trans (hnumeral true)
  | false =>
    obtain ⟨c, cs, hcs⟩ := n.canonical.exists_cons
    have hc : c.isDigit = true := n.canonical.1 c (by simp [hcs])
    refine Eq.trans ?_ (hnumeral false)
    rw [hcs]
    exact scalar_digit hc _

end Numeral

/-- Digits that are all taken make up their number. -/
theorem absorb_of_left_eq_zero {bound m : Nat} {cs : List Char}
    (h : (absorb bound m cs).2.2 = 0) : (absorb bound m cs).1 = Nat.ofDigitChars 10 cs m := by
  induction cs generalizing m with
  | nil => rfl
  | cons c cs ih =>
    have hnext : m * 10 + digitValue c = 10 * m + (c.toNat - '0'.toNat) := by
      rw [digitValue, Nat.mul_comm]
    rw [Nat.ofDigitChars_cons, ← hnext]
    simp only [absorb] at h ⊢
    split
    · rw [if_pos ‹_›] at h
      exact ih h
    · rw [if_neg ‹_›] at h
      cases h

namespace Numeral

variable {n : Numeral}

/-- What a numeral may be read as: any as a double, but only one of whole digits as an integer. -/
inductive Reads (n : Numeral) : Value → Prop where
  | double (x : Binary64) : Reads n (.number x)
  | word (hsign : n.negative = false) (hfraction : n.fraction = none)
    (hexponent : n.exponent = none) : Reads n (.ofNat (Nat.ofDigitChars 10 n.whole 0))
  | minus {k : Nat} (hk : 0 < k) : Reads n (.integer (-k))

/-- Whole digits are read as a double if they are too large, or are a zero with a minus. -/
theorem reads_wholeValue (hfraction : n.fraction = none) (hexponent : n.exponent = none) :
    n.Reads (wholeValue n.negative (Nat.ofDigitChars 10 n.whole 0)) := by
  unfold wholeValue
  cases hsign : n.negative with
  | false => exact .word hsign hfraction hexponent
  | true =>
    by_cases hm : 0 < Nat.ofDigitChars 10 n.whole 0 ∧
        Nat.ofDigitChars 10 n.whole 0 ≤ 0x8000000000000000
    · rw [if_pos rfl, if_pos hm]
      exact .minus hm.1
    · rw [if_pos rfl, if_neg hm]
      exact .double _

/-- A numeral that is read as a word is one. -/
theorem Reads.below {k bound : Nat} (h : n.Reads (.ofNat k)) (hk : k < bound) : n.Below bound := by
  generalize hv : Value.ofNat k = v at h
  cases h with
  | double x => cases hv
  | word hsign hfraction hexponent =>
    have heq : (k : Int) = Nat.ofDigitChars 10 n.whole 0 := Value.integer.inj hv
    exact ⟨hsign, hfraction, hexponent, by omega⟩
  | minus hpos =>
    have heq := Value.integer.inj hv
    omega

/-- What a numeral is read as, and whether it is too large to be read, is settled by the numeral
alone. -/
theorem takes_scalar (n : Numeral) : ∃ o, Takes scalar n.text o ∧ ∀ v ∈ o, n.Reads v := by
  by_cases h : n.IsWord
  · obtain ⟨hfraction, hexponent, hleft⟩ := h
    refine ⟨some (wholeValue n.negative (absorb UInt64.size 0 n.whole).1),
      fun rest hrest => ?_, ?_⟩
    · rw [outcome, n.scalar_text hrest, tail_eq_nil hfraction hexponent, List.nil_append,
        afterDigits_end _ _ _ hrest, if_pos hleft]
      rfl
    · rintro v ⟨⟩
      rw [absorb_of_left_eq_zero hleft]
      exact reads_wholeValue hfraction hexponent
  · obtain ⟨x, hx⟩ := takesNumber_tail n.negative (absorb UInt64.size 0 n.whole).1 h
    refine ⟨x.map .number, fun rest hrest => ?_, fun v hv => ?_⟩
    · rw [outcome, n.scalar_text hrest]
      exact hx rest hrest
    · obtain ⟨y, -, rfl⟩ := Option.map_eq_some_iff.mp hv
      exact .double y

end Numeral

end Numerals

end Replay.Json
