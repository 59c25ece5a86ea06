import Replay.Text.Base64

/-!
Base64 is read back. The reader is the strict one of the standard: it knows the alphabet by its
ranges, takes padding at the end only, and refuses bits that no byte was made of. Main statement:
`decode?_eq_some_iff`, what it reads is what was written, and there is one way to write it.
-/

namespace Replay.Base64

/-- The number that a character of the alphabet stands for. -/
def value? (c : Char) : Option Nat :=
  if 'A'.toNat ≤ c.toNat ∧ c.toNat ≤ 'Z'.toNat then some (c.toNat - 'A'.toNat)
  else if 'a'.toNat ≤ c.toNat ∧ c.toNat ≤ 'z'.toNat then some (c.toNat - 'a'.toNat + 26)
  else if '0'.toNat ≤ c.toNat ∧ c.toNat ≤ '9'.toNat then some (c.toNat - '0'.toNat + 52)
  else if c = '+' then some 62
  else if c = '/' then some 63
  else none

/-- Two characters before `==`. -/
def one? (a b : Char) : Option Bytes := do
  let n := (← value? a) * 64 + (← value? b)
  if n % 16 = 0 then some [UInt8.ofNat (n / 16)] else none

/-- Three characters before `=`. -/
def two? (a b c : Char) : Option Bytes := do
  let n := ((← value? a) * 64 + (← value? b)) * 64 + (← value? c)
  if n % 4 = 0 then some [UInt8.ofNat (n / 1024), UInt8.ofNat (n / 4)] else none

/-- Four characters. -/
def three? (a b c d : Char) : Option Bytes := do
  let n := (((← value? a) * 64 + (← value? b)) * 64 + (← value? c)) * 64 + (← value? d)
  return [UInt8.ofNat (n / 65536), UInt8.ofNat (n / 256), UInt8.ofNat n]

def decode? : List Char → Option Bytes
  | [] => some []
  | a :: b :: c :: d :: rest =>
    if d = '=' ∧ rest = [] then
      if c = '=' then one? a b else two? a b c
    else do
      return (← three? a b c d) ++ (← decode? rest)
  | _ => none

theorem digit_mod (n : Nat) : digit (n % 64) = digit n := by
  rw [digit, digit, Nat.mod_mod]

theorem value?_digit (n : Nat) : value? (digit n) = some (n % 64) := by
  have hall : ∀ k < 64, value? (digit k) = some k := by decide +kernel
  rw [← digit_mod]
  exact hall _ (Nat.mod_lt _ (by decide))

theorem digit_ne_padding (n : Nat) : digit n ≠ '=' := by
  have hnone : value? '=' = none := by decide
  intro h
  have hdigit := value?_digit n
  rw [h, hnone] at hdigit
  cases hdigit

theorem value?_eq_some {c : Char} {n : Nat} (h : value? c = some n) : n < 64 ∧ digit n = c := by
  have hall : ∀ k < 128, ∀ v ∈ value? (Char.ofNat k), v < 64 ∧ digit v = Char.ofNat k := by
    decide +kernel
  have hascii : c.toNat < 128 := by
    refine Nat.lt_of_not_le fun hlarge => ?_
    simp only [value?, Char.reduceToNat] at h
    rw [if_neg (by omega), if_neg (by omega), if_neg (by omega), if_neg, if_neg] at h
    · cases h
    · rintro rfl
      exact absurd hlarge (by decide)
    · rintro rfl
      exact absurd hlarge (by decide)
  have hc := hall c.toNat hascii n
  rw [Char.ofNat_toNat] at hc
  exact hc h

theorem one?_digit {n : Nat} (h : n < 64 * 64) : one? (digit (n / 64)) (digit n) =
    if n % 16 = 0 then some [UInt8.ofNat (n / 16)] else none := by
  have hn : n / 64 % 64 * 64 + n % 64 = n := by omega
  simp only [one?, value?_digit, Option.bind_eq_bind, Option.bind_some, hn]

theorem two?_digit {n : Nat} (h : n < 64 * 64 * 64) :
    two? (digit (n / 4096)) (digit (n / 64)) (digit n) =
      if n % 4 = 0 then some [UInt8.ofNat (n / 1024), UInt8.ofNat (n / 4)] else none := by
  have hn : (n / 4096 % 64 * 64 + n / 64 % 64) * 64 + n % 64 = n := by omega
  simp only [two?, value?_digit, Option.bind_eq_bind, Option.bind_some, hn]

theorem three?_digit {n : Nat} (h : n < 64 * 64 * 64 * 64) :
    three? (digit (n / 262144)) (digit (n / 4096)) (digit (n / 64)) (digit n) =
      some [UInt8.ofNat (n / 65536), UInt8.ofNat (n / 256), UInt8.ofNat n] := by
  have hn : ((n / 262144 % 64 * 64 + n / 4096 % 64) * 64 + n / 64 % 64) * 64 + n % 64 = n := by
    omega
  simp only [three?, value?_digit, Option.bind_eq_bind, Option.bind_some, Option.pure_def, hn]

theorem ofNat_eq {n : Nat} {b : UInt8} (h : n % 256 = b.toNat) : UInt8.ofNat n = b := by
  apply UInt8.toNat_inj.mp
  rw [UInt8.toNat_ofNat', h]

theorem decode?_encode (bs : Bytes) : decode? (encode bs) = some bs := by
  fun_induction encode bs with
  | case1 => rfl
  | case2 a n =>
    have ha := a.toNat_lt
    have hbyte : UInt8.ofNat (n / 16) = a := ofNat_eq (by omega)
    rw [decode?, if_pos ⟨rfl, rfl⟩, if_pos rfl, one?_digit (by omega), if_pos (by omega), hbyte]
  | case3 a b n =>
    have ha := a.toNat_lt
    have hb := b.toNat_lt
    have hbyte : UInt8.ofNat (n / 1024) = a := ofNat_eq (by omega)
    have hbyte' : UInt8.ofNat (n / 4) = b := ofNat_eq (by omega)
    rw [decode?, if_pos ⟨rfl, rfl⟩, if_neg (digit_ne_padding n), two?_digit (by omega),
      if_pos (by omega), hbyte, hbyte']
  | case4 a b c rest n ih =>
    have ha := a.toNat_lt
    have hb := b.toNat_lt
    have hc := c.toNat_lt
    have hbyte : UInt8.ofNat (n / 65536) = a := ofNat_eq (by omega)
    have hbyte' : UInt8.ofNat (n / 256) = b := ofNat_eq (by omega)
    have hbyte'' : UInt8.ofNat n = c := ofNat_eq (by omega)
    rw [decode?, if_neg fun h => digit_ne_padding n h.1, three?_digit (by omega), ih, hbyte, hbyte',
      hbyte'']
    rfl

theorem digit_eq {c : Char} {m n : Nat} (h : value? c = some n) (hm : m % 64 = n) :
    digit m = c := by
  rw [← digit_mod, hm]
  exact (value?_eq_some h).2

theorem encode_of_one? {a b : Char} {bs : Bytes} (h : one? a b = some bs) :
    encode bs = [a, b, '=', '='] := by
  obtain ⟨x, hx, h⟩ := Option.bind_eq_some_iff.mp h
  obtain ⟨y, hy, h⟩ := Option.bind_eq_some_iff.mp h
  obtain ⟨hmod, h⟩ := Option.ite_none_right_eq_some.mp h
  have hxlt := (value?_eq_some hx).1
  have hylt := (value?_eq_some hy).1
  obtain rfl := Option.some.inj h
  generalize hn : x * 64 + y = n at hmod
  have hbyte : (UInt8.ofNat (n / 16)).toNat * 16 = n := by
    rw [UInt8.toNat_ofNat']
    omega
  rw [encode, hbyte, digit_eq hx (by omega), digit_eq hy (by omega)]

theorem encode_of_two? {a b c : Char} {bs : Bytes} (h : two? a b c = some bs) :
    encode bs = [a, b, c, '='] := by
  obtain ⟨x, hx, h⟩ := Option.bind_eq_some_iff.mp h
  obtain ⟨y, hy, h⟩ := Option.bind_eq_some_iff.mp h
  obtain ⟨z, hz, h⟩ := Option.bind_eq_some_iff.mp h
  obtain ⟨hmod, h⟩ := Option.ite_none_right_eq_some.mp h
  have hxlt := (value?_eq_some hx).1
  have hylt := (value?_eq_some hy).1
  have hzlt := (value?_eq_some hz).1
  obtain rfl := Option.some.inj h
  generalize hn : (x * 64 + y) * 64 + z = n at hmod
  have hbytes : ((UInt8.ofNat (n / 1024)).toNat * 256 + (UInt8.ofNat (n / 4)).toNat) * 4 = n := by
    rw [UInt8.toNat_ofNat', UInt8.toNat_ofNat']
    omega
  rw [encode, hbytes, digit_eq hx (by omega), digit_eq hy (by omega), digit_eq hz (by omega)]

theorem encode_of_three? {a b c d : Char} {bs : Bytes} (h : three? a b c d = some bs)
    (rest : Bytes) : encode (bs ++ rest) = a :: b :: c :: d :: encode rest := by
  obtain ⟨x, hx, h⟩ := Option.bind_eq_some_iff.mp h
  obtain ⟨y, hy, h⟩ := Option.bind_eq_some_iff.mp h
  obtain ⟨z, hz, h⟩ := Option.bind_eq_some_iff.mp h
  obtain ⟨u, hu, h⟩ := Option.bind_eq_some_iff.mp h
  have hxlt := (value?_eq_some hx).1
  have hylt := (value?_eq_some hy).1
  have hzlt := (value?_eq_some hz).1
  have hult := (value?_eq_some hu).1
  obtain rfl := Option.some.inj h
  generalize hn : ((x * 64 + y) * 64 + z) * 64 + u = n
  have hbytes : ((UInt8.ofNat (n / 65536)).toNat * 256 + (UInt8.ofNat (n / 256)).toNat) * 256 +
      (UInt8.ofNat n).toNat = n := by
    rw [UInt8.toNat_ofNat', UInt8.toNat_ofNat', UInt8.toNat_ofNat']
    omega
  rw [List.cons_append, List.cons_append, List.singleton_append, encode, hbytes,
    digit_eq hx (by omega), digit_eq hy (by omega), digit_eq hz (by omega), digit_eq hu (by omega)]

/-- Only what was written is read. -/
theorem encode_of_decode? {t : List Char} {bs : Bytes} (h : decode? t = some bs) :
    encode bs = t := by
  fun_induction decode? t generalizing bs with
  | case1 =>
    cases h
    rfl
  | case2 a b d rest hlast =>
    obtain ⟨rfl, rfl⟩ := hlast
    exact encode_of_one? h
  | case3 a b c d rest hlast =>
    obtain ⟨rfl, rfl⟩ := hlast
    exact encode_of_two? h
  | case4 a b c d rest hgroup ih =>
    obtain ⟨bytes, hbytes, h⟩ := Option.bind_eq_some_iff.mp h
    obtain ⟨others, hothers, h⟩ := Option.bind_eq_some_iff.mp h
    obtain rfl := Option.some.inj h
    rw [encode_of_three? hbytes, ih hothers]
  | case5 => cases h

theorem decode?_eq_some_iff {t : List Char} {bs : Bytes} :
    decode? t = some bs ↔ t = encode bs :=
  ⟨fun h => (encode_of_decode? h).symm, fun h => h ▸ decode?_encode bs⟩

/-- Of every length modulo three, and one that is padded and has bits left over. -/
example : decode? "AP+A/w==".toList = some [0, 255, 128, 255] ∧ decode? "/wA=".toList = some [255, 0] ∧
    decode? "/wB=".toList = none := by decide

end Replay.Base64
