import Replay.Bytes

/-!
UTF-8. Decoding goes from left to right; bytes that no character starts with are taken off in
parts that are as long as a character could have gone on.
-/

namespace Replay.Utf8

def encode (cs : List Char) : Bytes := cs.flatMap String.utf8EncodeChar

def ofString (s : String) : Bytes := encode s.toList

/-- How a character of several bytes begins: the number of bytes that follow the first, the bounds
of the second byte, and the bits of the first. The bounds leave out long forms, surrogates and
what lies beyond the last character. -/
structure Lead where
  more : Nat
  low : UInt8
  high : UInt8
  bits : Nat

def lead? (b : UInt8) : Option Lead :=
  if 0xC2 ≤ b && b ≤ 0xDF then some ⟨1, 0x80, 0xBF, b.toNat - 0xC0⟩
  else if b = 0xE0 then some ⟨2, 0xA0, 0xBF, 0⟩
  else if b = 0xED then some ⟨2, 0x80, 0x9F, 13⟩
  else if 0xE1 ≤ b && b ≤ 0xEF then some ⟨2, 0x80, 0xBF, b.toNat - 0xE0⟩
  else if b = 0xF0 then some ⟨3, 0x90, 0xBF, 0⟩
  else if 0xF1 ≤ b && b ≤ 0xF3 then some ⟨3, 0x80, 0xBF, b.toNat - 0xF0⟩
  else if b = 0xF4 then some ⟨3, 0x80, 0x8F, 4⟩
  else none

/-- The bytes that go on with a character; `none` if one of them is missing. -/
def goOn : (more : Nat) → (bits : Nat) → Bytes → Option Char × Bytes
  | 0, bits, rest => (some (Char.ofNat bits), rest)
  | _ + 1, _, [] => (none, [])
  | more + 1, bits, b :: rest =>
    if 0x80 ≤ b && b ≤ 0xBF then goOn more (bits * 64 + b.toNat % 64) rest else (none, b :: rest)

/-- Takes a character or a wrong part off the front. -/
def front (b : UInt8) (rest : Bytes) : Option Char × Bytes :=
  if b < 0x80 then (some (Char.ofNat b.toNat), rest)
  else
    match lead? b, rest with
    | none, rest => (none, rest)
    | some _, [] => (none, [])
    | some lead, c :: rest =>
      if lead.low ≤ c && c ≤ lead.high then
        goOn (lead.more - 1) (lead.bits * 64 + c.toNat % 64) rest
      else (none, c :: rest)

theorem length_goOn (more bits : Nat) (bs : Bytes) : (goOn more bits bs).2.length ≤ bs.length := by
  induction bs generalizing more bits with
  | nil => cases more <;> simp [goOn]
  | cons b rest ih =>
    cases more with
    | zero => simp [goOn]
    | succ more =>
      simp only [goOn]
      split
      · exact Nat.le_succ_of_le (ih _ _)
      · exact Nat.le_refl _

theorem length_front (b : UInt8) (rest : Bytes) : (front b rest).2.length ≤ rest.length := by
  unfold front
  split
  · exact Nat.le_refl _
  · split
    · exact Nat.le_refl _
    · exact Nat.le_refl _
    · split
      · exact Nat.le_succ_of_le (length_goOn _ _ _)
      · exact Nat.le_refl _

/-- The characters of a string of bytes, and `none` for each wrong part. -/
def parts : Bytes → List (Option Char)
  | [] => []
  | b :: rest => (front b rest).1 :: parts (front b rest).2
termination_by bs => bs.length
decreasing_by
  have := length_front b rest
  simp only [List.length_cons]
  omega

def replacement : Char := Char.ofNat 0xFFFD

def decodeLossy (bs : Bytes) : List Char := (parts bs).map (·.getD replacement)

def decode? (bs : Bytes) : Option (List Char) := (parts bs).mapM id

end Replay.Utf8
