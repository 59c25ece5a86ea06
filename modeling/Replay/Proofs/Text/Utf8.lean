import Replay.Text.Utf8

/-!
UTF-8 is read back, whatever stands around it. What `front` takes off is a character with the bytes
that encode it, or bytes in which no character is encoded. Main statements: `decodeLossy_around`,
encoded characters are kept wherever they stand; `parted_parts`, all else is replaced;
`decode?_eq_some_iff`, the strict reader reads what was written.
-/

namespace Replay.Utf8

/-- The bytes that encode one character, with its number: the first one has the highest bits, and
each other one has six. No number has a longer form, and surrogates have none. -/
inductive Encodes : Bytes → Nat → Prop where
  | one {n : Nat} (h : n < 128) : Encodes [UInt8.ofNat n] n
  | two {n x : Nat} (hn : 2 ≤ n ∧ n < 32) (hx : x < 64) :
      Encodes [UInt8.ofNat (n + 192), UInt8.ofNat (x + 128)] (n * 64 + x)
  | three {n x y : Nat} (hn : n < 16) (hx : x < 64) (hy : y < 64) (hshort : n = 0 → 32 ≤ x)
      (hsurrogate : n = 13 → x < 32) :
      Encodes [UInt8.ofNat (n + 224), UInt8.ofNat (x + 128), UInt8.ofNat (y + 128)]
        ((n * 64 + x) * 64 + y)
  | four {n x y z : Nat} (hn : n < 5) (hx : x < 64) (hy : y < 64) (hz : z < 64)
      (hshort : n = 0 → 16 ≤ x) (hlarge : n = 4 → x < 16) :
      Encodes [UInt8.ofNat (n + 240), UInt8.ofNat (x + 128), UInt8.ofNat (y + 128),
        UInt8.ofNat (z + 128)] (((n * 64 + x) * 64 + y) * 64 + z)

theorem encodes_utf8EncodeChar (c : Char) : Encodes (String.utf8EncodeChar c) c.toNat := by
  have hvalid : c.val.toNat < 0xD800 ∨ 0xDFFF < c.val.toNat ∧ c.val.toNat < 0x110000 := c.valid
  change Encodes _ c.val.toNat
  unfold String.utf8EncodeChar
  generalize c.val.toNat = v at hvalid ⊢
  dsimp only
  split
  · exact .one (by omega)
  · split
    · have h := Encodes.two (n := v / 64 % 32) (x := v % 64) (by omega) (by omega)
      rwa [show v / 64 % 32 * 64 + v % 64 = v by omega] at h
    · split
      · have h := Encodes.three (n := v / 4096 % 16) (x := v / 64 % 64) (y := v % 64) (by omega)
          (by omega) (by omega) (by omega) (by omega)
        rwa [show (v / 4096 % 16 * 64 + v / 64 % 64) * 64 + v % 64 = v by omega] at h
      · have h := Encodes.four (n := v / 262144 % 8) (x := v / 4096 % 64) (y := v / 64 % 64)
          (z := v % 64) (by omega) (by omega) (by omega) (by omega) (by omega) (by omega)
        rwa [show ((v / 262144 % 8 * 64 + v / 4096 % 64) * 64 + v / 64 % 64) * 64 + v % 64 = v by
          omega] at h

theorem Encodes.valid {bs : Bytes} {v : Nat} (h : Encodes bs v) : v.isValidChar := by
  cases h with
  | one h => exact Or.inl (by omega)
  | two => exact Or.inl (by omega)
  | three =>
    unfold Nat.isValidChar
    omega
  | four => exact Or.inr (by omega)

/-- There is one way to encode a character. -/
theorem Encodes.eq_utf8EncodeChar {bs : Bytes} {v : Nat} (h : Encodes bs v) :
    String.utf8EncodeChar (Char.ofNat v) = bs := by
  have hv : (Char.ofNat v).val.toNat = v := by
    rw [Char.ofNat, dif_pos h.valid]
    rfl
  unfold String.utf8EncodeChar
  rw [hv]
  dsimp only
  cases h with
  | one h => rw [if_pos (by omega)]
  | @two n x =>
    have hn : (n * 64 + x) / 64 % 32 = n := by omega
    have hx : (n * 64 + x) % 64 = x := by omega
    rw [if_neg (by omega), if_pos (by omega), hn, hx]
  | @three n x y =>
    have hn : ((n * 64 + x) * 64 + y) / 4096 % 16 = n := by omega
    have hx : ((n * 64 + x) * 64 + y) / 64 % 64 = x := by omega
    have hy : ((n * 64 + x) * 64 + y) % 64 = y := by omega
    rw [if_neg (by omega), if_neg (by omega), if_pos (by omega), hn, hx, hy]
  | @four n x y z =>
    have hn : (((n * 64 + x) * 64 + y) * 64 + z) / 262144 % 8 = n := by omega
    have hx : (((n * 64 + x) * 64 + y) * 64 + z) / 4096 % 64 = x := by omega
    have hy : (((n * 64 + x) * 64 + y) * 64 + z) / 64 % 64 = y := by omega
    have hz : (((n * 64 + x) * 64 + y) * 64 + z) % 64 = z := by omega
    rw [if_neg (by omega), if_neg (by omega), if_neg (by omega), hn, hx, hy, hz]

/-- The bytes that go on with a character. -/
def Continues (b : UInt8) : Prop := 0x80 ≤ b && b ≤ 0xBF

instance (b : UInt8) : Decidable (Continues b) := inferInstanceAs (Decidable (_ = _))

theorem continues_iff {b : UInt8} : Continues b ↔ 128 ≤ b.toNat ∧ b.toNat ≤ 191 := by
  simp [Continues, UInt8.le_iff_toNat_le]

theorem toNat_ofNat {n : Nat} (h : n < 256) : (UInt8.ofNat n).toNat = n := by
  rw [UInt8.toNat_ofNat', Nat.mod_eq_of_lt h]

theorem continues_ofNat {x : Nat} (h : x < 64) : Continues (UInt8.ofNat (x + 128)) := by
  rw [continues_iff, toNat_ofNat (by omega)]
  omega

/-- What goes on with a character has six bits of it. -/
theorem Continues.eq_ofNat {b : UInt8} (h : Continues b) :
    b.toNat % 64 < 64 ∧ b = UInt8.ofNat (b.toNat % 64 + 128) := by
  obtain ⟨hlow, hhigh⟩ := continues_iff.mp h
  refine ⟨Nat.mod_lt _ (by decide), UInt8.toNat_inj.mp ?_⟩
  rw [toNat_ofNat (by omega)]
  omega

deriving instance DecidableEq for Lead

namespace Lead

def two (n : Nat) : Lead := ⟨1, 0x80, 0xBF, n⟩

def three (n : Nat) : Lead := ⟨2, if n = 0 then 0xA0 else 0x80, if n = 13 then 0x9F else 0xBF, n⟩

def four (n : Nat) : Lead := ⟨3, if n = 0 then 0x90 else 0x80, if n = 4 then 0x8F else 0xBF, n⟩

/-- A second byte with these six bits is within the bounds. -/
def Admits (lead : Lead) (x : Nat) : Prop := lead.low.toNat ≤ x + 128 ∧ x + 128 ≤ lead.high.toNat

instance (lead : Lead) (x : Nat) : Decidable (lead.Admits x) := inferInstanceAs (Decidable (_ ∧ _))

theorem two_admits (n : Nat) {x : Nat} (h : x < 64) : (two n).Admits x :=
  ⟨Nat.le_add_left 128 x, Nat.add_le_add_right (Nat.le_of_lt_succ h) 128⟩

theorem three_admits_iff : ∀ n < 16, ∀ x < 64,
    (three n).Admits x ↔ (n = 0 → 32 ≤ x) ∧ (n = 13 → x < 32) := by
  intro n _ x hx
  rw [Admits, three]
  by_cases hfirst : n = 0
  · simp [hfirst]
    omega
  · by_cases hlast : n = 13
    · simp [hlast]
      omega
    · simp [hfirst, hlast]
      omega

theorem four_admits_iff : ∀ n < 5, ∀ x < 64,
    (four n).Admits x ↔ (n = 0 → 16 ≤ x) ∧ (n = 4 → x < 16) := by
  intro n _ x hx
  rw [Admits, four]
  by_cases hfirst : n = 0
  · simp [hfirst]
    omega
  · by_cases hlast : n = 4
    · simp [hlast]
      omega
    · simp [hfirst, hlast]
      omega

end Lead

theorem lead?_two : ∀ n < 32, 2 ≤ n → lead? (UInt8.ofNat (n + 192)) = some (.two n) := by
  decide

theorem lead?_three : ∀ n < 16, lead? (UInt8.ofNat (n + 224)) = some (.three n) := by
  decide

theorem lead?_four : ∀ n < 5, lead? (UInt8.ofNat (n + 240)) = some (.four n) := by
  decide

theorem lead?_cases {b : UInt8} {lead : Lead} (h : lead? b = some lead) :
    (∃ n, 2 ≤ n ∧ n < 32 ∧ b = UInt8.ofNat (n + 192)) ∨
    (∃ n < 16, b = UInt8.ofNat (n + 224)) ∨ (∃ n < 5, b = UInt8.ofNat (n + 240)) := by
  have hall : ∀ k < 256, (lead? (UInt8.ofNat k)).isSome → 194 ≤ k ∧ k < 245 := by decide +kernel
  have hbounds := hall b.toNat b.toNat_lt
  rw [UInt8.ofNat_toNat, h] at hbounds
  obtain ⟨hlow, hhigh⟩ := hbounds rfl
  have hb : ∀ n, n = b.toNat → b = UInt8.ofNat n := by
    rintro _ rfl
    rw [UInt8.ofNat_toNat]
  by_cases htwo : b.toNat < 224
  · exact Or.inl ⟨b.toNat - 192, by omega, by omega, hb _ (by omega)⟩
  · by_cases hthree : b.toNat < 240
    · exact Or.inr (Or.inl ⟨b.toNat - 224, by omega, hb _ (by omega)⟩)
    · exact Or.inr (Or.inr ⟨b.toNat - 240, by omega, hb _ (by omega)⟩)

/-- The second byte of a character goes on with it, and the first one does not. -/
theorem lead?_bounds {b : UInt8} {lead : Lead} (h : lead? b = some lead) :
    128 ≤ b.toNat ∧ ¬ Continues b ∧ 128 ≤ lead.low.toNat ∧ lead.high.toNat ≤ 191 := by
  have hall : ∀ k < 256, ∀ lead ∈ lead? (UInt8.ofNat k), 128 ≤ k ∧ ¬ Continues (UInt8.ofNat k) ∧
      128 ≤ lead.low.toNat ∧ lead.high.toNat ≤ 191 := by decide +kernel
  have hb := hall b.toNat b.toNat_lt lead
  rw [UInt8.ofNat_toNat] at hb
  exact hb h

theorem goOn_cons (more bits : Nat) (b : UInt8) (rest : Bytes) : goOn (more + 1) bits (b :: rest) =
    if Continues b then goOn more (bits * 64 + b.toNat % 64) rest else (none, b :: rest) := rfl

section Front

variable {b : UInt8} {lead : Lead}

theorem front_small (h : b.toNat < 128) (rest : Bytes) :
    front b rest = (some (Char.ofNat b.toNat), rest) := by
  have hsmall : b < 0x80 := UInt8.lt_iff_toNat_lt.mpr h
  simp [front, hsmall]

theorem front_wrong (h : 128 ≤ b.toNat) (hb : lead? b = none) (rest : Bytes) :
    front b rest = (none, rest) := by
  have hlarge : ¬ b < 0x80 := fun hlt => Nat.not_lt.mpr h (UInt8.lt_iff_toNat_lt.mp hlt)
  simp [front, hlarge, hb]

theorem front_nil (hb : lead? b = some lead) : front b [] = (none, []) := by
  have hlarge : ¬ b < 0x80 :=
    fun hlt => Nat.not_lt.mpr (lead?_bounds hb).1 (UInt8.lt_iff_toNat_lt.mp hlt)
  simp [front, hlarge, hb]

theorem front_cons (hb : lead? b = some lead) (c : UInt8) (rest : Bytes) : front b (c :: rest) =
    if lead.low.toNat ≤ c.toNat ∧ c.toNat ≤ lead.high.toNat then
      goOn (lead.more - 1) (lead.bits * 64 + c.toNat % 64) rest
    else (none, c :: rest) := by
  have hlarge : ¬ b < 0x80 :=
    fun hlt => Nat.not_lt.mpr (lead?_bounds hb).1 (UInt8.lt_iff_toNat_lt.mp hlt)
  simp [front, hlarge, hb, UInt8.le_iff_toNat_le]

end Front

/-- What has six bits goes on with a character. -/
theorem goOn_ofNat (more bits : Nat) {x : Nat} (hx : x < 64) (rest : Bytes) :
    goOn (more + 1) bits (UInt8.ofNat (x + 128) :: rest) = goOn more (bits * 64 + x) rest := by
  have hmod : (x + 128) % 64 = x := by omega
  rw [goOn_cons, if_pos (continues_ofNat hx), toNat_ofNat (by omega), hmod]

theorem front_ofNat {b : UInt8} {lead : Lead} (hb : lead? b = some lead) {x : Nat} (hx : x < 64)
    (h : lead.Admits x) (rest : Bytes) :
    front b (UInt8.ofNat (x + 128) :: rest) = goOn (lead.more - 1) (lead.bits * 64 + x) rest := by
  have hmod : (x + 128) % 64 = x := by omega
  obtain ⟨hlow, hhigh⟩ := h
  rw [front_cons hb, toNat_ofNat (by omega), if_pos ⟨hlow, hhigh⟩, hmod]

theorem Encodes.front_eq {b : UInt8} {tail : Bytes} {v : Nat} (h : Encodes (b :: tail) v)
    (rest : Bytes) : front b (tail ++ rest) = (some (Char.ofNat v), rest) := by
  cases h with
  | one h =>
    have hv := toNat_ofNat (n := v) (by omega)
    rw [front_small (by omega), hv]
    rfl
  | @two n x hn hx => exact front_ofNat (lead?_two n hn.2 hn.1) hx (Lead.two_admits n hx) rest
  | @three n x y hn hx hy hshort hsurrogate =>
    have hadmits := (Lead.three_admits_iff n hn x hx).mpr ⟨hshort, hsurrogate⟩
    have hsecond := front_ofNat (lead?_three n hn) hx hadmits (UInt8.ofNat (y + 128) :: rest)
    exact hsecond.trans (goOn_ofNat 0 _ hy rest)
  | @four n x y z hn hx hy hz hshort hlarge =>
    have hadmits := (Lead.four_admits_iff n hn x hx).mpr ⟨hshort, hlarge⟩
    have hsecond := front_ofNat (lead?_four n hn) hx hadmits
      (UInt8.ofNat (y + 128) :: UInt8.ofNat (z + 128) :: rest)
    exact (hsecond.trans (goOn_ofNat 1 _ hy _)).trans (goOn_ofNat 0 _ hz rest)

theorem goOn_zero_some {bits : Nat} {bs rest : Bytes} {c : Char}
    (h : goOn 0 bits bs = (some c, rest)) : Char.ofNat bits = c ∧ bs = rest := by
  obtain ⟨hc, hrest⟩ := Prod.mk.inj h
  exact ⟨Option.some.inj hc, hrest⟩

/-- What goes on to the end of a character. -/
theorem goOn_some {more bits : Nat} {bs rest : Bytes} {c : Char}
    (h : goOn (more + 1) bits bs = (some c, rest)) :
    ∃ x < 64, ∃ bs', bs = UInt8.ofNat (x + 128) :: bs' ∧
      goOn more (bits * 64 + x) bs' = (some c, rest) := by
  cases bs with
  | nil => cases h
  | cons b bs =>
    rw [goOn_cons] at h
    split at h
    · rename_i hb
      obtain ⟨hx, heq⟩ := hb.eq_ofNat
      exact ⟨b.toNat % 64, hx, bs, congrArg (· :: bs) heq, h⟩
    · cases h

/-- A character of several bytes has a second one within the bounds of its first. -/
theorem front_second {b : UInt8} {lead : Lead} (hb : lead? b = some lead) {rest rest' : Bytes}
    {c : Char} (h : front b rest = (some c, rest')) :
    ∃ x < 64, ∃ bs, rest = UInt8.ofNat (x + 128) :: bs ∧ lead.Admits x ∧
      goOn (lead.more - 1) (lead.bits * 64 + x) bs = (some c, rest') := by
  obtain ⟨-, -, hlow, hhigh⟩ := lead?_bounds hb
  cases rest with
  | nil =>
    rw [front_nil hb] at h
    cases h
  | cons d bs =>
    rw [front_cons hb] at h
    split at h
    · rename_i hd
      have hcontinues : Continues d := continues_iff.mpr (by omega)
      obtain ⟨hx, heq⟩ := hcontinues.eq_ofNat
      exact ⟨d.toNat % 64, hx, bs, congrArg (· :: bs) heq, ⟨by omega, by omega⟩, h⟩
    · cases h

/-- A character is taken off with the bytes that encode it. -/
theorem front_some {b : UInt8} {rest rest' : Bytes} {c : Char}
    (h : front b rest = (some c, rest')) :
    ∃ tail v, Encodes (b :: tail) v ∧ Char.ofNat v = c ∧ rest = tail ++ rest' := by
  by_cases hsmall : b.toNat < 128
  · rw [front_small hsmall] at h
    obtain ⟨hc, rfl⟩ : Char.ofNat b.toNat = c ∧ rest = rest' := by simpa using h
    have hone := Encodes.one hsmall
    rw [UInt8.ofNat_toNat] at hone
    exact ⟨[], _, hone, hc, rfl⟩
  · cases hb : lead? b with
    | none =>
      rw [front_wrong (Nat.not_lt.mp hsmall) hb] at h
      cases h
    | some lead =>
      obtain ⟨x, hx, bs, rfl, hadmits, hgo⟩ := front_second hb h
      rcases lead?_cases hb with ⟨n, hn, hn', rfl⟩ | ⟨n, hn, rfl⟩ | ⟨n, hn, rfl⟩
      · obtain rfl := Option.some.inj ((lead?_two n hn' hn).symm.trans hb)
        obtain ⟨hc, rfl⟩ := goOn_zero_some hgo
        exact ⟨_, _, .two ⟨hn, hn'⟩ hx, hc, rfl⟩
      · obtain rfl := Option.some.inj ((lead?_three n hn).symm.trans hb)
        obtain ⟨y, hy, bs, rfl, hgo₁⟩ := goOn_some hgo
        obtain ⟨hc, rfl⟩ := goOn_zero_some hgo₁
        obtain ⟨hshort, hsurrogate⟩ := (Lead.three_admits_iff n hn x hx).mp hadmits
        exact ⟨_, _, .three hn hx hy hshort hsurrogate, hc, rfl⟩
      · obtain rfl := Option.some.inj ((lead?_four n hn).symm.trans hb)
        obtain ⟨y, hy, bs, rfl, hgo₁⟩ := goOn_some hgo
        obtain ⟨z, hz, bs, rfl, hgo₂⟩ := goOn_some hgo₁
        obtain ⟨hc, rfl⟩ := goOn_zero_some hgo₂
        obtain ⟨hshort, hlarge⟩ := (Lead.four_admits_iff n hn x hx).mp hadmits
        exact ⟨_, _, .four hn hx hy hz hshort hlarge, hc, rfl⟩

/-- Behind the first byte only such bytes are taken off that go on with a character. -/
theorem goOn_rest (more bits : Nat) (bs : Bytes) :
    ∃ tail, bs = tail ++ (goOn more bits bs).2 ∧ ∀ b ∈ tail, Continues b := by
  induction bs generalizing more bits with
  | nil => cases more <;> exact ⟨[], rfl, nofun⟩
  | cons b bs ih =>
    cases more with
    | zero => exact ⟨[], rfl, nofun⟩
    | succ more =>
      rw [goOn_cons]
      split
      · rename_i hb
        obtain ⟨tail, htail, hall⟩ := ih more (bits * 64 + b.toNat % 64)
        exact ⟨b :: tail, congrArg (b :: ·) htail, List.forall_mem_cons.mpr ⟨hb, hall⟩⟩
      · exact ⟨[], rfl, nofun⟩

theorem front_rest (b : UInt8) (rest : Bytes) :
    ∃ tail, rest = tail ++ (front b rest).2 ∧ ∀ x ∈ tail, Continues x := by
  by_cases hsmall : b.toNat < 128
  · exact ⟨[], by rw [front_small hsmall]; rfl, nofun⟩
  · cases hb : lead? b with
    | none => exact ⟨[], by rw [front_wrong (Nat.not_lt.mp hsmall) hb]; rfl, nofun⟩
    | some lead =>
      obtain ⟨-, -, hlow, hhigh⟩ := lead?_bounds hb
      cases rest with
      | nil => exact ⟨[], by rw [front_nil hb]; rfl, nofun⟩
      | cons c rest =>
        rw [front_cons hb]
        split
        · rename_i hc
          have hcontinues : Continues c := continues_iff.mpr (by omega)
          obtain ⟨tail, htail, hall⟩ :=
            goOn_rest (lead.more - 1) (lead.bits * 64 + c.toNat % 64) rest
          exact ⟨c :: tail, congrArg (c :: ·) htail,
            List.forall_mem_cons.mpr ⟨hcontinues, hall⟩⟩
        · exact ⟨[], rfl, nofun⟩

/-- Nothing, or bytes the first of which does not go on with a character. -/
def Starts : Bytes → Prop
  | [] => True
  | b :: _ => ¬ Continues b

variable {w : Bytes}

/-- Where a character does not go on, it does not matter what comes. -/
theorem goOn_append (hw : Starts w) (more bits : Nat) (bs : Bytes) :
    goOn more bits (bs ++ w) = ((goOn more bits bs).1, (goOn more bits bs).2 ++ w) := by
  induction bs generalizing more bits with
  | nil =>
    cases more with
    | zero => rfl
    | succ more =>
      cases w with
      | nil => rfl
      | cons b w => exact if_neg hw
  | cons b bs ih =>
    cases more with
    | zero => rfl
    | succ more =>
      rw [List.cons_append, goOn_cons, goOn_cons]
      split
      · exact ih _ _
      · rfl

theorem front_append (hw : Starts w) (b : UInt8) (bs : Bytes) :
    front b (bs ++ w) = ((front b bs).1, (front b bs).2 ++ w) := by
  by_cases hsmall : b.toNat < 128
  · rw [front_small hsmall, front_small hsmall]
  · cases hb : lead? b with
    | none => rw [front_wrong (Nat.not_lt.mp hsmall) hb, front_wrong (Nat.not_lt.mp hsmall) hb]
    | some lead =>
      cases bs with
      | nil =>
        cases w with
        | nil => rw [List.append_nil, front_nil hb]; rfl
        | cons c w =>
          obtain ⟨-, -, hlow, hhigh⟩ := lead?_bounds hb
          have hc : ¬ (lead.low.toNat ≤ c.toNat ∧ c.toNat ≤ lead.high.toNat) :=
            fun hc => hw (continues_iff.mpr (by omega))
          rw [List.nil_append, front_cons hb, if_neg hc, front_nil hb]
          rfl
      | cons c bs =>
        rw [List.cons_append, front_cons hb, front_cons hb]
        split
        · exact goOn_append hw _ _ _
        · rfl

/-- What stands before the start of a character is taken apart for itself. -/
theorem parts_append (bs : Bytes) (hw : Starts w) : parts (bs ++ w) = parts bs ++ parts w := by
  fun_induction parts bs with
  | case1 => rfl
  | case2 b rest ih => rw [List.cons_append, parts, front_append hw, ih, List.cons_append]

theorem Encodes.starts {bs : Bytes} {v : Nat} (h : Encodes bs v) (w : Bytes) :
    Starts (bs ++ w) := by
  cases h with
  | one h =>
    intro hcontinues
    have hlow := (continues_iff.mp hcontinues).1
    rw [toNat_ofNat (by omega)] at hlow
    omega
  | two hn => exact (lead?_bounds (lead?_two _ hn.2 hn.1)).2.1
  | three hn => exact (lead?_bounds (lead?_three _ hn)).2.1
  | four hn => exact (lead?_bounds (lead?_four _ hn)).2.1

/-- How the bytes of a character begin, and how they are taken off. -/
theorem utf8EncodeChar_eq_cons (c : Char) : ∃ b tail, String.utf8EncodeChar c = b :: tail ∧
    ¬ Continues b ∧ ∀ rest, front b (tail ++ rest) = (some c, rest) := by
  have hencodes := encodes_utf8EncodeChar c
  cases hc : String.utf8EncodeChar c with
  | nil => exact absurd hc String.utf8EncodeChar_ne_nil
  | cons b tail =>
    rw [hc] at hencodes
    refine ⟨b, tail, rfl, hencodes.starts [], fun rest => ?_⟩
    rw [hencodes.front_eq, Char.ofNat_toNat]

theorem starts_encode {cs : List Char} (hcs : cs ≠ []) (w : Bytes) : Starts (encode cs ++ w) := by
  cases cs with
  | nil => exact absurd rfl hcs
  | cons c cs =>
    rw [encode, List.flatMap_cons, List.append_assoc]
    exact (encodes_utf8EncodeChar c).starts _

theorem parts_utf8EncodeChar (c : Char) (bs : Bytes) :
    parts (String.utf8EncodeChar c ++ bs) = some c :: parts bs := by
  obtain ⟨b, tail, hc, -, hfront⟩ := utf8EncodeChar_eq_cons c
  rw [hc, List.cons_append, parts, hfront]

theorem parts_encode_append (cs : List Char) (bs : Bytes) :
    parts (encode cs ++ bs) = cs.map some ++ parts bs := by
  induction cs with
  | nil => rfl
  | cons c cs ih =>
    have hcons : encode (c :: cs) = String.utf8EncodeChar c ++ encode cs := rfl
    rw [hcons, List.append_assoc, parts_utf8EncodeChar, ih, List.map_cons, List.cons_append]

theorem parts_encode (cs : List Char) : parts (encode cs) = cs.map some := by
  have h := parts_encode_append cs []
  rwa [List.append_nil, parts, List.append_nil] at h

theorem map_getD_some (cs : List Char) : (cs.map some).map (·.getD replacement) = cs := by
  rw [List.map_map]
  exact List.map_id cs

/-- Characters that are encoded somewhere in a string of bytes are kept, between what is made of the
bytes before them and of those behind them. -/
theorem decodeLossy_around (before : Bytes) {cs : List Char} (hcs : cs ≠ []) (behind : Bytes) :
    decodeLossy (before ++ encode cs ++ behind) =
      decodeLossy before ++ cs ++ decodeLossy behind := by
  rw [List.append_assoc, decodeLossy, parts_append before (starts_encode hcs behind),
    parts_encode_append, List.map_append, List.map_append, map_getD_some, ← List.append_assoc]
  rfl

@[simp] theorem decodeLossy_encode (cs : List Char) : decodeLossy (encode cs) = cs := by
  rw [decodeLossy, parts_encode, map_getD_some]

/-- No character is encoded in these bytes. -/
def Wrong (bs : Bytes) : Prop := ∀ before c behind, bs ≠ before ++ String.utf8EncodeChar c ++ behind

/-- A string of bytes in parts: bytes that encode a character, and bytes in which none is encoded. -/
inductive Parted : Bytes → List (Option Char) → Prop where
  | nil : Parted [] []
  | char (c : Char) {bs : Bytes} {ps : List (Option Char)} (h : Parted bs ps) :
      Parted (String.utf8EncodeChar c ++ bs) (some c :: ps)
  | wrong {w bs : Bytes} {ps : List (Option Char)} (hne : w ≠ []) (hw : Wrong w)
      (h : Parted bs ps) : Parted (w ++ bs) (none :: ps)

theorem wrong_of_front {b : UInt8} {rest tail rest' : Bytes} (hrest : rest = tail ++ rest')
    (htail : ∀ x ∈ tail, Continues x) (h : (front b rest).1 = none) : Wrong (b :: tail) := by
  intro before c behind heq
  obtain ⟨x, bytes, hc, hx, hfront⟩ := utf8EncodeChar_eq_cons c
  rw [hc] at heq
  cases before with
  | nil =>
    -- the character would have been taken off
    rw [List.nil_append, List.cons_append] at heq
    obtain ⟨rfl, rfl⟩ := List.cons.inj heq
    rw [hrest, List.append_assoc, hfront] at h
    cases h
  | cons b' before =>
    -- a byte that goes on with a character does not start one
    obtain ⟨-, rfl⟩ := List.cons.inj heq
    exact hx (htail x (by simp))

theorem parted_parts (bs : Bytes) : Parted bs (parts bs) := by
  fun_induction parts bs with
  | case1 => exact .nil
  | case2 b rest ih =>
    cases hfound : (front b rest).1 with
    | some c =>
      obtain ⟨tail, v, hencodes, rfl, hrest⟩ := front_some (Prod.ext hfound rfl)
      have hchar := Parted.char (Char.ofNat v) ih
      rwa [hencodes.eq_utf8EncodeChar, List.cons_append, ← hrest] at hchar
    | none =>
      obtain ⟨tail, hrest, htail⟩ := front_rest b rest
      have hwrong := wrong_of_front hrest htail hfound
      have hparted := Parted.wrong (List.cons_ne_nil b tail) hwrong ih
      rwa [List.cons_append, ← hrest] at hparted

theorem Parted.eq_encode {bs : Bytes} {cs : List Char} (h : Parted bs (cs.map some)) :
    bs = encode cs := by
  generalize hps : cs.map some = ps at h
  induction h generalizing cs with
  | nil =>
    obtain rfl : cs = [] := by simpa using hps
    rfl
  | char c h ih =>
    obtain ⟨c', cs, rfl, hc, hrest⟩ := List.map_eq_cons_iff.mp hps
    obtain rfl := Option.some.inj hc
    rw [ih hrest]
    rfl
  | wrong hne hw h ih =>
    obtain ⟨_, _, -, hc, -⟩ := List.map_eq_cons_iff.mp hps
    cases hc

theorem mapM_id_eq_some_iff {ps : List (Option Char)} {cs : List Char} :
    ps.mapM id = some cs ↔ ps = cs.map some := by
  induction ps generalizing cs with
  | nil => cases cs <;> simp
  | cons p ps ih =>
    cases p with
    | none => cases cs <;> simp
    | some c =>
      cases cs with
      | nil => simp [Option.bind_eq_some_iff]
      | cons c' cs =>
        simp only [List.mapM_cons, id_eq, Option.bind_eq_bind, Option.bind_some, Option.pure_def,
          Option.bind_eq_some_iff, ih, Option.some.injEq, List.cons.injEq, List.map_cons]
        constructor
        · rintro ⟨_, rfl, rfl, rfl⟩
          exact ⟨rfl, rfl⟩
        · rintro ⟨rfl, rfl⟩
          exact ⟨cs, rfl, rfl, rfl⟩

/-- The strict reader reads what was written, and nothing else. -/
theorem decode?_eq_some_iff {bs : Bytes} {cs : List Char} :
    decode? bs = some cs ↔ bs = encode cs := by
  rw [decode?, mapM_id_eq_some_iff]
  constructor
  · intro h
    exact (h ▸ parted_parts bs).eq_encode
  · rintro rfl
    exact parts_encode cs

/-- A start of a character before one, a byte that starts none, and a long form. -/
example : decodeLossy ([0xE2, 0x82] ++ encode ['€', 'x'] ++ [0xFF, 0xC0, 0x80]) =
    [replacement, '€', 'x', replacement, replacement, replacement] := by decide +kernel

end Replay.Utf8
