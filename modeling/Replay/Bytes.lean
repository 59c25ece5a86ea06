/-!
Strings of bytes, and whole numbers in them with the lowest byte first.
-/

namespace Replay

abbrev Bytes := List UInt8

namespace Bytes

/-- A number in `size` bytes; what does not fit is cut off. -/
def ofNat : (size : Nat) → Nat → Bytes
  | 0, _ => []
  | size + 1, n => UInt8.ofNat n :: ofNat size (n / 256)

def toNat : Bytes → Nat
  | [] => 0
  | b :: bs => b.toNat + 256 * toNat bs

/-- Takes a number of `size` bytes off the front. -/
def takeNat? (size : Nat) (bs : Bytes) : Option (Nat × Bytes) :=
  if size ≤ bs.length then some (toNat (bs.take size), bs.drop size) else none

theorem length_ofNat (size n : Nat) : (ofNat size n).length = size := by
  induction size generalizing n with
  | zero => rfl
  | succ size ih => simp [ofNat, ih]

theorem toNat_ofNat (size n : Nat) : toNat (ofNat size n) = n % (1 <<< (8 * size)) := by
  induction size generalizing n with
  | zero => simp [ofNat, toNat, Nat.mod_one]
  | succ size ih =>
    have hb : (UInt8.ofNat n).toNat = n % 256 := UInt8.toNat_ofNat'
    have hs : 1 <<< (8 * (size + 1)) = 256 * (1 <<< (8 * size)) := by
      rw [Nat.one_shiftLeft, Nat.one_shiftLeft, Nat.mul_succ, Nat.pow_add, Nat.mul_comm]
    rw [ofNat, toNat, ih, hb, hs, Nat.mod_mul]

theorem toNat_lt (bs : Bytes) : toNat bs < 1 <<< (8 * bs.length) := by
  induction bs with
  | nil => exact Nat.one_pos
  | cons b bs ih =>
    have hb : b.toNat < 256 := b.toNat_lt
    have hs : 1 <<< (8 * (b :: bs).length) = 256 * (1 <<< (8 * bs.length)) := by
      rw [List.length_cons, Nat.one_shiftLeft, Nat.one_shiftLeft, Nat.mul_succ, Nat.pow_add,
        Nat.mul_comm]
    rw [toNat, hs]
    omega

theorem ofNat_toNat (bs : Bytes) : ofNat bs.length (toNat bs) = bs := by
  induction bs with
  | nil => rfl
  | cons b bs ih =>
    have hb : b.toNat < 256 := b.toNat_lt
    have hhead : UInt8.ofNat (b.toNat + 256 * toNat bs) = b := by
      apply UInt8.toNat_inj.mp
      rw [UInt8.toNat_ofNat', Nat.add_mul_mod_self_left, Nat.mod_eq_of_lt hb]
    have hrest : (b.toNat + 256 * toNat bs) / 256 = toNat bs := by omega
    rw [List.length_cons, ofNat, toNat, hhead, hrest, ih]

/-- What is taken off the front is a number that fits, and in its bytes it stood there. -/
theorem takeNat?_eq_some_iff {size n : Nat} {bs rest : Bytes} :
    takeNat? size bs = some (n, rest) ↔ bs = ofNat size n ++ rest ∧ n < 1 <<< (8 * size) := by
  unfold takeNat?
  constructor
  · intro h
    split at h
    · rename_i hle
      obtain ⟨rfl, rfl⟩ := Prod.mk.inj (Option.some.inj h)
      have hlen : (bs.take size).length = size := List.length_take_of_le hle
      have hback := ofNat_toNat (bs.take size)
      have hlt := toNat_lt (bs.take size)
      rw [hlen] at hback hlt
      exact ⟨by rw [hback, List.take_append_drop], hlt⟩
    · cases h
  · rintro ⟨rfl, hlt⟩
    have hle : size ≤ (ofNat size n ++ rest).length := by
      rw [List.length_append, length_ofNat]
      exact Nat.le_add_right _ _
    rw [if_pos hle, List.take_left' (length_ofNat size n), List.drop_left' (length_ofNat size n),
      toNat_ofNat, Nat.mod_eq_of_lt hlt]

theorem takeNat?_eq_none_iff {size : Nat} {bs : Bytes} :
    takeNat? size bs = none ↔ bs.length < size := by
  unfold takeNat?
  split
  · exact ⟨nofun, fun h => by omega⟩
  · exact ⟨fun _ => by omega, fun _ => rfl⟩

end Bytes

end Replay
