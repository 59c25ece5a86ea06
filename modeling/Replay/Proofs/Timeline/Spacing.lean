import Replay.Timeline

/-!
The log times that a limiter lets through. Main statements: they are at least an interval apart
(`through_spaced`), so that a window holds as many of them as intervals begin in it
(`length_through_le`), and that many can come (`exists_through_eq`).
-/

namespace Replay.Limiter

/-- The log times that are let through, of those that come one after the other. -/
def through (l : Limiter) : List Nanos → List Nanos
  | [] => []
  | t :: ts =>
    match l.pass? t with
    | some l => t :: l.through ts
    | none => l.through ts

/-- The limiter when they have come. -/
def after (l : Limiter) (ts : List Nanos) : Limiter := ts.foldl (fun l t => (l.pass? t).getD l) l

theorem through_cons (l : Limiter) (t : Nanos) (ts : List Nanos) : l.through (t :: ts) =
    (if (l.pass? t).isSome then [t] else []) ++ ((l.pass? t).getD l).through ts := by
  cases h : l.pass? t <;> simp [through, h]

theorem after_append (l : Limiter) (ts us : List Nanos) :
    l.after (ts ++ us) = (l.after ts).after us := List.foldl_append

theorem through_append (l : Limiter) (ts us : List Nanos) :
    l.through (ts ++ us) = l.through ts ++ (l.after ts).through us := by
  induction ts generalizing l with
  | nil => rfl
  | cons t ts ih => rw [List.cons_append, through_cons, through_cons, ih, List.append_assoc]; rfl

theorem pass?_eq_some_iff {l l' : Limiter} {t : Nanos} : l.pass? t = some l' ↔
    l.interval.toNat ≤ t.toNat - l.last.toNat ∧ l' = { l with last := t } := by
  rw [← Nanos.toNat_minus, ← UInt64.le_iff_toNat_le, pass?]
  split
  · rename_i h
    simp [h, eq_comm]
  · rename_i h
    simp [h]

theorem isSome_pass? (l : Limiter) (t : Nanos) :
    (l.pass? t).isSome = decide (l.interval.toNat ≤ t.toNat - l.last.toNat) := by
  rw [Bool.eq_iff_iff, Option.isSome_iff_exists, decide_eq_true_iff]
  constructor
  · rintro ⟨_, h⟩
    exact (pass?_eq_some_iff.mp h).1
  · intro h
    exact ⟨_, pass?_eq_some_iff.mpr ⟨h, rfl⟩⟩

theorem through_sublist (l : Limiter) (ts : List Nanos) : (l.through ts).Sublist ts := by
  induction ts generalizing l with
  | nil => exact .slnil
  | cons t ts ih =>
    cases hpass : l.pass? t with
    | none =>
      simp only [through, hpass]
      exact (ih l).cons t
    | some l' =>
      simp only [through, hpass]
      exact (ih l').cons_cons t

/-- All that a limiter remembers of the times that have come is the last that it let through. -/
theorem after_eq (l : Limiter) (ts : List Nanos) :
    l.after ts = ⟨l.interval, (l.through ts).getLast?.getD l.last⟩ := by
  induction ts generalizing l with
  | nil => rfl
  | cons t ts ih =>
    have hcons : l.after (t :: ts) = ((l.pass? t).getD l).after ts := rfl
    rw [hcons, ih]
    cases hpass : l.pass? t with
    | none => simp only [through, hpass, Option.getD_none]
    | some l' =>
      obtain ⟨_, rfl⟩ := pass?_eq_some_iff.mp hpass
      simp [through, hpass, List.getLast?_cons]

theorem through_spaced {l : Limiter} (h : 0 < l.interval.toNat) (ts : List Nanos) :
    (∀ t ∈ l.through ts, l.last.toNat + l.interval.toNat ≤ t.toNat) ∧
      (l.through ts).Pairwise fun t u => t.toNat + l.interval.toNat ≤ u.toNat := by
  induction ts generalizing l with
  | nil => exact ⟨nofun, .nil⟩
  | cons t ts ih =>
    cases hpass : l.pass? t with
    | none =>
      simp only [through, hpass]
      exact ih h
    | some l' =>
      obtain ⟨hle, rfl⟩ := pass?_eq_some_iff.mp hpass
      obtain ⟨hfirst, hrest⟩ := ih (l := { l with last := t }) h
      simp only [through, hpass]
      refine ⟨?_, List.pairwise_cons.mpr ⟨hfirst, hrest⟩⟩
      intro u hu
      rcases List.mem_cons.mp hu with rfl | hu
      · omega
      · have := hfirst u hu
        dsimp only at this
        omega

/-- Times that are spaced fill a window by intervals. -/
theorem mul_length_lt_of_spaced {gap stop : Nat} {ts : List Nanos}
    (h : ts.Pairwise fun t u => t.toNat + gap ≤ u.toNat) (hstop : ∀ t ∈ ts, t.toNat < stop)
    {first : Nat} (hlt : first < stop + gap) (hfirst : ∀ t ∈ ts, first ≤ t.toNat) :
    first + ts.length * gap < stop + gap := by
  induction ts generalizing first with
  | nil => simpa using hlt
  | cons t ts ih =>
    obtain ⟨hhead, htail⟩ := List.pairwise_cons.mp h
    have ht := hstop t List.mem_cons_self
    have hle := hfirst t List.mem_cons_self
    have hrest : t.toNat + gap + ts.length * gap < stop + gap :=
      ih htail (fun u hu => hstop u (List.mem_cons_of_mem t hu)) (by omega) hhead
    rw [List.length_cons, Nat.succ_mul]
    omega

/-- Whether a time lies in the second that begins at `a`. -/
def inSecond (a : Nat) (t : Nanos) : Bool := a ≤ t.toNat && t.toNat < a + 1000000000

/-- How many intervals begin in a second. -/
def perSecond (interval : Nat) : Nat := (1000000000 + interval - 1) / interval

/-- A second holds no more of the times let through than intervals begin in it. -/
theorem length_through_le {l : Limiter} (h : 0 < l.interval.toNat) (ts : List Nanos) (a : Nat) :
    ((l.through ts).filter (inSecond a)).length ≤ perSecond l.interval.toNat := by
  have hin : ∀ t ∈ (l.through ts).filter (inSecond a), a ≤ t.toNat ∧ t.toNat < a + 1000000000 := by
    intro t ht
    simpa [inSecond] using (List.mem_filter.mp ht).2
  have hlt : a + ((l.through ts).filter (inSecond a)).length * l.interval.toNat <
      a + 1000000000 + l.interval.toNat :=
    mul_length_lt_of_spaced ((through_spaced h ts).2.filter (inSecond a))
      (fun t ht => (hin t ht).2) (by omega) (fun t ht => (hin t ht).1)
  rw [perSecond, Nat.le_div_iff_mul_le h]
  omega

/-- Times that are an interval apart, from a first one on. -/
def evenly (interval : Nat) : (first count : Nat) → List Nanos
  | _, 0 => []
  | first, count + 1 => UInt64.ofNat first :: evenly interval (first + interval) count

variable {interval : Nanos}

theorem through_evenly {l : Limiter} (hl : l.interval = interval) {first count : Nat}
    (hlast : l.last.toNat + interval.toNat ≤ first)
    (hfits : first + count * interval.toNat < UInt64.size + interval.toNat) :
    l.through (evenly interval.toNat first count) = evenly interval.toNat first count := by
  induction count generalizing l first with
  | zero => rfl
  | succ count ih =>
    rw [Nat.succ_mul] at hfits
    have hto : (UInt64.ofNat first).toNat = first := UInt64.toNat_ofNat_of_lt' (by omega)
    have hpass : l.pass? (UInt64.ofNat first) = some { l with last := UInt64.ofNat first } :=
      pass?_eq_some_iff.mpr ⟨by rw [hl, hto]; omega, rfl⟩
    have hrest : ({ l with last := UInt64.ofNat first } : Limiter).through
        (evenly interval.toNat (first + interval.toNat) count) =
        evenly interval.toNat (first + interval.toNat) count :=
      ih (l := { l with last := UInt64.ofNat first }) hl
        (Nat.le_of_eq (congrArg (· + interval.toNat) hto)) (by omega)
    simp only [evenly, through, hpass, hrest]

theorem mem_evenly {first count : Nat}
    (hfits : first + count * interval.toNat < UInt64.size + interval.toNat) {t : Nanos}
    (ht : t ∈ evenly interval.toNat first count) :
    first ≤ t.toNat ∧ t.toNat + interval.toNat ≤ first + count * interval.toNat := by
  induction count generalizing first with
  | zero => cases ht
  | succ count ih =>
    rw [Nat.succ_mul] at hfits ⊢
    rcases List.mem_cons.mp ht with rfl | ht
    · rw [UInt64.toNat_ofNat_of_lt' (by omega)]
      omega
    · have := ih (by omega) ht
      omega

theorem length_evenly (interval first count : Nat) :
    (evenly interval first count).length = count := by
  induction count generalizing first with
  | zero => rfl
  | succ count ih => rw [evenly, List.length_cons, ih]

/-- As many times can come in a second as intervals begin in it. -/
theorem exists_in_second {count : Nat} (hinterval : interval.toNat ≤ 1000000000)
    (hcount : count * interval.toNat < 1000000000 + interval.toNat) :
    ∃ ts a, (((start interval).through ts).filter (inSecond a)).length = count := by
  have hsize : 3000000000 < UInt64.size := by decide
  have hfits : interval.toNat + count * interval.toNat < UInt64.size + interval.toNat := by omega
  refine ⟨evenly interval.toNat interval.toNat count, interval.toNat, ?_⟩
  have hthrough : (start interval).through (evenly interval.toNat interval.toNat count) =
      evenly interval.toNat interval.toNat count :=
    through_evenly rfl (Nat.le_of_eq (Nat.zero_add _)) hfits
  rw [hthrough, List.filter_eq_self.mpr, length_evenly]
  intro t ht
  obtain ⟨hle, hend⟩ := mem_evenly hfits ht
  simp only [inSecond, Bool.and_eq_true, decide_eq_true_eq]
  omega

/-- With an interval that is a second divided by a rate, without the fraction, no second holds more
times than the rate exactly if the rate divides it. -/
theorem length_through_le_iff {rate : Nat} (hinterval : interval.toNat = 1000000000 / rate) :
    (∀ ts a, (((start interval).through ts).filter (inSecond a)).length ≤ rate) ↔
      rate ∣ 1000000000 := by
  have hfloor : rate * interval.toNat ≤ 1000000000 := hinterval ▸ Nat.mul_div_le _ _
  constructor
  · intro h
    apply Decidable.byContradiction
    intro hndvd
    have hlt : rate * interval.toNat < 1000000000 := by
      refine Nat.lt_of_le_of_ne hfloor fun heq => hndvd ?_
      exact heq ▸ Nat.dvd_mul_right rate interval.toNat
    have hle : interval.toNat ≤ 1000000000 := hinterval ▸ Nat.div_le_self _ _
    have hmore : (rate + 1) * interval.toNat < 1000000000 + interval.toNat := by
      rw [Nat.succ_mul]
      omega
    obtain ⟨ts, a, hcount⟩ := exists_in_second hle hmore
    have := h ts a
    omega
  · intro hdvd ts a
    have hexact : rate * interval.toNat = 1000000000 := hinterval ▸ Nat.mul_div_cancel' hdvd
    have hpos : 0 < interval.toNat := by
      apply Nat.pos_of_ne_zero
      intro hzero
      rw [hzero, Nat.mul_zero] at hexact
      cases hexact
    have hper : perSecond interval.toNat = rate := by
      rw [perSecond, ← hexact, Nat.add_sub_assoc hpos, Nat.mul_comm, Nat.mul_add_div hpos,
        Nat.div_eq_of_lt (by omega), Nat.add_zero]
    exact hper ▸ length_through_le hpos ts a

end Replay.Limiter
