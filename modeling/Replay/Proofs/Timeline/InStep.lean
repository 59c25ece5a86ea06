import Replay.Proofs.Timeline.Delay

/-!
Two timelines that tell the same log time by clocks that read differently. At a speed that is a
whole number log time passes exactly while the products have 53 bits, so that it does not matter
whether it is folded in early or late: two timelines that are in step stay so over every operation,
over equal advances of their clocks, and over a pause of one of them, however long it is.
-/

namespace Replay

/-- A whole number from one on. -/
def Binary64.Whole : Binary64 → Prop
  | .finite false m => Magnitude.one ≤ m.quanta ∧ Magnitude.one ∣ m.quanta
  | _ => False

instance : DecidablePred Binary64.Whole
  | .finite false _ => inferInstanceAs (Decidable (_ ∧ _))
  | .finite true _ | .infinite _ | .nan => inferInstanceAs (Decidable False)

namespace Speed

variable {s : Speed} {n : Nat}

/-- A speed that is a whole number. -/
def Whole (s : Speed) : Prop := ∃ n, s.InParts n 0

theorem whole_clamp {x : Binary64} (h : x.Whole) : (clamp x).Whole := by
  match x, h with
  | .finite false m, ⟨hle, n, hm⟩ =>
    have hslow : slowest ≤ m :=
      calc slowest.quanta
          ≤ Magnitude.one := by decide +kernel
        _ ≤ m.quanta := hle
    refine ⟨n, ?_⟩
    rw [InParts, clamp, dif_pos hslow, Nat.shiftLeft_zero, Nat.mul_comm]
    exact hm

/-- A product of wall time and speed that has 53 bits. -/
def Small (s : Speed) (wall : Nanos) : Prop :=
  wall.toNat * s.magnitude.quanta < 1 <<< 53 * Magnitude.one

instance (s : Speed) (wall : Nanos) : Decidable (s.Small wall) :=
  inferInstanceAs (Decidable (_ < _))

theorem InParts.small_iff (h : s.InParts n 0) {wall : Nanos} :
    s.Small wall ↔ wall.toNat * n < 1 <<< 53 := by
  have hquanta : wall.toNat * s.magnitude.quanta = wall.toNat * n * Magnitude.one := h.worth _
  rw [Small, hquanta]
  exact Nat.mul_lt_mul_right Magnitude.one_pos

theorem Small.mono {a b : Nanos} (h : s.Small b) (hle : a ≤ b) : s.Small a :=
  Nat.lt_of_le_of_lt (Nat.mul_le_mul_right _ (UInt64.le_iff_toNat_le.mp hle)) h

/-- At a whole speed no log time is lost to rounding. -/
theorem InParts.toNat_logSpan (h : s.InParts n 0) {wall : Nanos} (hsmall : s.Small wall) :
    (s.logSpan wall).toNat = wall.toNat * n := by
  have hfew := h.small_iff.mp hsmall
  have hwall : wall.toNat < 1 <<< 53 :=
    Nat.lt_of_le_of_lt (Nat.le_mul_of_pos_right _ h.pos) hfew
  have hdouble := Grid.round_exact Nat.one_pos (Magnitude.fits_mul_one hwall).2
  rw [Nat.mul_one] at hdouble
  have hproduct : wall.toNat * Magnitude.one * s.magnitude.quanta =
      wall.toNat * n * Magnitude.one * Magnitude.one := by
    rw [Nat.mul_right_comm]
    exact congrArg (· * Magnitude.one) (h.worth _)
  rw [logSpan_eq, hdouble, hproduct, Binary64.nearest_whole false hfew Magnitude.one_pos,
    Binary64.floorNanos_whole]

/-- At a whole speed the log time of a span is the sum of those of its parts. -/
theorem Whole.logSpan_add (h : s.Whole) {a b c : Nanos} (hsum : c.toNat = a.toNat + b.toNat)
    (hsmall : s.Small c) : s.logSpan c = Nanos.plus (s.logSpan a) (s.logSpan b) := by
  obtain ⟨n, hn⟩ := h
  have ha : s.Small a := hsmall.mono (UInt64.le_iff_toNat_le.mpr (by omega))
  have hb : s.Small b := hsmall.mono (UInt64.le_iff_toNat_le.mpr (by omega))
  have htop := UInt64.le_iff_toNat_le.mp (s.logSpan c).le_top
  apply UInt64.toNat.inj
  rw [hn.toNat_logSpan hsmall, hsum, Nat.add_mul] at htop
  rw [Nanos.toNat_plus, hn.toNat_logSpan hsmall, hn.toNat_logSpan ha, hn.toNat_logSpan hb, hsum,
    Nat.add_mul, Nat.min_eq_left htop]

end Speed

namespace Timeline

variable {t u : Timeline} {now now' : Nanos}

/-- Log time passed since the origin. -/
def elapsed (t : Timeline) (now : Nanos) : Nanos :=
  if t.paused then t.folded else Nanos.plus t.folded (t.passed now)

theorem current_eq_plus (t : Timeline) (now : Nanos) :
    t.current now = Nanos.plus t.origin (t.elapsed now) := by
  unfold current elapsed
  split
  · rfl
  · exact (t.plus_origin_folded _).symm

theorem elapsed_of_paused (h : t.paused = true) (now : Nanos) : t.elapsed now = t.folded := if_pos h

theorem elapsed_of_running (h : t.paused = false) (now : Nanos) :
    t.elapsed now = Nanos.plus t.folded (t.passed now) := by
  simp [elapsed, h]

/-- At the anchor nothing has passed that is not folded in. -/
theorem elapsed_of_anchor (h : t.anchor = now) : t.elapsed now = t.folded := by
  cases hp : t.paused with
  | true => exact elapsed_of_paused hp now
  | false => simp [elapsed_of_running hp, passed, h]

@[simp] theorem elapsed_perform (t : Timeline) (now : Nanos) (o : Operation) :
    (t.perform now o).elapsed now = t.elapsed now := by
  cases o with
  | pause =>
    cases h : t.paused with
    | true => simp [perform, pause, h]
    | false =>
      rw [perform, elapsed_of_paused (t.paused_pause now), elapsed_of_running h]
      simp [pause, h]
  | resume =>
    cases h : t.paused with
    | true =>
      rw [perform, elapsed_of_anchor (by simp [resume, h]), elapsed_of_paused h]
      simp [resume, h]
    | false => simp [perform, resume, h]
  | setSpeed x =>
    cases h : t.paused with
    | true =>
      rw [perform, elapsed_of_paused ((t.paused_setSpeed now _).trans h), elapsed_of_paused h]
      simp [setSpeed, h]
    | false =>
      rw [perform, elapsed_of_anchor (by simp [setSpeed, h]), elapsed_of_running h]
      simp [setSpeed, h]
  | read => rfl

/-- While a timeline of a whole speed runs on for a span, the log time of the span passes. -/
theorem elapsed_advance (t : Timeline) (hrun : t.paused = false) (hwhole : t.speed.Whole)
    {span later : Nanos}
    (hsince : (Nanos.minus later t.anchor).toNat = (Nanos.minus now t.anchor).toNat + span.toNat)
    (hsmall : t.speed.Small (Nanos.minus later t.anchor)) :
    t.elapsed later = Nanos.plus (t.elapsed now) (t.speed.logSpan span) := by
  rw [elapsed_of_running hrun, elapsed_of_running hrun, passed, passed,
    hwhole.logSpan_add hsince hsmall, Nanos.plus_assoc]

/-- Two timelines tell the same log time, the first by a clock that reads `now` and the second by
one that reads `now'`. If they run, the second has not run for longer since its anchor. -/
structure InStep (now now' : Nanos) (t u : Timeline) : Prop where
  origin_eq : u.origin = t.origin
  speed_eq : u.speed = t.speed
  paused_eq : u.paused = t.paused
  elapsed_eq : u.elapsed now' = t.elapsed now
  anchored : t.paused = false →
    t.anchor ≤ now ∧ u.anchor ≤ now' ∧ Nanos.minus now' u.anchor ≤ Nanos.minus now t.anchor

/-- Timelines that are anchored where their clocks stand. -/
theorem inStep_of_anchor (horigin : u.origin = t.origin) (hspeed : u.speed = t.speed)
    (hpaused : u.paused = t.paused) (hfolded : u.folded = t.folded) (ht : t.anchor = now)
    (hu : u.anchor = now') : InStep now now' t u where
  origin_eq := horigin
  speed_eq := hspeed
  paused_eq := hpaused
  elapsed_eq := by rw [elapsed_of_anchor ht, elapsed_of_anchor hu, hfolded]
  anchored _ := by simp [ht, hu]

theorem inStep_start (origin : Nanos) (v : Speed) (now now' : Nanos) :
    InStep now now' (start origin v now) (start origin v now') :=
  inStep_of_anchor rfl rfl rfl rfl rfl rfl

namespace InStep

theorem current_eq (h : InStep now now' t u) : u.current now' = t.current now := by
  rw [current_eq_plus, current_eq_plus, h.origin_eq, h.elapsed_eq]

theorem until?_eq (h : InStep now now' t u) (target : Nanos) :
    u.until? now' target = t.until? now target := by
  unfold until?
  rw [h.current_eq, h.speed_eq]

/-- At a running timeline a pause folds in what has passed, and a resumption does nothing; at a
paused one it is the other way round. -/
theorem perform (h : InStep now now' t u) (o : Operation) :
    InStep now now' (t.perform now o) (u.perform now' o) := by
  have horigin : (u.perform now' o).origin = (t.perform now o).origin := by
    rw [origin_perform, origin_perform, h.origin_eq]
  have helapsed : (u.perform now' o).elapsed now' = (t.perform now o).elapsed now := by
    rw [elapsed_perform, elapsed_perform, h.elapsed_eq]
  cases o with
  | pause =>
    refine ⟨horigin, ?_, ?_, helapsed, ?_⟩
    · simp [Timeline.perform, h.speed_eq]
    · simp [Timeline.perform]
    · simp [Timeline.perform]
  | resume =>
    refine ⟨horigin, ?_, ?_, helapsed, ?_⟩
    · simp [Timeline.perform, h.speed_eq]
    · simp [Timeline.perform]
    · intro _
      cases hp : t.paused with
      | true => simp [Timeline.perform, resume, hp, h.paused_eq]
      | false => simpa [Timeline.perform, resume, hp, h.paused_eq] using h.anchored hp
  | setSpeed x =>
    refine ⟨horigin, ?_, ?_, helapsed, ?_⟩
    · simp [Timeline.perform]
    · simp [Timeline.perform, h.paused_eq]
    · intro hrun
      have hp : t.paused = false := (t.paused_setSpeed now _).symm.trans hrun
      simp [Timeline.perform, setSpeed, hp, h.paused_eq]
  | read => exact h

/-- Two timelines of a whole speed stay in step while both clocks go on by the same span, which must
not take them beyond the largest word. -/
theorem advance (h : InStep now now' t u) (hwhole : t.speed.Whole) {span : Nanos}
    (hle : now ≤ now') (hclock : now'.toNat + span.toNat < UInt64.size)
    (hsmall : t.paused = false → t.speed.Small (Nanos.minus (now + span) t.anchor)) :
    InStep (now + span) (now' + span) t u := by
  cases hp : t.paused with
  | true =>
    have hfolded := h.elapsed_eq
    have hu := h.paused_eq.trans hp
    rw [elapsed_of_paused hp, elapsed_of_paused hu] at hfolded
    refine ⟨h.origin_eq, h.speed_eq, h.paused_eq, ?_, by simp [hp]⟩
    rw [elapsed_of_paused hp, elapsed_of_paused hu, hfolded]
  | false =>
    obtain ⟨ht, hu, hshort⟩ := h.anchored hp
    have hclock₀ : now.toNat + span.toNat < UInt64.size :=
      Nat.lt_of_le_of_lt (Nat.add_le_add_right (UInt64.le_iff_toNat_le.mp hle) _) hclock
    have hsince := t.toNat_since_anchor ht hclock₀
    have hsince' := u.toNat_since_anchor hu hclock
    have hshort' : Nanos.minus (now' + span) u.anchor ≤ Nanos.minus (now + span) t.anchor := by
      rw [UInt64.le_iff_toNat_le] at hshort ⊢
      omega
    refine ⟨h.origin_eq, h.speed_eq, h.paused_eq, ?_, fun _ => ⟨?_, ?_, hshort'⟩⟩
    · have helapsed := t.elapsed_advance hp hwhole hsince (hsmall hp)
      have helapsed' := u.elapsed_advance (h.paused_eq.trans hp) (h.speed_eq ▸ hwhole) hsince'
        (h.speed_eq ▸ (hsmall hp).mono hshort')
      rw [helapsed, helapsed', h.elapsed_eq, h.speed_eq]
    · rw [UInt64.le_iff_toNat_le] at ht ⊢
      rw [UInt64.toNat_add, Nat.mod_eq_of_lt hclock₀]
      omega
    · rw [UInt64.le_iff_toNat_le] at hu ⊢
      rw [UInt64.toNat_add, Nat.mod_eq_of_lt hclock]
      omega

/-- A pause of the second timeline, from one reading of its clock to another. -/
theorem interlude (h : InStep now now' t u) (hrun : t.paused = false) (later : Nanos) :
    InStep now later t ((u.pause now').resume later) where
  origin_eq := by
    have hpause := u.origin_perform now' .pause
    have hresume := (u.pause now').origin_perform later .resume
    exact (hresume.trans hpause).trans h.origin_eq
  speed_eq := by rw [speed_resume, speed_pause, h.speed_eq]
  paused_eq := by rw [paused_resume, hrun]
  elapsed_eq :=
    calc ((u.pause now').resume later).elapsed later
        = (u.pause now').elapsed later := elapsed_perform _ later .resume
      _ = (u.pause now').elapsed now' := by
        rw [elapsed_of_paused (u.paused_pause now'), elapsed_of_paused (u.paused_pause now')]
      _ = u.elapsed now' := elapsed_perform u now' .pause
      _ = t.elapsed now := h.elapsed_eq
  anchored _ := by
    refine ⟨(h.anchored hrun).1, ?_, ?_⟩ <;> simp [resume]

end InStep

end Timeline

end Replay
