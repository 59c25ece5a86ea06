import Replay.Proofs.Number.Monotone
import Replay.Timeline

/-!
The log time of a timeline over a run. A pause, a resumption and a change of speed leave it as it is
at the moment at which they happen, and between them it goes on as the clock does, or stands while
the timeline is paused.
-/

namespace Replay

theorem Nanos.plus_assoc (a b c : Nanos) : plus (plus a b) c = plus a (plus b c) := by
  apply UInt64.toNat.inj
  simp only [toNat_plus]
  omega

@[simp] theorem Nanos.plus_zero (a : Nanos) : plus a 0 = a := by
  apply UInt64.toNat.inj
  have := UInt64.le_iff_toNat_le.mp a.le_top
  simp only [toNat_plus, UInt64.toNat_zero]
  omega

theorem Nanos.le_plus (a b : Nanos) : a ≤ plus a b := by
  have := UInt64.le_iff_toNat_le.mp a.le_top
  rw [UInt64.le_iff_toNat_le, toNat_plus]
  omega

theorem Nanos.plus_le_plus (a : Nanos) {b c : Nanos} (h : b ≤ c) : plus a b ≤ plus a c := by
  have := UInt64.le_iff_toNat_le.mp h
  rw [UInt64.le_iff_toNat_le, toNat_plus, toNat_plus]
  omega

@[simp] theorem Nanos.minus_self (a : Nanos) : minus a a = 0 := by
  apply UInt64.toNat.inj
  rw [toNat_minus, Nat.sub_self, UInt64.toNat_zero]

theorem Nanos.minus_le_minus {a b : Nanos} (h : a ≤ b) (c : Nanos) : minus a c ≤ minus b c := by
  have := UInt64.le_iff_toNat_le.mp h
  rw [UInt64.le_iff_toNat_le, toNat_minus, toNat_minus]
  omega

namespace Timeline

variable (t : Timeline)

theorem passed_mono {now later : Nanos} (h : now ≤ later) : t.passed now ≤ t.passed later :=
  t.speed.logSpan_mono (Nanos.minus_le_minus h t.anchor)

theorem current_mono {now later : Nanos} (h : now ≤ later) : t.current now ≤ t.current later := by
  unfold current
  split
  · exact UInt64.le_refl _
  · exact Nanos.plus_le_plus _ (t.passed_mono h)

theorem origin_le_current (now : Nanos) : t.origin ≤ t.current now := by
  have hbase : t.origin ≤ t.base := Nanos.le_plus _ _
  unfold current
  split
  · exact hbase
  · exact UInt64.le_trans hbase (Nanos.le_plus _ _)

/-- A paused timeline stands, whatever the clock reads. -/
theorem current_of_paused (h : t.paused = true) (now : Nanos) : t.current now = t.base := by
  rw [current, if_pos h]

/-- A timeline starts at its origin. -/
@[simp] theorem base_start (origin : Nanos) (speed : Speed) (now : Nanos) :
    (start origin speed now).base = origin := by
  simp [start, base]

@[simp] theorem current_start (origin : Nanos) (speed : Speed) (now : Nanos) :
    (start origin speed now).current now = origin := by
  simp [start, current, base, passed]

/-- What is folded in is what has passed: the sum is the same where it is saturated on the way. -/
theorem plus_origin_folded (passed : Nanos) :
    Nanos.plus t.origin (Nanos.plus t.folded passed) = Nanos.plus t.base passed :=
  (Nanos.plus_assoc _ _ _).symm

@[simp] theorem current_pause (now : Nanos) : (t.pause now).current now = t.current now := by
  unfold pause
  split
  · rfl
  · rename_i h
    simp only [current, h, Bool.false_eq_true, if_false, if_true]
    exact t.plus_origin_folded _

@[simp] theorem current_resume (now : Nanos) : (t.resume now).current now = t.current now := by
  unfold resume
  split
  · rename_i h
    simp [current, h, passed, base]
  · rfl

@[simp] theorem current_setSpeed (now : Nanos) (speed : Speed) :
    (t.setSpeed now speed).current now = t.current now := by
  unfold setSpeed
  split
  · rename_i h
    simp [current, h, base]
  · rename_i h
    simp only [current, h, Bool.false_eq_true, if_false]
    simp only [passed, base, Nanos.minus_self, Speed.logSpan_zero, Nanos.plus_zero]
    exact t.plus_origin_folded _

inductive Operation where
  | pause
  | resume
  | setSpeed (x : Binary64)
  /-- Nothing is changed. -/
  | read
  deriving DecidableEq

def perform (now : Nanos) : Operation → Timeline
  | .pause => t.pause now
  | .resume => t.resume now
  | .setSpeed x => t.setSpeed now (Speed.clamp x)
  | .read => t

@[simp] theorem current_perform (now : Nanos) (o : Operation) :
    (t.perform now o).current now = t.current now := by
  cases o with
  | pause => exact t.current_pause now
  | resume => exact t.current_resume now
  | setSpeed x => exact t.current_setSpeed now _
  | read => rfl

@[simp] theorem origin_perform (now : Nanos) (o : Operation) :
    (t.perform now o).origin = t.origin := by
  cases o with
  | pause => simp only [perform, pause]; split <;> rfl
  | resume => simp only [perform, resume]; split <;> rfl
  | setSpeed x => simp only [perform, setSpeed]; split <;> rfl
  | read => rfl

/-- Without a resumption a paused timeline stays where it is. -/
theorem rests_perform (h : t.paused = true) (now : Nanos) {o : Operation} (ho : o ≠ .resume) :
    (t.perform now o).paused = true ∧ (t.perform now o).base = t.base := by
  cases o with
  | pause => simp [perform, pause, h]
  | resume => exact absurd rfl ho
  | setSpeed x => simp [perform, setSpeed, h, base]
  | read => exact ⟨h, rfl⟩

/-- Operations with the readings of the clock at which they happen. -/
def run (os : List (Nanos × Operation)) : Timeline := os.foldl (fun t o => t.perform o.1 o.2) t

/-- The log times of a run: at each reading of the clock, before the operation and after it. -/
def readings (t : Timeline) : List (Nanos × Operation) → List Nanos
  | [] => []
  | (now, o) :: os =>
    t.current now :: (t.perform now o).current now :: readings (t.perform now o) os

theorem origin_le_readings (os : List (Nanos × Operation)) : ∀ l ∈ t.readings os, t.origin ≤ l := by
  induction os generalizing t with
  | nil => nofun
  | cons o os ih =>
    intro l hl
    rcases List.mem_cons.mp hl with rfl | hl
    · exact t.origin_le_current _
    · rcases List.mem_cons.mp hl with rfl | hl
      · rw [current_perform]
        exact t.origin_le_current _
      · rw [← t.origin_perform o.1 o.2]
        exact ih _ l hl

theorem current_le_readings {now : Nanos} {os : List (Nanos × Operation)}
    (hclock : (now :: os.map (·.1)).Pairwise (· ≤ ·)) :
    ∀ l ∈ t.readings os, t.current now ≤ l := by
  induction os generalizing t now with
  | nil => nofun
  | cons o os ih =>
    obtain ⟨hnow, hrest⟩ := List.pairwise_cons.mp hclock
    have hle : t.current now ≤ t.current o.1 := t.current_mono (hnow o.1 (by simp))
    intro l hl
    rcases List.mem_cons.mp hl with rfl | hl
    · exact hle
    · rcases List.mem_cons.mp hl with rfl | hl
      · rw [current_perform]
        exact hle
      · have hafter := ih (t.perform o.1 o.2) hrest l hl
        rw [current_perform] at hafter
        exact UInt64.le_trans hle hafter

theorem pairwise_readings {os : List (Nanos × Operation)}
    (hclock : (os.map (·.1)).Pairwise (· ≤ ·)) : (t.readings os).Pairwise (· ≤ ·) := by
  induction os generalizing t with
  | nil => exact .nil
  | cons o os ih =>
    have hlater : ∀ l ∈ (t.perform o.1 o.2).readings os, t.current o.1 ≤ l := by
      intro l hl
      rw [← t.current_perform o.1 o.2]
      exact current_le_readings _ hclock l hl
    have hrest := ih (t.perform o.1 o.2) (List.pairwise_cons.mp hclock).2
    simp only [readings, current_perform, List.pairwise_cons, List.forall_mem_cons]
    exact ⟨⟨UInt64.le_refl _, hlater⟩, hlater, hrest⟩

theorem rests_run (h : t.paused = true) {os : List (Nanos × Operation)}
    (hos : ∀ o ∈ os, o.2 ≠ .resume) : (t.run os).paused = true ∧ (t.run os).base = t.base := by
  induction os generalizing t with
  | nil => exact ⟨h, rfl⟩
  | cons o os ih =>
    obtain ⟨hpaused, hbase⟩ := t.rests_perform h o.1 (hos o (by simp))
    obtain ⟨hpaused', hbase'⟩ := ih (t.perform o.1 o.2) hpaused fun o' ho' => hos o' (by simp [ho'])
    exact ⟨hpaused', hbase'.trans hbase⟩

theorem run_append (os os' : List (Nanos × Operation)) : t.run (os ++ os') = (t.run os).run os' :=
  List.foldl_append

/-- Whatever a timeline is and however its speed is changed: while the clock does not go back, its
log time does not either; it is never before the origin; and from a pause on it is that of the pause,
whatever is done and whatever the clock reads, until the timeline is resumed. -/
theorem log_time_never_runs_back :
    (∀ os : List (Nanos × Operation), (os.map (·.1)).Pairwise (· ≤ ·) →
      (t.readings os).Pairwise (· ≤ ·)) ∧
    (∀ os, ∀ l ∈ t.readings os, t.origin ≤ l) ∧
    (∀ before now between later, (∀ o ∈ between, o.2 ≠ .resume) →
      (t.run (before ++ (now, .pause) :: between)).current later = (t.run before).current now) := by
  refine ⟨fun _ => t.pairwise_readings, t.origin_le_readings, ?_⟩
  intro before now between later hbetween
  let u := (t.run before).pause now
  have hpaused : u.paused = true := paused_pause _ _
  obtain ⟨hstill, hbase⟩ := u.rests_run hpaused hbetween
  calc (t.run (before ++ (now, .pause) :: between)).current later
      = (u.run between).current later := by rw [run_append]; rfl
    _ = u.current now := by
      rw [current_of_paused _ hstill, hbase, current_of_paused _ hpaused]
    _ = (t.run before).current now := current_pause _ _

/-- Three times as fast as the clock, from ten nanoseconds before the largest word. -/
def sampleTimeline : Timeline := start (Nanos.top - 10) (Speed.clamp (Binary64.ofNat 3)) 5

def sampleReadings : List (Nanos × Operation) :=
  [(5, .read), (6, .setSpeed .nan), (106, .pause), (300, .setSpeed (.infinite false)), (900, .read),
    (900, .resume), (1200, .setSpeed (Binary64.ofNat 9)), (1201, .read)]

theorem sampleReadings_never_run_back :
    (sampleReadings.map (·.1)).Pairwise (· ≤ ·) ∧
    sampleTimeline.readings sampleReadings = ([10, 10, 7, 7, 6, 6, 6, 6, 6, 6, 6, 6, 3, 3, 0, 0].map
      fun left => Nanos.top - left) ∧
    (sampleTimeline.readings sampleReadings).Pairwise (· ≤ ·) ∧
    (∀ later, (sampleTimeline.run (sampleReadings.take 5)).current later =
      (sampleTimeline.run (sampleReadings.take 2)).current 106) := by
  have hclock : (sampleReadings.map (·.1)).Pairwise (· ≤ ·) := by decide
  obtain ⟨hmono, _, hstill⟩ := sampleTimeline.log_time_never_runs_back
  refine ⟨hclock, by decide +kernel, hmono _ hclock, ?_⟩
  intro later
  exact hstill (sampleReadings.take 2) 106 [(300, .setSpeed (.infinite false)), (900, .read)] later
    (by decide)

end Timeline

end Replay
