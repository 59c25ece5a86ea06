import Replay.Proofs.Timeline.LogTime

/-!
How log time goes on from an operation. None makes it jump; a change of speed while it runs and a
resumption while it stands let it run on from where it is, at the speed then in force, and so it is
for all that is done at one moment as for a single operation (`operations_keep_log_time`).
-/

namespace Replay.Timeline

variable (t : Timeline)

/-- Whether log time runs on anew from an operation: from a change of speed while it runs, and from
a resumption while it stands. -/
def renews : Operation → Bool
  | .setSpeed _ => !t.paused
  | .resume => t.paused
  | .pause | .read => false

/-- Operations at one reading of the clock. -/
def runAt (now : Nanos) (os : List Operation) : Timeline := t.run (os.map fun o => (now, o))

theorem runAt_cons (now : Nanos) (o : Operation) (os : List Operation) :
    t.runAt now (o :: os) = (t.perform now o).runAt now os := rfl

theorem runAt_append (now : Nanos) (os os' : List Operation) :
    t.runAt now (os ++ os') = (t.runAt now os).runAt now os' := by
  rw [runAt, List.map_append, run_append]
  rfl

theorem current_runAt (now : Nanos) (os : List Operation) :
    (t.runAt now os).current now = t.current now := by
  induction os generalizing t with
  | nil => rfl
  | cons o os ih => rw [runAt_cons, ih, current_perform]

/-- Log time goes on from a reading of the clock: from where it is then, by what the wall time since
is worth, or not at all while the timeline is paused. -/
def GoesOnFrom (now : Nanos) : Prop :=
  ∀ later, t.current later = if t.paused then t.current now
    else Nanos.plus (t.current now) (t.speed.logSpan (Nanos.minus later now))

variable {t} {now : Nanos}

theorem goesOnFrom_of_paused (h : t.paused = true) (now : Nanos) : t.GoesOnFrom now := by
  intro later
  rw [if_pos h, t.current_of_paused h, t.current_of_paused h]

/-- What is anchored at a reading goes on from it. -/
theorem goesOnFrom_of_anchor (hrun : t.paused = false) (h : t.anchor = now) : t.GoesOnFrom now := by
  intro later
  simp [current, hrun, passed, h]

theorem goesOnFrom_of_renews {o : Operation} (h : t.renews o = true) (now : Nanos) :
    (t.perform now o).paused = false ∧ (t.perform now o).GoesOnFrom now := by
  cases o with
  | setSpeed v =>
    have hrun : t.paused = false := by simpa [renews] using h
    have hstill : (t.perform now (.setSpeed v)).paused = false :=
      (t.paused_setSpeed now _).trans hrun
    exact ⟨hstill, goesOnFrom_of_anchor hstill (by simp [perform, setSpeed, hrun])⟩
  | resume =>
    have hpaused : t.paused = true := h
    have hrun : (t.perform now .resume).paused = false := t.paused_resume now
    exact ⟨hrun, goesOnFrom_of_anchor hrun (by simp [perform, resume, hpaused])⟩
  | pause | read => cases h

/-- What goes on from a reading still does so after an operation at it. -/
theorem GoesOnFrom.perform (h : t.GoesOnFrom now) (o : Operation) :
    (t.perform now o).GoesOnFrom now := by
  cases hrenews : t.renews o with
  | true => exact (goesOnFrom_of_renews hrenews now).2
  | false =>
    cases o with
    | pause => exact goesOnFrom_of_paused (t.paused_pause now) now
    | resume =>
      have hrun : t.paused = false := hrenews
      simpa [Timeline.perform, resume, hrun] using h
    | setSpeed v =>
      have hpaused : t.paused = true := by simpa [renews] using hrenews
      exact goesOnFrom_of_paused ((t.paused_setSpeed now _).trans hpaused) now
    | read => exact h

theorem GoesOnFrom.runAt (h : t.GoesOnFrom now) (os : List Operation) :
    (t.runAt now os).GoesOnFrom now := by
  induction os generalizing t with
  | nil => exact h
  | cons o os ih => exact ih (h.perform o)

variable (t)

theorem current_of_renews {o : Operation} (h : t.renews o = true) (now later : Nanos) :
    (t.perform now o).current later = Nanos.plus (t.current now)
      ((t.perform now o).speed.logSpan (Nanos.minus later now)) := by
  obtain ⟨hrun, hgoes⟩ := goesOnFrom_of_renews h now
  have hlater := hgoes later
  rw [hrun, current_perform] at hlater
  simpa using hlater

/-- Whatever a timeline is, and also where the clock has gone back behind its anchor or a sum is
saturated: no operation moves the log time of its moment, and no sequence of operations at one
moment does. From a change of speed while the timeline runs, and from a resumption while it is
paused, log time goes on by what the wall time since then is worth at the speed then in force,
without its fraction; and so it does after any operations at one moment among which is such a one,
if it is not paused at the end of them. -/
theorem operations_keep_log_time (now : Nanos) :
    (∀ o, (t.perform now o).current now = t.current now) ∧
    (∀ os, (t.runAt now os).current now = t.current now) ∧
    (t.paused = false → ∀ v later, (t.perform now (.setSpeed v)).current later =
      Nanos.plus (t.current now) ((Speed.clamp v).logSpan (Nanos.minus later now))) ∧
    (t.paused = true → ∀ later, (t.perform now .resume).current later =
      Nanos.plus (t.current now) (t.speed.logSpan (Nanos.minus later now))) ∧
    (∀ before o after, (t.runAt now before).renews o = true →
      let u := t.runAt now (before ++ o :: after)
      ∀ later, u.current later = if u.paused then t.current now
        else Nanos.plus (t.current now) (u.speed.logSpan (Nanos.minus later now))) := by
  refine ⟨t.current_perform now, t.current_runAt now, ?_, ?_, ?_⟩
  · intro hrun v later
    have hrenews : t.renews (.setSpeed v) = true := by simp [renews, hrun]
    rw [t.current_of_renews hrenews now later, perform, speed_setSpeed]
  · intro hpaused later
    have hrenews : t.renews .resume = true := hpaused
    rw [t.current_of_renews hrenews now later, perform, speed_resume]
  · intro before o after hrenews u later
    have hgoes : u.GoesOnFrom now := by
      have hfrom := (goesOnFrom_of_renews hrenews now).2.runAt after
      rwa [← runAt_cons, ← runAt_append] at hfrom
    rw [hgoes later, t.current_runAt]

/-- At the speed of the clock since its reading of 100, with a sum of origin and folded time that is
the largest word. -/
def sampleFull : Timeline := ⟨Nanos.top - 10, Nanos.top - 5, 100, Speed.one, false⟩

/-- The same from a small log time. -/
def sampleSmall : Timeline := ⟨1000, 7, 100, Speed.one, false⟩

theorem sample_keeps_log_time :
    let os : List Operation := [.pause, .setSpeed .nan, .resume, .setSpeed (Binary64.ofNat 3)]
    (sampleFull.runAt 60 os).current 60 = Nanos.top ∧
    (sampleSmall.runAt 60 os).current 60 = 1007 ∧ (sampleSmall.runAt 130 os).current 130 = 1037 ∧
    (sampleSmall.perform 130 (.setSpeed (Binary64.ofNat 2))).current 141 = 1037 + 22 ∧
    ((sampleSmall.pause 130).perform 200 .resume).current 241 = 1037 + 41 ∧
    (sampleSmall.runAt 130 os).current 151 = 1037 + 63 ∧
    (sampleSmall.runAt 130 (os ++ [.pause])).current 151 = 1037 := by
  intro os
  obtain ⟨_, hfull, _⟩ := sampleFull.operations_keep_log_time 60
  obtain ⟨_, hearly, _⟩ := sampleSmall.operations_keep_log_time 60
  obtain ⟨_, hkeep, hspeed, _, hrun⟩ := sampleSmall.operations_keep_log_time 130
  obtain ⟨_, _, _, hresume, _⟩ := (sampleSmall.pause 130).operations_keep_log_time 200
  refine ⟨(hfull os).trans ?_, (hearly os).trans ?_, (hkeep os).trans ?_,
    (hspeed rfl (Binary64.ofNat 2) 141).trans ?_, (hresume rfl 241).trans ?_,
    (hrun [.pause, .setSpeed .nan] .resume [.setSpeed (Binary64.ofNat 3)] ?_ 151).trans ?_,
    (hrun [.pause, .setSpeed .nan] .resume [.setSpeed (Binary64.ofNat 3), .pause] ?_ 151).trans ?_⟩
  all_goals decide +kernel

end Replay.Timeline
