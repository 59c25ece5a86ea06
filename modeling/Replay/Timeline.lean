import Replay.Speed

/-!
The relation of log time to a clock. A timeline starts at a log time and runs at a speed; a pause
or a change of speed folds the log time passed so far into it and leaves the current log time as
it is.
-/

namespace Replay

structure Timeline where
  origin : Nanos
  /-- Log time passed before `anchor`, or before the pause. -/
  folded : Nanos
  /-- Clock reading since which the timeline runs at `speed`. -/
  anchor : Nanos
  speed : Speed
  paused : Bool
  deriving DecidableEq

namespace Timeline

/-- A running timeline that is at `origin` when the clock reads `now`. -/
def start (origin : Nanos) (speed : Speed) (now : Nanos) : Timeline :=
  ⟨origin, 0, now, speed, false⟩

/-- Log time passed since the anchor; nothing if the clock went back behind it. -/
def passed (t : Timeline) (now : Nanos) : Nanos := t.speed.logSpan (Nanos.minus now t.anchor)

def base (t : Timeline) : Nanos := Nanos.plus t.origin t.folded

def current (t : Timeline) (now : Nanos) : Nanos :=
  if t.paused then t.base else Nanos.plus t.base (t.passed now)

/-- Wall time to wait for a log time; `none` if it is reached. -/
def until? (t : Timeline) (now target : Nanos) : Option Nanos :=
  let current := t.current now
  if target ≤ current then none else some (t.speed.wallSpan (target - current))

def pause (t : Timeline) (now : Nanos) : Timeline :=
  if t.paused then t else { t with folded := Nanos.plus t.folded (t.passed now), paused := true }

def resume (t : Timeline) (now : Nanos) : Timeline :=
  if t.paused then { t with anchor := now, paused := false } else t

def setSpeed (t : Timeline) (now : Nanos) (speed : Speed) : Timeline :=
  if t.paused then { t with speed }
  else { t with folded := Nanos.plus t.folded (t.passed now), anchor := now, speed }

variable (t : Timeline) (now : Nanos)

@[simp] theorem speed_pause : (t.pause now).speed = t.speed := by
  unfold pause
  split <;> rfl

@[simp] theorem paused_pause : (t.pause now).paused = true := by
  unfold pause
  split
  · assumption
  · rfl

@[simp] theorem speed_resume : (t.resume now).speed = t.speed := by
  unfold resume
  split <;> rfl

@[simp] theorem paused_resume : (t.resume now).paused = false := by
  unfold resume
  split
  · rfl
  · rename_i h
    exact Bool.eq_false_iff.mpr h

@[simp] theorem speed_setSpeed (speed : Speed) : (t.setSpeed now speed).speed = speed := by
  unfold setSpeed
  split <;> rfl

@[simp] theorem paused_setSpeed (speed : Speed) :
    (t.setSpeed now speed).paused = t.paused := by
  unfold setSpeed
  split <;> rfl

end Timeline

/-- Lets through log times that are at least `interval` above the last one let through. -/
structure Limiter where
  interval : Nanos
  last : Nanos
  deriving DecidableEq

namespace Limiter

def defaultInterval : Nanos := 1000000000 / 60

def start (interval : Nanos) : Limiter := ⟨interval, 0⟩

/-- The limiter after `t` went through; `none` if it is held back. -/
def pass? (l : Limiter) (t : Nanos) : Option Limiter :=
  if l.interval ≤ Nanos.minus t l.last then some { l with last := t } else none

end Limiter

end Replay
