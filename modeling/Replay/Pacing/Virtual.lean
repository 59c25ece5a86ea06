import Replay.Pacing

/-!
The loop under virtual time: nothing takes time but sleeping, and a sleep ends on a whole
millisecond. Requests come at given times, between two turns of the loop.
-/

namespace Replay.Pacing.Virtual

/-- When a sleep ends that begins at `t`. -/
def wake (t span : Nat) : Nat := (t + span + 999999) / 1000000 * 1000000

/-- What can be seen of a run. -/
inductive Happening where
  | event (e : Event)
  | read (result : Except Recording.Error (Option Nanos))
  | control (state : State)

inductive Outcome where
  | cut
  | failed (e : Recording.Error)

/-- What happened, with the times, and how and when the run ended. -/
structure Report where
  happenings : List (Nat × Happening)
  outcome : Outcome
  time : Nat

def Report.after (earlier : List (Nat × Happening)) (r : Report) : Report :=
  { r with happenings := earlier ++ r.happenings }

structure Control where
  time : Nat
  request : Request

structure Setting where
  disk : Disk
  settings : Settings
  stop : Nat

def Setting.world (g : Setting) (t : Nat) : World := ⟨UInt64.ofNat t, g.disk⟩

variable {π : Type} [Source π]

/-- Applies the requests that come before `t`. -/
def controlsBefore (g : Setting) (t : Nat) :
    List Control → π → List (Nat × Happening) × List Control × π
  | [], p => ([], [], p)
  | c :: cs, p =>
    if c.time < t then
      let (state, p) := Source.apply (g.world c.time) c.request p
      let (seen, cs, p) := controlsBefore g t cs p
      ((c.time, .control state) :: seen, cs, p)
    else ([], c :: cs, p)

private def seenAt (t : Nat) (r : Recorder) : List (Nat × Happening) :=
  r.events.map fun e => (t, .event e)

/-- Turns of the loop from time `t` on. A turn that sleeps takes time and one that does not takes
a message, so that some number of turns is enough for every run. -/
def run (g : Setting) :
    (turns : Nat) → (t : Nat) → (wasEnded : Bool) → List Control → π → (topics : List String) →
      Report
  | 0, t, _, _, _, _ => ⟨[], .cut, t⟩
  | turns + 1, t, wasEnded, controls, p, topics =>
    let (playing, ended, sink) := look wasEnded p (⟨[], topics⟩ : Recorder)
    let looked := seenAt t sink
    let sleep (span : Nat) (p : π) (topics : List String) : Report :=
      let until_ := min (wake t span) g.stop
      let (seen, controls, p) := controlsBefore g until_ controls p
      let rest := if g.stop ≤ wake t span then ⟨[], .cut, g.stop⟩
        else run g turns (wake t span) ended controls p topics
      rest.after seen
    if playing then
      match Source.logNext (g.world t) p (⟨[], sink.topics⟩ : Recorder) with
      | (.error e, _, sink) =>
        ⟨looked ++ seenAt t sink ++ [(t, .read (.error e))], .failed e, t⟩
      | (.ok read, p, sink) =>
        let seen := looked ++ seenAt t sink ++ [(t, .read (.ok read))]
        match g.settings.pauseAfter read with
        | .yield => (run g turns t ended controls p sink.topics).after seen
        | .sleep span => (sleep span p sink.topics).after seen
    else (sleep g.settings.idle p sink.topics).after looked

end Replay.Pacing.Virtual
