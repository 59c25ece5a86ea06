import Replay.Source

/-!
The loop that drives a playback. A turn has two sections: it looks at the status, and tells the
state when the end is new; then it reads on if the status was playing. Between the turns it
sleeps until the next message is due, but never so long that a request would be kept waiting.
-/

namespace Replay.Pacing

/-- Spans in nanoseconds, of any size. -/
structure Settings where
  idle : Nat
  maxSleep : Nat
  deriving DecidableEq

/-- Ten milliseconds, and one second. -/
def Settings.default : Settings := ⟨10000000, 1000000000⟩

variable {π σ : Type} [Source π] [Sink σ]

/-- The first section: the state is told if the playback has ended since the last look. Gives
whether it is playing and whether it has ended. -/
def look (wasEnded : Bool) (p : π) (s : σ) : Bool × Bool × σ :=
  let ended := decide (Source.status p = .ended)
  let s := if ended && !wasEnded then Sink.state (Source.snapshot false none p) s else s
  (decide (Source.status p = .playing), ended, s)

/-- What the loop does before its next turn. -/
inductive Pause where
  | sleep (span : Nat)
  /-- Nothing: the next message may be due already. -/
  | yield
  deriving DecidableEq

/-- The sleep until the next message is due, cut to the longest one. -/
def Settings.pauseAfter (settings : Settings) : Option Nanos → Pause
  | some span => .sleep (min span.toNat settings.maxSleep)
  | none => .yield

def advance (settings : Settings) (w : World) (p : π) (s : σ) :
    Except Recording.Error Pause × π × σ :=
  let (read, p, s) := Source.logNext w p s
  (read.map settings.pauseAfter, p, s)

end Replay.Pacing
