import Replay.Disk
import Replay.Recording.Error
import Replay.Sink

/-!
What can be played back, and how a viewer's request changes it.
-/

namespace Replay

class Source (π : Type) where
  status (p : π) : Status
  currentTime (p : π) : Nanos
  speed (p : π) : Binary64
  play (w : World) (p : π) : π
  pause (w : World) (p : π) : π
  /-- Moves the position. A move that fails gives no source to go on with, so the one before it is
  kept: `Player.seek` opens its new cursor first, nothing else in it can fail, and it changes the
  player only then. -/
  seek (w : World) (t : Nanos) (p : π) : Except Recording.Error π
  setSpeed (w : World) (x : Binary64) (p : π) : π
  /-- Gives the next message to the sink if it is due, else the time to wait for it. -/
  logNext {σ : Type} [Sink σ] (w : World) (p : π) (s : σ) :
    Except Recording.Error (Option Nanos) × π × σ

namespace Source

variable {π : Type} [Source π]

def snapshot (didSeek : Bool) (requestId : Option String) (p : π) : State :=
  ⟨currentTime p, speed p, status p, didSeek, requestId⟩

def move (w : World) (target : Option Nanos) (p : π) : Bool × π :=
  match target with
  | none => (false, p)
  | some t =>
    match seek w t p with
    | .ok p => (true, p)
    | .error _ => (false, p)

def command (w : World) (c : Option Command) (p : π) : π :=
  match c with
  | some .play => play w p
  | some .pause => pause w p
  | none => p

/-- Applies a request: first the move, then the speed, then the command. The answer is the state
after it. -/
def apply (w : World) (r : Request) (p : π) : State × π :=
  let (didSeek, p) := move w r.seek p
  let p := command w r.command (setSpeed w r.speed p)
  (snapshot didSeek r.requestId p, p)

end Source

end Replay
