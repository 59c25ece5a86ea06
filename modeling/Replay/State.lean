import Replay.Time.Nanos

/-!
The state of a playback as viewers see it, and their requests to change it.
-/

namespace Replay

inductive Status where
  | paused
  | playing
  | ended
  deriving DecidableEq

structure State where
  currentTime : Nanos
  speed : Binary64
  status : Status
  /-- Whether the request that this answers moved the position. -/
  didSeek : Bool
  requestId : Option String
  deriving DecidableEq

inductive Command where
  | play
  | pause
  deriving DecidableEq

/-- A request to change a playback. The speed is always set; the rest is optional. -/
structure Request where
  command : Option Command
  speed : Binary64
  seek : Option Nanos
  requestId : Option String
  deriving DecidableEq

end Replay
