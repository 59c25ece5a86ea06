import Replay.Channel
import Replay.State

/-!
Where the output of a playback goes.
-/

namespace Replay

/-- Something that takes the output of a playback. -/
class Sink (σ : Type) where
  time (t : Nanos) (s : σ) : σ
  state (x : State) (s : σ) : σ
  /-- Makes a channel known and gives the id under which its messages come. -/
  addChannel (c : Channel) (s : σ) : ChannelId × σ
  log (id : ChannelId) (payload : Bytes) (t : Nanos) (s : σ) : σ

inductive Event where
  | time (t : Nanos)
  | state (x : State)
  | channel (id : ChannelId) (c : Channel)
  | message (id : ChannelId) (payload : Bytes) (t : Nanos)
  deriving DecidableEq

/-- A sink that keeps what it is given. Ids go by topic, from one on. -/
structure Recorder where
  events : List Event
  topics : List String
  deriving DecidableEq

namespace Recorder

def empty : Recorder := ⟨[], []⟩

/-- The id of a topic, and the topics with it. -/
def idOf (topics : List String) (topic : String) : ChannelId × List String :=
  match topics.findIdx? (· == topic) with
  | some i => (UInt32.ofNat (i + 1), topics)
  | none => (UInt32.ofNat (topics.length + 1), topics ++ [topic])

instance : Sink Recorder where
  time t r := { r with events := r.events ++ [.time t] }
  state x r := { r with events := r.events ++ [.state x] }
  addChannel c r :=
    let (id, topics) := idOf r.topics c.topic
    (id, ⟨r.events ++ [.channel id c], topics⟩)
  log id payload t r := { r with events := r.events ++ [.message id payload t] }

end Recorder

end Replay
