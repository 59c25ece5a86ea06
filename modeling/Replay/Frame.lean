import Replay.Time.Nanos
import Replay.Bytes

/-!
Binary frames: a message on a channel, or the current time.
-/

namespace Replay

abbrev ChannelId := UInt32

inductive Frame where
  | message (channel : ChannelId) (logTime : Nanos) (payload : Bytes)
  | time (timestamp : Nanos)
  deriving DecidableEq

namespace Frame

def messageCode : UInt8 := 1
def timeCode : UInt8 := 2

def encode : Frame → Bytes
  | .message channel logTime payload =>
    messageCode :: (Bytes.ofNat 4 channel.toNat ++ (Bytes.ofNat 8 logTime.toNat ++ payload))
  | .time timestamp => timeCode :: Bytes.ofNat 8 timestamp.toNat

/-- `none` for a frame of another kind or one that is cut short. Bytes behind a time are ignored. -/
def decode? : Bytes → Option Frame
  | [] => none
  | code :: rest =>
    if code = messageCode then do
      let (channel, rest) ← Bytes.takeNat? 4 rest
      let (logTime, payload) ← Bytes.takeNat? 8 rest
      return .message (UInt32.ofNat channel) (UInt64.ofNat logTime) payload
    else if code = timeCode then do
      let (timestamp, _) ← Bytes.takeNat? 8 rest
      return .time (UInt64.ofNat timestamp)
    else none

end Frame

end Replay
