import Replay.Channel
import Replay.State

/-!
The text messages between a server and its viewers.
-/

namespace Replay

inductive Capability where
  | rangedPlayback
  | time
  deriving DecidableEq

/-- What a viewer is told first. -/
structure ServerInfo where
  name : String
  capabilities : List Capability
  dataStart : Nanos
  dataEnd : Nanos
  sessionId : String
  deriving DecidableEq

inductive Severity where
  | info
  | warning
  | error
  deriving DecidableEq

/-- From a viewer. -/
inductive ClientMessage where
  | subscribe (ids : List ChannelId)
  | unsubscribe (ids : List ChannelId)
  | control (request : Request)
  deriving DecidableEq

/-- To a viewer. -/
inductive ServerMessage where
  | serverInfo (info : ServerInfo)
  | advertise (channels : List Advertised)
  | state (state : State)
  | status (severity : Severity) (text : String)
  deriving DecidableEq

end Replay
