import Replay.Pacing
import Replay.Timeline

/-!
The configuration of a playback server, and the settings that its parts are given from it.
-/

namespace Replay

structure Config.Server where
  host : String
  port : UInt16
  /-- The name that viewers are shown, in place of that of the recording. -/
  name : Option String
  queueCapacity : UInt64
  deriving DecidableEq

structure Config.Playback where
  initialSpeed : Binary64
  idleMillis : UInt64
  maxSleepMillis : UInt64
  /-- How many times are told in a second of log time at most. -/
  notifyHertz : UInt32
  autoplay : Bool
  deriving DecidableEq

structure Config.Logging where
  level : String
  format : String
  deriving DecidableEq

structure Config where
  server : Config.Server
  playback : Config.Playback
  logging : Config.Logging
  deriving DecidableEq

namespace Config

def Server.default : Server := ⟨"127.0.0.1", 8765, none, 1024⟩

def Playback.default : Playback := ⟨Binary64.ofNat 1, 10, 1000, 60, false⟩

def Logging.default : Logging := ⟨"info", "text"⟩

def default : Config := ⟨.default, .default, .default⟩

def Playback.pacing (p : Playback) : Pacing.Settings :=
  ⟨p.idleMillis.toNat * 1000000, p.maxSleepMillis.toNat * 1000000⟩

/-- The spacing of the times that are told. -/
def Playback.notifyInterval (p : Playback) : Nanos :=
  1000000000 / UInt64.ofNat (max p.notifyHertz.toNat 1)

end Config

end Replay
