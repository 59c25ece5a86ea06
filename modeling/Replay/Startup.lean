import Replay.CommandLine
import Replay.Hub
import Replay.Player

/-!
From the options of the command line to a playback that is ready to be served.
-/

namespace Replay

structure Startup where
  config : Config
  player : Player
  info : ServerInfo

namespace Startup

inductive Error where
  | config (e : Config.Error)
  | recording (path : String) (e : Recording.Error)
  /-- The address cannot be listened on, or the playback failed later. -/
  | playback (e : Recording.Error)
  deriving DecidableEq

def Error.chain : Error → List String
  | .config e => e.chain
  | .recording path e => ["Failed to open " ++ path, e.message]
  | .playback e => [e.message]

def Error.headline (e : Error) : String := "Error: " ++ e.chain.headD ""

/-- The name of the file that a path leads to; the path itself if it does not end in a name. -/
def displayName (path : String) : String :=
  let parts := (path.splitOn "/").filter fun part => part ≠ "" && part ≠ "."
  match parts.getLast? with
  | some name => if name = ".." then path else name
  | none => path

def capabilities : List Capability := [.rangedPlayback, .time]

/-- Reads the configuration and opens the recording. A session has an id of its own. -/
def prepare (env : Environment) (w : World) (o : CommandLine.Options) (session : String) :
    Except Error Startup := do
  let file := o.config.map fun path => (path, w.disk.read? path)
  let config ← (Config.settle env file o.flags).mapError .config
  let options : Player.Options := ⟨config.playback.initialSpeed, config.playback.notifyInterval⟩
  let player ← (Player.openFile w.disk o.file options).mapError (.recording o.file)
  return {
    config
    player := if config.playback.autoplay then player.play w.now else player
    info := {
      name := config.server.name.getD (displayName o.file)
      capabilities
      dataStart := player.range.start
      dataEnd := player.range.stop
      sessionId := session } }

/-- The hub to serve from. It knows the state before any viewer comes. -/
def hub (s : Startup) : Hub :=
  (Hub.start s.info s.config.server.queueCapacity.toNat).publishState
    (Source.snapshot false none s.player)

end Startup

end Replay
