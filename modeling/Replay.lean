import Replay.Main
import Replay.Pacing.Virtual
import Replay.Proofs.Pacing.RealTime
import Replay.Proofs.Player.Delivery
import Replay.Proofs.Server.Publication
import Replay.Server
import Replay.Proofs.Player.Coherence
import Replay.Proofs.Player.Completeness
import Replay.Proofs.Server.Chronicle
import Replay.Proofs.Server.Introduction
import Replay.Proofs.Server.Intake
import Replay.Proofs.Timeline.LogTime
import Replay.Proofs.Player.Failure
import Replay.Proofs.Pacing.Ending
import Replay.Proofs.Pacing.Silence
import Replay.Proofs.Pacing.TurnsInSections
import Replay.Proofs.Frame.Decoding
import Replay.Proofs.Player.Ticks
import Replay.Proofs.Recording.Channels
import Replay.Proofs.Player.Topics
import Replay.Proofs.Server.Handling
import Replay.Proofs.Server.Noninterference
import Replay.Proofs.Timeline.Delay
import Replay.Proofs.Config.Precedence
import Replay.Proofs.Server.Admission
import Replay.Proofs.Server.Shutdown
import Replay.Proofs.Message.RoundTrip
import Replay.Proofs.Timeline.Continuity
import Replay.Proofs.Player.Due
import Replay.Proofs.Player.PlayThrough
import Replay.Proofs.Player.TickRule
import Replay.Proofs.Player.Retry
import Replay.Proofs.Recording.Ahead
import Replay.Proofs.Player.Position
import Replay.Proofs.Timeline.InStep
import Replay.Proofs.Player.InStep
import Replay.Proofs.Player.Interludes
import Replay.Proofs.Text.Base64
import Replay.Proofs.Text.Utf8
import Replay.Proofs.Channel.Description
import Replay.Proofs.Config.References
import Replay.Proofs.Config.Effect
import Replay.Proofs.Message.AnyOrder
