import Replay.Json.Record
import Replay.Message

/-!
Messages as JSON texts. A message names its variant under `op`, before its other members.
-/

namespace Replay

open Json (Kind Record Slot Value Fields)

private def required (key : String) (kind : Kind) : Slot Kind := ⟨key, true, kind⟩
private def absentable (key : String) (kind : Kind) : Slot Kind := ⟨key, false, kind⟩

namespace Status

def name : Status → String
  | .paused => "paused"
  | .playing => "playing"
  | .ended => "ended"

def ofName (s : String) : Status :=
  if s = "playing" then .playing else if s = "ended" then .ended else .paused

end Status

namespace Command

def name : Command → String
  | .play => "play"
  | .pause => "pause"

def ofName (s : String) : Command := if s = "play" then .play else .pause

end Command

namespace Capability

def name : Capability → String
  | .rangedPlayback => "rangedPlayback"
  | .time => "time"

def ofName (s : String) : Capability := if s = "time" then .time else .rangedPlayback

end Capability

namespace Severity

def name : Severity → String
  | .info => "info"
  | .warning => "warning"
  | .error => "error"

def ofName (s : String) : Severity :=
  if s = "warning" then .warning else if s = "error" then .error else .info

end Severity

namespace State

def wire : Record State where
  title := "struct PlaybackState"
  fields := [
    required "currentTime" (.word 64),
    required "playbackSpeed" .number,
    required "status" (.choice ["paused", "playing", "ended"]),
    required "didSeek" .boolean,
    absentable "requestId" (.optional .text)]
  members s := [
    ("currentTime", .ofNat s.currentTime.toNat),
    ("playbackSpeed", .number s.speed),
    ("status", .text s.status.name),
    ("didSeek", .boolean s.didSeek)] ++
    Json.optionalMember "requestId" .text s.requestId
  ofFields fs := {
    currentTime := UInt64.ofNat (fs.get "currentTime").toNat
    speed := (fs.get "playbackSpeed").toBinary64
    status := .ofName (fs.get "status").toText
    didSeek := (fs.get "didSeek").toBool
    requestId := (fs.get "requestId").toOption Value.toText }

end State

namespace Request

def defaultSpeed : Binary64 := Binary64.ofNat 1

def wire : Record Request where
  title := "struct PlaybackControlRequest"
  fields := [
    absentable "playbackCommand" (.optional (.choice ["play", "pause"])),
    absentable "playbackSpeed" .number,
    absentable "seekTime" (.optional (.word 64)),
    absentable "requestId" (.optional .text)]
  members r :=
    Json.optionalMember "playbackCommand" (fun c => .text c.name) r.command ++
    ("playbackSpeed", .number r.speed) ::
    (Json.optionalMember "seekTime" (fun t => .ofNat t.toNat) r.seek ++
      Json.optionalMember "requestId" .text r.requestId)
  ofFields fs := {
    command := (fs.get "playbackCommand").toOption fun v => .ofName v.toText
    speed := ((fs.get "playbackSpeed").toOption Value.toBinary64).getD defaultSpeed
    seek := (fs.get "seekTime").toOption fun v => UInt64.ofNat v.toNat
    requestId := (fs.get "requestId").toOption Value.toText }

end Request

namespace ServerInfo

def wire : Record ServerInfo where
  title := "struct ServerInfo"
  fields := [
    required "name" .text,
    required "capabilities" (.list (.choice ["rangedPlayback", "time"])),
    required "dataStartTime" (.word 64),
    required "dataEndTime" (.word 64),
    required "sessionId" .text]
  members i := [
    ("name", .text i.name),
    ("capabilities", .list (i.capabilities.map fun c => .text c.name)),
    ("dataStartTime", .ofNat i.dataStart.toNat),
    ("dataEndTime", .ofNat i.dataEnd.toNat),
    ("sessionId", .text i.sessionId)]
  ofFields fs := {
    name := (fs.get "name").toText
    capabilities := (fs.get "capabilities").toList fun v => .ofName v.toText
    dataStart := UInt64.ofNat (fs.get "dataStartTime").toNat
    dataEnd := UInt64.ofNat (fs.get "dataEndTime").toNat
    sessionId := (fs.get "sessionId").toText }

end ServerInfo

namespace Advertised

def wire : Record Advertised where
  title := "struct AdvertisedChannel"
  fields := [
    required "id" (.word 32),
    required "topic" .text,
    required "encoding" .text,
    required "schemaName" .text,
    absentable "schemaEncoding" (.optional .text),
    required "schema" .text]
  members a := [
    ("id", .ofNat a.id.toNat),
    ("topic", .text a.topic),
    ("encoding", .text a.encoding),
    ("schemaName", .text a.schemaName)] ++
    Json.optionalMember "schemaEncoding" .text a.schemaEncoding ++
    [("schema", .text a.schema)]
  ofFields fs := {
    id := UInt32.ofNat (fs.get "id").toNat
    topic := (fs.get "topic").toText
    encoding := (fs.get "encoding").toText
    schemaName := (fs.get "schemaName").toText
    schemaEncoding := (fs.get "schemaEncoding").toOption Value.toText
    schema := (fs.get "schema").toText }

end Advertised

/-- A message whose variant is named under `op`. -/
structure Json.Tagged (α : Type) where
  title : String
  variants : List String
  kind : String → Kind
  variant : α → String
  members : α → List (String × Value)
  ofFields : String → Fields → α

namespace Json.Tagged

variable {α : Type} (t : Tagged α)

def tag : String := "op"

def toValue (x : α) : Value := .object ((tag, .text (t.variant x)) :: t.members x)

def render (x : α) : String := (t.toValue x).render

/-- Reads a message into memory, and then by the kind of its variant. -/
def reader : Reader (Except Cause α) := do
  let (variant, content) ← Reader.tagged t.title tag t.variants
  return ((t.kind variant).ofValue content).map fun v => t.ofFields variant v.toFields

def parse (text : String) : Except Error α := Reader.runChecked t.reader text

end Json.Tagged

namespace ClientMessage

private def idsKind (title : String) : Kind :=
  .record title [required "channelIds" (.list (.word 32))]

private def idsMembers (ids : List ChannelId) : List (String × Value) :=
  [("channelIds", .list (ids.map fun id => .ofNat id.toNat))]

private def idsOfFields (fs : Fields) : List ChannelId :=
  (fs.get "channelIds").toList fun v => UInt32.ofNat v.toNat

def wire : Json.Tagged ClientMessage where
  title := "internally tagged enum ClientMessage"
  variants := ["subscribe", "unsubscribe", "playbackControlRequest"]
  kind variant :=
    if variant = "subscribe" then idsKind "struct variant ClientMessage::Subscribe"
    else if variant = "unsubscribe" then idsKind "struct variant ClientMessage::Unsubscribe"
    else Request.wire.kind
  variant
    | .subscribe _ => "subscribe"
    | .unsubscribe _ => "unsubscribe"
    | .control _ => "playbackControlRequest"
  members
    | .subscribe ids => idsMembers ids
    | .unsubscribe ids => idsMembers ids
    | .control request => Request.wire.members request
  ofFields variant fs :=
    if variant = "subscribe" then .subscribe (idsOfFields fs)
    else if variant = "unsubscribe" then .unsubscribe (idsOfFields fs)
    else .control (Request.wire.ofFields fs)

end ClientMessage

namespace ServerMessage

def wire : Json.Tagged ServerMessage where
  title := "internally tagged enum ServerMessage"
  variants := ["serverInfo", "advertise", "playbackState", "status"]
  kind variant :=
    if variant = "serverInfo" then ServerInfo.wire.kind
    else if variant = "advertise" then
      .record "struct variant ServerMessage::Advertise"
        [required "channels" (.list Advertised.wire.kind)]
    else if variant = "playbackState" then State.wire.kind
    else
      .record "struct variant ServerMessage::Status" [
        required "level" (.choice ["info", "warning", "error"]),
        required "message" .text]
  variant
    | .serverInfo _ => "serverInfo"
    | .advertise _ => "advertise"
    | .state _ => "playbackState"
    | .status _ _ => "status"
  members
    | .serverInfo info => ServerInfo.wire.members info
    | .advertise channels => [("channels", .list (channels.map Advertised.wire.toValue))]
    | .state s => State.wire.members s
    | .status severity text => [("level", .text severity.name), ("message", .text text)]
  ofFields variant fs :=
    if variant = "serverInfo" then .serverInfo (ServerInfo.wire.ofFields fs)
    else if variant = "advertise" then
      .advertise ((fs.get "channels").toList Advertised.wire.ofValue)
    else if variant = "playbackState" then .state (State.wire.ofFields fs)
    else .status (.ofName (fs.get "level").toText) (fs.get "message").toText

end ServerMessage

end Replay
