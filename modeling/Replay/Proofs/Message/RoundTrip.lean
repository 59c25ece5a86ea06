import Replay.Proofs.Json.Decimals
import Replay.Proofs.Json.Records

/-!
Messages are read back from their texts (`texts_round_trip`), whatever characters, numbers and
lists are in them and whichever of their fields are present, as long as the reader of numbers gives
back the speed that is in them. It gives back every speed whose decimal is short.
-/

namespace Replay

open Json (Fields Fits InOrder ReadsBack Record Tagged Value depthLimit)

section Words

variable {depth : Nat}

theorem Json.Fits.word64 (n : UInt64) : Fits (.word 64) depth (.ofNat n.toNat) :=
  .word n.toNat_lt n.toNat_lt

theorem Json.Fits.word32 (n : UInt32) : Fits (.word 32) depth (.ofNat n.toNat) :=
  .word n.toNat_lt (Nat.lt_trans n.toNat_lt (by decide))

end Words

namespace Status

theorem ofName_name (s : Status) : ofName s.name = s := by cases s <;> rfl

theorem name_mem (s : Status) : s.name ∈ ["paused", "playing", "ended"] := by
  cases s <;> simp [name]

end Status

namespace State

theorem inOrder {s : State} (hspeed : ReadsBack s.speed) (depth : Nat) :
    InOrder depth wire.fields (wire.members s) :=
  .given (.word64 _) <| .given (.number hspeed) <| .given (.choice s.status.name_mem) <|
    .given (.boolean _) <| .optionalEnd .text _

theorem ofFields_members (s : State) : wire.ofFields (wire.members s) = s := by
  have hid : (Fields.get (Json.optionalMember "requestId" .text s.requestId)
      "requestId").toOption Value.toText = s.requestId :=
    Fields.toOption_get_optionalEnd (by simp) (by simp) _
  simp [wire, Status.ofName_name, hid]

theorem faithful {s : State} (hspeed : ReadsBack s.speed) : wire.Faithful s where
  fits := (inOrder hspeed _).fits (by decide) _
  back := ofFields_members s

end State

namespace Command

theorem ofName_name (c : Command) : ofName c.name = c := by cases c <;> rfl

theorem name_mem (c : Command) : c.name ∈ ["play", "pause"] := by cases c <;> simp [name]

end Command

namespace Request

theorem inOrder {r : Request} (hspeed : ReadsBack r.speed) (depth : Nat) :
    InOrder depth wire.fields (wire.members r) :=
  .optional (fun c => .choice c.name_mem) _ <| .given (.number hspeed) <|
    .optional (fun t => .word64 t) _ <| .optionalEnd .text _

theorem ofFields_members (r : Request) : wire.ofFields (wire.members r) = r := by
  have hid : (Fields.get (Json.optionalMember "requestId" .text r.requestId)
      "requestId").toOption Value.toText = r.requestId :=
    Fields.toOption_get_optionalEnd (by simp) (by simp) _
  have hseek (fs : Fields) (hfs : fs.get "seekTime" = .null) :
      (Fields.get (Json.optionalMember "seekTime" (fun t => .ofNat t.toNat) r.seek ++ fs)
        "seekTime").toOption (fun v => UInt64.ofNat v.toNat) = r.seek :=
    Fields.toOption_get_optional (by simp [Value.ofNat]) (by simp) hfs _
  have hcommand (fs : Fields) (hfs : fs.get "playbackCommand" = .null) :
      (Fields.get (Json.optionalMember "playbackCommand" (fun c => .text c.name) r.command ++ fs)
        "playbackCommand").toOption (fun v => Command.ofName v.toText) = r.command :=
    Fields.toOption_get_optional (by simp) (by simp [Command.ofName_name]) hfs _
  simp [wire, hid, hseek, hcommand, Value.toOption_of_ne]

theorem faithful {r : Request} (hspeed : ReadsBack r.speed) : wire.Faithful r where
  fits := (inOrder hspeed _).fits (by decide) _
  back := ofFields_members r

end Request

namespace Capability

theorem ofName_name (c : Capability) : ofName c.name = c := by cases c <;> rfl

theorem name_mem (c : Capability) : c.name ∈ ["rangedPlayback", "time"] := by
  cases c <;> simp [name]

end Capability

namespace ServerInfo

theorem inOrder (i : ServerInfo) (depth : Nat) :
    InOrder (depth + 1) wire.fields (wire.members i) :=
  .given (.text _) <| .given (.list (by
    intro v hv
    obtain ⟨c, -, rfl⟩ := List.mem_map.mp hv
    exact .choice c.name_mem)) <|
  .given (.word64 _) <| .given (.word64 _) <| .given (.text _) .nil

theorem ofFields_members (i : ServerInfo) : wire.ofFields (wire.members i) = i := by
  simp [wire, Function.comp_def, Capability.ofName_name]

theorem faithful (i : ServerInfo) : wire.Faithful i where
  fits := (inOrder i _).fits (by decide) _
  back := ofFields_members i

end ServerInfo

namespace Advertised

theorem inOrder (a : Advertised) (depth : Nat) : InOrder depth wire.fields (wire.members a) :=
  .given (.word32 _) <| .given (.text _) <| .given (.text _) <| .given (.text _) <|
    .optional .text _ <| .given (.text _) .nil

theorem ofFields_members (a : Advertised) : wire.ofFields (wire.members a) = a := by
  have hencoding (fs : Fields) (hfs : fs.get "schemaEncoding" = .null) :
      (Fields.get (Json.optionalMember "schemaEncoding" .text a.schemaEncoding ++ fs)
        "schemaEncoding").toOption Value.toText = a.schemaEncoding :=
    Fields.toOption_get_optional (by simp) (by simp) hfs _
  simp [wire, hencoding]

theorem faithful (a : Advertised) : wire.Faithful a where
  fits := (inOrder a _).fits (by decide) _
  back := ofFields_members a

end Advertised

namespace ClientMessage

/-- The speed that a message carries, if any, is read back. -/
def SpeedReadsBack : ClientMessage → Prop
  | .control request => ReadsBack request.speed
  | _ => True

theorem ids_inOrder (ids : List ChannelId) (depth : Nat) :
    InOrder (depth + 1) [⟨"channelIds", true, .list (.word 32)⟩]
      [("channelIds", .list (ids.map fun id => .ofNat id.toNat))] :=
  .given (.list (by
    intro v hv
    obtain ⟨id, -, rfl⟩ := List.mem_map.mp hv
    exact .word32 id)) .nil

theorem ids_back (ids : List ChannelId) :
    ((Fields.get [("channelIds", .list (ids.map fun id => .ofNat id.toNat))]
      "channelIds").toList fun v => UInt32.ofNat v.toNat) = ids := by
  simp [Function.comp_def]

theorem faithful {m : ClientMessage} (h : m.SpeedReadsBack) : wire.Faithful m := by
  cases m with
  | subscribe ids =>
    exact .of_inOrder (by simp [wire]) rfl (by decide) (ids_inOrder ids _)
      (congrArg subscribe (ids_back ids))
  | unsubscribe ids =>
    exact .of_inOrder (by simp [wire]) rfl (by decide) (ids_inOrder ids _)
      (congrArg unsubscribe (ids_back ids))
  | control request =>
    exact .of_inOrder (by simp [wire]) rfl (by decide) (Request.inOrder h _)
      (congrArg control (Request.ofFields_members request))

end ClientMessage

namespace Severity

theorem ofName_name (s : Severity) : ofName s.name = s := by cases s <;> rfl

theorem name_mem (s : Severity) : s.name ∈ ["info", "warning", "error"] := by
  cases s <;> simp [name]

end Severity

namespace ServerMessage

/-- The speed that a message carries, if any, is read back. -/
def SpeedReadsBack : ServerMessage → Prop
  | .state s => ReadsBack s.speed
  | _ => True

theorem channels_inOrder (channels : List Advertised) (depth : Nat) :
    InOrder (depth + 2) [⟨"channels", true, .list Advertised.wire.kind⟩]
      [("channels", .list (channels.map Advertised.wire.toValue))] :=
  .given (.list (by
    intro v hv
    obtain ⟨channel, -, rfl⟩ := List.mem_map.mp hv
    exact (Advertised.inOrder channel depth).fits (by decide) _)) .nil

theorem channels_back (channels : List Advertised) :
    (Fields.get [("channels", .list (channels.map Advertised.wire.toValue))]
      "channels").toList Advertised.wire.ofValue = channels := by
  have hback : ∀ a, Advertised.wire.ofValue (Advertised.wire.toValue a) = a :=
    Advertised.ofFields_members
  simp [Function.comp_def, hback]

theorem status_inOrder (severity : Severity) (text : String) (depth : Nat) :
    InOrder depth
      [⟨"level", true, .choice ["info", "warning", "error"]⟩, ⟨"message", true, .text⟩]
      [("level", .text severity.name), ("message", .text text)] :=
  .given (.choice severity.name_mem) <| .given (.text _) .nil

theorem faithful {m : ServerMessage} (h : m.SpeedReadsBack) : wire.Faithful m := by
  cases m with
  | serverInfo info =>
    exact .of_inOrder (by simp [wire]) rfl (by decide) (ServerInfo.inOrder info _)
      (congrArg serverInfo (ServerInfo.ofFields_members info))
  | advertise channels =>
    exact .of_inOrder (by simp [wire]) rfl (by decide) (channels_inOrder channels _)
      (congrArg advertise (channels_back channels))
  | state s =>
    exact .of_inOrder (by simp [wire]) rfl (by decide) (State.inOrder h _)
      (congrArg state (State.ofFields_members s))
  | status severity text =>
    exact .of_inOrder (by simp [wire]) rfl (by decide) (status_inOrder severity text _)
      (congrArg (status · text) severity.ofName_name)

end ServerMessage

/-- The text of a value gives the value back, and so the same text again. -/
def RoundTrips {α : Type} (render : α → String) (parse : String → Except Json.Error α) (x : α) :
    Prop :=
  parse (render x) = .ok x ∧ (parse (render x)).map render = .ok (render x)

theorem RoundTrips.of_parse {α : Type} {render : α → String}
    {parse : String → Except Json.Error α} {x : α} (h : parse (render x) = .ok x) :
    RoundTrips render parse x := by
  refine ⟨h, ?_⟩
  rw [h]
  rfl

/-- Messages, requests, states and descriptions are read back from their texts if their speed is,
the texts of messages of different variants differ, and a speed with a short decimal is read
back. -/
theorem texts_round_trip :
    (∀ m : ClientMessage, m.SpeedReadsBack →
      RoundTrips ClientMessage.wire.render ClientMessage.wire.parse m) ∧
    (∀ m : ServerMessage, m.SpeedReadsBack →
      RoundTrips ServerMessage.wire.render ServerMessage.wire.parse m) ∧
    (∀ r : Request, ReadsBack r.speed → RoundTrips Request.wire.render Request.wire.parse r) ∧
    (∀ s : State, ReadsBack s.speed → RoundTrips State.wire.render State.wire.parse s) ∧
    (∀ i : ServerInfo, RoundTrips ServerInfo.wire.render ServerInfo.wire.parse i) ∧
    (∀ a : Advertised, RoundTrips Advertised.wire.render Advertised.wire.parse a) ∧
    (∀ m n : ClientMessage, ClientMessage.wire.render m = ClientMessage.wire.render n →
      ClientMessage.wire.variant m = ClientMessage.wire.variant n) ∧
    (∀ m n : ServerMessage, ServerMessage.wire.render m = ServerMessage.wire.render n →
      ServerMessage.wire.variant m = ServerMessage.wire.variant n) ∧
    (∀ (m : Magnitude) (negative : Bool), (Decimal.shortest m).IsShort →
      ReadsBack (.finite negative m)) :=
  ⟨fun _ h => .of_parse (ClientMessage.faithful h).parse_render,
    fun _ h => .of_parse (ServerMessage.faithful h).parse_render,
    fun _ h => .of_parse (Request.faithful h).parse_render,
    fun _ h => .of_parse (State.faithful h).parse_render,
    fun i => .of_parse (ServerInfo.faithful i).parse_render,
    fun a => .of_parse (Advertised.faithful a).parse_render,
    fun _ _ => Tagged.variant_of_render, fun _ _ => Tagged.variant_of_render,
    fun _ negative h => Json.readsBack_of_isShort h negative⟩

/-- One and a half times real time. -/
def threeHalves : Magnitude where
  quanta := Grid.round (3 * Magnitude.one) 2
  fits := by decide +kernel

/-- A request that asks for no position. In its id are a quote, a backslash, a control character and
a character beyond the first 65536. -/
def oddRequest : Request where
  command := some .pause
  speed := .finite false threeHalves
  seek := none
  requestId := some "\"\\\x01𝄞"

/-- What is answered to that request. -/
def oddState : State where
  currentTime := Nanos.top
  speed := oddRequest.speed
  status := .ended
  didSeek := false
  requestId := oddRequest.requestId

theorem odd_texts_round_trip :
    (Decimal.shortest threeHalves).IsShort ∧
    RoundTrips ClientMessage.wire.render ClientMessage.wire.parse (.control oddRequest) ∧
    RoundTrips ServerMessage.wire.render ServerMessage.wire.parse (.state oddState) ∧
    RoundTrips Request.wire.render Request.wire.parse oddRequest ∧
    RoundTrips State.wire.render State.wire.parse oddState := by
  obtain ⟨hclient, hserver, hrequest, hstate, -, -, -, -, hdecimal⟩ := texts_round_trip
  have hshort : (Decimal.shortest threeHalves).IsShort := by decide +kernel
  have hspeed : ReadsBack oddRequest.speed := hdecimal threeHalves false hshort
  exact ⟨hshort, hclient (.control oddRequest) hspeed, hserver (.state oddState) hspeed,
    hrequest oddRequest hspeed, hstate oddState hspeed⟩

end Replay
