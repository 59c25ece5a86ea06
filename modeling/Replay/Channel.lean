import Replay.Frame
import Replay.Text.Base64
import Replay.Text.Utf8

/-!
Channels: what a recording says about the messages of a topic, and the description that viewers
are given of it.
-/

namespace Replay

structure Schema where
  name : String
  encoding : String
  data : Bytes
  deriving DecidableEq

structure Channel where
  topic : String
  encoding : String
  schema : Option Schema
  deriving DecidableEq

def Schema.textEncodings : List String := ["jsonschema", "ros1msg", "ros2msg", "ros2idl", "omgidl"]

/-- The definition as text: as it is, or in Base64. -/
def Schema.definition (s : Schema) : String :=
  String.ofList
    (if s.encoding ∈ textEncodings then Utf8.decodeLossy s.data else Base64.encode s.data)

structure Advertised where
  id : ChannelId
  topic : String
  encoding : String
  schemaName : String
  schemaEncoding : Option String
  schema : String
  deriving DecidableEq

/-- The description of a channel under an id. Without a schema its texts are empty and its encoding
is absent. -/
def Channel.advertise (c : Channel) (id : ChannelId) : Advertised :=
  match c.schema with
  | none => ⟨id, c.topic, c.encoding, "", none, ""⟩
  | some s => ⟨id, c.topic, c.encoding, s.name, some s.encoding, s.definition⟩

@[simp]
theorem Channel.id_advertise (c : Channel) (id : ChannelId) : (c.advertise id).id = id := by
  unfold advertise
  split <;> rfl

end Replay
