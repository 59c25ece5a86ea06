import Replay.Channel
import Replay.Proofs.Text.Base64
import Replay.Proofs.Text.Utf8

/-!
What viewers are told of a channel is all that there is to know of it. Main statement:
`description_determines_channel`.
-/

namespace Replay

/-- A schema whose encoding is one of text has a text as its data. -/
def Schema.Proper (s : Schema) : Prop :=
  s.encoding ∈ Schema.textEncodings → ∃ cs, s.data = Utf8.encode cs

/-- The data that a definition stands for. -/
def Schema.defined? (encoding definition : String) : Option Bytes :=
  if encoding ∈ textEncodings then some (Utf8.ofString definition)
  else Base64.decode? definition.toList

theorem Schema.toList_definition (s : Schema) : s.definition.toList =
    if s.encoding ∈ textEncodings then Utf8.decodeLossy s.data else Base64.encode s.data :=
  String.toList_ofList

theorem Schema.defined?_definition {s : Schema} (h : s.Proper) :
    Schema.defined? s.encoding s.definition = some s.data := by
  unfold defined?
  split
  · rename_i htext
    obtain ⟨cs, hcs⟩ := h htext
    rw [Utf8.ofString, toList_definition, if_pos htext, hcs, Utf8.decodeLossy_encode]
  · rename_i hbinary
    rw [toList_definition, if_neg hbinary, Base64.decode?_encode]

/-- The channel that a description is one of. -/
def Advertised.channel? (a : Advertised) : Option Channel :=
  match a.schemaEncoding with
  | none => some ⟨a.topic, a.encoding, none⟩
  | some encoding => (Schema.defined? encoding a.schema).map fun data =>
    ⟨a.topic, a.encoding, some ⟨a.schemaName, encoding, data⟩⟩

namespace Channel

/-- A channel whose schema, if it has one, is proper. -/
def Proper (c : Channel) : Prop := ∀ s, c.schema = some s → s.Proper

variable {c c' : Channel}

theorem advertise_of_schema {s : Schema} (h : c.schema = some s) (id : ChannelId) :
    c.advertise id = ⟨id, c.topic, c.encoding, s.name, some s.encoding, s.definition⟩ := by
  simp only [advertise, h]

theorem advertise_of_none (h : c.schema = none) (id : ChannelId) :
    c.advertise id = ⟨id, c.topic, c.encoding, "", none, ""⟩ := by
  simp only [advertise, h]

theorem channel?_advertise (h : c.Proper) (id : ChannelId) :
    (c.advertise id).channel? = some c := by
  obtain ⟨topic, encoding, schema⟩ := c
  cases schema with
  | none => rfl
  | some s =>
    have hdata := Schema.defined?_definition (h s rfl)
    simp [advertise, Advertised.channel?, hdata]

theorem schemaEncoding_advertise (c : Channel) (id : ChannelId) :
    (c.advertise id).schemaEncoding = c.schema.map Schema.encoding := by
  cases h : c.schema with
  | none => rw [advertise_of_none h, Option.map_none]
  | some s => rw [advertise_of_schema h, Option.map_some]

/-- Two channels whose schemas are proper have the same description only if they are the same, with
the same id. A description has no schema encoding just if its channel has no schema. If there is
one, of whatever length its data is, the description has its encoding; and the data is the definition
in UTF-8 if it is text under a text encoding, and else the definition read as padded Base64. Also
where the data is no text under a text encoding the definition is a text: characters that are encoded
somewhere in the data are kept, and between them there is one U+FFFD for each string of bytes in
which none is encoded. -/
theorem description_determines_channel (c : Channel) (id : ChannelId) :
    (∀ c' id', c.Proper → c'.Proper → c.advertise id = c'.advertise id' → id = id' ∧ c = c') ∧
    ((c.advertise id).schemaEncoding = none ↔ c.schema = none) ∧
    ∀ s, c.schema = some s →
      let a := c.advertise id
      a.schemaEncoding = some s.encoding ∧
      (s.encoding ∈ Schema.textEncodings → (∃ cs, s.data = Utf8.encode cs) →
        Utf8.ofString a.schema = s.data) ∧
      (s.encoding ∉ Schema.textEncodings → Base64.decode? a.schema.toList = some s.data) ∧
      (s.encoding ∈ Schema.textEncodings →
        Utf8.decode? (Utf8.ofString a.schema) = some a.schema.toList ∧
        (∀ before cs behind, cs ≠ [] → s.data = before ++ Utf8.encode cs ++ behind →
          a.schema.toList = Utf8.decodeLossy before ++ cs ++ Utf8.decodeLossy behind) ∧
        ∃ parts, Utf8.Parted s.data parts ∧
          a.schema.toList = parts.map (·.getD Utf8.replacement)) := by
  refine ⟨?_, ?_, ?_⟩
  · intro c' id' hc hc' h
    have hid := congrArg Advertised.id h
    have hchannel := congrArg Advertised.channel? h
    rw [id_advertise, id_advertise] at hid
    rw [channel?_advertise hc, channel?_advertise hc'] at hchannel
    exact ⟨hid, Option.some.inj hchannel⟩
  · rw [schemaEncoding_advertise, Option.map_eq_none_iff]
  · intro s hs
    have hdefined := s.toList_definition
    rw [advertise_of_schema hs]
    refine ⟨rfl, ?_, ?_, ?_⟩
    · rintro htext ⟨cs, hcs⟩
      rw [Utf8.ofString, hdefined, if_pos htext, hcs, Utf8.decodeLossy_encode]
    · intro hbinary
      rw [hdefined, if_neg hbinary, Base64.decode?_encode]
    · intro htext
      rw [if_pos htext] at hdefined
      refine ⟨Utf8.decode?_eq_some_iff.mpr rfl, ?_, Utf8.parts s.data, Utf8.parted_parts s.data,
        hdefined⟩
      intro before cs behind hcs hdata
      rw [hdefined, hdata, Utf8.decodeLossy_around before hcs behind]

/-- No schema and a blank one; a text, bytes that are none, and the start of a character where a text
should go on. -/
theorem sample_descriptions :
    let bare : Channel := ⟨"/raw", "cdr", none⟩
    let blank : Channel := ⟨"/raw", "cdr", some ⟨"", "", []⟩⟩
    let text : Channel := ⟨"/pose", "json", some ⟨"Pose", "jsonschema", [0x7B, 0xC3, 0xA9, 0x7D]⟩⟩
    let binary : Channel := ⟨"/imu", "protobuf", some ⟨"Imu", "protobuf", [0xFF, 0x00]⟩⟩
    let broken : Channel := ⟨"/odom", "ros1", some ⟨"Odom", "ros1msg", [0x61, 0xE2, 0x82, 0x62]⟩⟩
    bare.Proper ∧ blank.Proper ∧ bare.advertise 2 ≠ blank.advertise 2 ∧
    (bare.advertise 2).schemaEncoding = none ∧ (bare.advertise 2).schema = (blank.advertise 2).schema ∧
    (text.advertise 3).schema = "{é}" ∧
    Utf8.ofString (text.advertise 3).schema = [0x7B, 0xC3, 0xA9, 0x7D] ∧
    (binary.advertise 4).schema = "/wA=" ∧
    Base64.decode? (binary.advertise 4).schema.toList = some [0xFF, 0x00] ∧
    (broken.advertise 5).schema.toList =
      Utf8.decodeLossy [0x61, 0xE2, 0x82] ++ ['b'] ++ Utf8.decodeLossy [] ∧
    Utf8.decodeLossy [0x61, 0xE2, 0x82] = ['a', Utf8.replacement] := by
  intro bare blank text binary broken
  have hbare : bare.Proper := nofun
  have hblank : blank.Proper := by
    rintro _ ⟨⟩ hmem
    exact absurd hmem (by decide)
  obtain ⟨hsame, hnone, -⟩ := bare.description_determines_channel 2
  have hdiffer : bare.advertise 2 ≠ blank.advertise 2 := by
    intro h
    exact absurd (hsame blank 2 hbare hblank h).2 (by decide)
  obtain ⟨-, -, hschema⟩ := text.description_determines_channel 3
  obtain ⟨-, -, hschema'⟩ := binary.description_determines_channel 4
  obtain ⟨-, -, hschema''⟩ := broken.description_determines_channel 5
  obtain ⟨-, hplain, -⟩ := hschema _ rfl
  obtain ⟨-, -, hencoded, -⟩ := hschema' _ rfl
  obtain ⟨-, -, -, hlossy⟩ := hschema'' _ rfl
  obtain ⟨-, hkept, -⟩ := hlossy (by decide)
  exact ⟨hbare, hblank, hdiffer, hnone.mpr rfl, rfl, by decide +kernel,
    hplain (by decide) ⟨['{', 'é', '}'], by decide⟩, by decide +kernel, hencoded (by decide),
    hkept [0x61, 0xE2, 0x82] ['b'] [] (by decide) (by decide), by decide +kernel⟩

end Channel

end Replay
