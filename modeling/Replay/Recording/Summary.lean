import Replay.Channel
import Replay.Recording.Record

/-!
The summary at the end of an MCAP file: its statistics, channels and chunk indexes. The footer,
the last record before the closing magic, says where the summary begins.
-/

namespace Replay.Recording

structure Summary where
  statistics : Option Statistics
  schemas : List SchemaRecord
  channels : List (ChannelRecord × Channel)
  chunks : List ChunkIndex
  deriving DecidableEq

namespace Summary

def empty : Summary := ⟨none, [], [], []⟩

def channel? (s : Summary) (id : Nat) : Option Channel :=
  (s.channels.find? (·.1.id == id)).map (·.2)

def addSchema (s : Summary) (schema : SchemaRecord) : Except Malformed Summary :=
  if schema.id = 0 then .error .schemaIdZero
  else
    match s.schemas.find? (·.id == schema.id) with
    | some known => if known = schema then .ok s else .error (.schemaConflict schema.name)
    | none => .ok { s with schemas := s.schemas ++ [schema] }

/-- The schema that a channel names; zero names none. -/
def schemaOf (s : Summary) (c : ChannelRecord) : Except Malformed (Option Schema) :=
  if c.schemaId = 0 then .ok none
  else
    match s.schemas.find? (·.id == c.schemaId) with
    | some schema => .ok (some ⟨schema.name, schema.encoding, schema.data⟩)
    | none => .error (.unknownSchema c.topic c.schemaId)

/-- Whether two records give the same channel. The order of the metadata does not matter. -/
def sameChannel (a b : ChannelRecord) : Bool :=
  a.schemaId = b.schemaId && a.topic = b.topic && a.encoding = b.encoding &&
    a.metadata.length = b.metadata.length && a.metadata.all (b.metadata.contains ·)

def addChannel (s : Summary) (c : ChannelRecord) : Except Malformed Summary := do
  let schema ← s.schemaOf c
  match s.channels.find? (·.1.id == c.id) with
  | some (known, _) => if sameChannel known c then .ok s else .error (.channelConflict c.topic)
  | none => .ok { s with channels := s.channels ++ [(c, ⟨c.topic, c.encoding, schema⟩)] }

def add (s : Summary) : Record → Except Malformed Summary
  | .schema schema => s.addSchema schema
  | .channel c => s.addChannel c
  | .chunkIndex c => .ok { s with chunks := s.chunks ++ [c] }
  | .statistics statistics => .ok { s with statistics := some statistics }
  | .footer => .ok s
  | .message _ => .ok s
  | .other => .ok s

def magic : Bytes := [0x89, 0x4D, 0x43, 0x41, 0x50, 0x30, 0x0D, 0x0A]

/-- What stands before the records of a chunk. -/
private def chunkHead : Body Unit := do
  discard (Body.nat 28)
  discard (Body.take (← Body.nat 4))
  discard (Body.nat 8)

/-- The records up to the footer, which the magic follows. The records of a chunk are read as if
they stood in its place. Each turn takes a record off the front. -/
def ofRecords (limit : Nat) : Nat → Summary → Bytes → Except Malformed Summary
  | 0, _, _ => .error .fileEnd
  | turns + 1, s, bs =>
    match Head.take? bs with
    | none => .error .fileEnd
    | some head =>
      if limit < head.length then .error (.tooLong head.opcode head.length)
      else if head.opcode = Record.chunkCode then
        match chunkHead head.rest with
        | none => .error .fileEnd
        | some (_, rest) => ofRecords limit turns s rest
      else if head.rest.length < head.length then .error .fileEnd
      else do
        let record ← Record.ofBody head.opcode (head.rest.take head.length)
        let rest := head.rest.drop head.length
        if record = .footer then
          if rest.length < magic.length then .error .fileEnd
          else if rest.take magic.length = magic then .ok s
          else .error .badMagic
        else ofRecords limit turns (← s.add record) rest

/-- Bytes of the footer, with the magic behind it. -/
def footerSize : Nat := 37

/-- Offsets from here on are refused by the file system. -/
def offsetLimit : Nat := 0x8000000000000000

/-- The summary of a file; `none` if its footer says that there is none. -/
def ofFile (file : Bytes) : Except Error (Option Summary) := do
  if file.length < footerSize then throw (.access .invalidOffset)
  if file.length < footerSize + magic.length then throw (.malformed .fileEnd)
  let footer := file.drop (file.length - footerSize)
  if footer.drop (footerSize - magic.length) ≠ magic then throw (.malformed .badMagic)
  if footer.head? ≠ some Record.footerCode then throw (.malformed .noFooter)
  let start := Bytes.toNat ((footer.drop 9).take 8)
  if start = 0 then return none
  if offsetLimit ≤ start then throw (.access .invalidOffset)
  match ofRecords (file.length - start) (file.length + 1) empty (file.drop start) with
  | .ok s => return some s
  | .error cause => throw (.malformed cause)

end Summary

end Replay.Recording
