import Replay.Recording.Error
import Replay.Text.Utf8
import Replay.Time.Nanos

/-!
The records of an MCAP file. A record is an opcode, the length of its body and the body; a body
begins with fixed fields, and what follows them is ignored.
-/

namespace Replay.Recording

/-- A record split off the front of bytes, with its body still to be taken. -/
structure Head where
  opcode : UInt8
  length : Nat
  rest : Bytes

/-- Takes opcode and length off the front. -/
def Head.take? : Bytes → Option Head
  | [] => none
  | opcode :: rest => (Bytes.takeNat? 8 rest).map fun (length, rest) => ⟨opcode, length, rest⟩

abbrev Body := StateT Bytes Option

namespace Body

def nat (size : Nat) : Body Nat := Bytes.takeNat? size

def take (size : Nat) : Body Bytes := fun bs =>
  if size ≤ bs.length then some (bs.take size, bs.drop size) else none

def text : Body String := do
  let bs ← take (← nat 4)
  match Utf8.decode? bs with
  | some cs => return String.ofList cs
  | none => failure

/-- Pairs, as long as fewer than `size` bytes are taken; a key may not come twice. -/
def pairsGo {κ ν : Type} [BEq κ] (key : Body κ) (value : Body ν) (finish : Nat) :
    Nat → List (κ × ν) → Body (List (κ × ν))
  | 0, acc => fun bs => some (acc, bs)
  | turns + 1, acc => fun bs =>
    if bs.length ≤ finish then some (acc, bs)
    else
      match (do return (← key, ← value) : Body (κ × ν)) bs with
      | none => none
      | some ((k, v), bs) =>
        if acc.any (·.1 == k) then none else pairsGo key value finish turns (acc ++ [(k, v)]) bs

def pairs {κ ν : Type} [BEq κ] (key : Body κ) (value : Body ν) : Body (List (κ × ν)) := do
  let size ← nat 4
  fun bs =>
    if size = 0 then some ([], bs)
    else if bs.length < size then none
    else pairsGo key value (bs.length - size) size [] bs

theorem bind_eq_some {α β : Type} {body : Body α} {next : α → Body β} {bs : Bytes} {r : β × Bytes}
    (h : (body >>= next) bs = some r) :
    ∃ a rest, body bs = some (a, rest) ∧ next a rest = some r := by
  have hbind : ((body bs).bind fun p => next p.1 p.2) = some r := h
  obtain ⟨p, hp, hr⟩ := Option.bind_eq_some_iff.mp hbind
  exact ⟨p.1, p.2, hp, hr⟩

theorem pure_eq_some {α : Type} {a b : α} {bs rest : Bytes}
    (h : (pure a : Body α) bs = some (b, rest)) : a = b :=
  congrArg Prod.fst (Option.some.inj h)

end Body

structure Statistics where
  messageCount : Nat
  startTime : Nanos
  endTime : Nanos
  deriving DecidableEq

structure SchemaRecord where
  id : Nat
  name : String
  encoding : String
  data : Bytes
  deriving DecidableEq

structure ChannelRecord where
  id : Nat
  schemaId : Nat
  topic : String
  encoding : String
  metadata : List (String × String)
  deriving DecidableEq

/-- Where a chunk is and which times its messages have. Its records take `size` bytes in the file,
and `unpackedSize` bytes once they are decompressed. -/
structure ChunkIndex where
  endTime : Nanos
  offset : Nat
  compression : String
  size : Nat
  unpackedSize : Nat
  deriving DecidableEq

structure Stored where
  channelId : Nat
  logTime : Nanos
  payload : Bytes
  deriving DecidableEq

inductive Record where
  | footer
  | schema (s : SchemaRecord)
  | channel (c : ChannelRecord)
  | message (m : Stored)
  | chunkIndex (c : ChunkIndex)
  | statistics (s : Statistics)
  | other
  deriving DecidableEq

namespace Record

def footerCode : UInt8 := 0x02
def schemaCode : UInt8 := 0x03
def channelCode : UInt8 := 0x04
def messageCode : UInt8 := 0x05
def chunkCode : UInt8 := 0x06
def chunkIndexCode : UInt8 := 0x08
def statisticsCode : UInt8 := 0x0B

private def channelBody : Body ChannelRecord := do
  let id ← Body.nat 2
  let schemaId ← Body.nat 2
  let topic ← Body.text
  let encoding ← Body.text
  let metadata ← Body.pairs Body.text Body.text
  return ⟨id, schemaId, topic, encoding, metadata⟩

private def messageBody : Body Stored := do
  let channelId ← Body.nat 2
  let _ ← Body.nat 4
  let logTime ← Body.nat 8
  let _ ← Body.nat 8
  fun payload => some (⟨channelId, UInt64.ofNat logTime, payload⟩, [])

private def chunkIndexBody : Body ChunkIndex := do
  let _ ← Body.nat 8
  let endTime ← Body.nat 8
  let offset ← Body.nat 8
  let _ ← Body.nat 8
  let _ ← Body.pairs (Body.nat 2) (Body.nat 8)
  let _ ← Body.nat 8
  let compression ← Body.text
  let size ← Body.nat 8
  let unpackedSize ← Body.nat 8
  return ⟨UInt64.ofNat endTime, offset, compression, size, unpackedSize⟩

private def statisticsBody : Body Statistics := do
  let messageCount ← Body.nat 8
  let _ ← Body.nat 2
  let _ ← Body.nat 4
  let _ ← Body.nat 4
  let _ ← Body.nat 4
  let _ ← Body.nat 4
  let startTime ← Body.nat 8
  let endTime ← Body.nat 8
  let _ ← Body.pairs (Body.nat 2) (Body.nat 8)
  return ⟨messageCount, UInt64.ofNat startTime, UInt64.ofNat endTime⟩

/-- The fields of a record that are not needed, so that one that lacks them is refused. -/
private def otherBody (opcode : UInt8) : Body Unit := do
  match opcode with
  | 0x01 => discard Body.text; discard Body.text
  | 0x07 => discard (Body.nat 2); entries
  | 0x09 =>
    discard (Body.nat 16); discard Body.text; discard Body.text
    let size ← Body.nat 8
    discard (Body.take size); discard (Body.nat 4)
  | 0x0A => discard (Body.nat 40); discard Body.text; discard Body.text
  | 0x0C => discard Body.text; discard (Body.pairs Body.text Body.text)
  | 0x0D => discard (Body.nat 16); discard Body.text
  | 0x0E => discard (Body.nat 17)
  | 0x0F => discard (Body.nat 4)
  | _ => return ()
where
  /-- Pairs of 16 bytes, as many as begin within the length. -/
  entries : Body Unit := do
    let size ← Body.nat 4
    discard (Body.take ((size + 15) / 16 * 16))

private def orRefuse {α : Type} (wrap : α → Record) (body : Body α) (bs : Bytes) :
    Except Malformed Record :=
  match body bs with
  | some (x, _) => .ok (wrap x)
  | none => .error .record

/-- A schema's data may not be longer than the body. -/
private def schemaOfBody (bs : Bytes) : Except Malformed Record :=
  let head : Body (Nat × String × String × Nat) := do
    return (← Body.nat 2, ← Body.text, ← Body.text, ← Body.nat 4)
  match head bs with
  | none => .error .record
  | some ((id, name, encoding, size), rest) =>
    if rest.length < size then .error (.schemaLength size rest.length)
    else .ok (.schema ⟨id, name, encoding, rest.take size⟩)

/-- The record with the given opcode and body. -/
def ofBody (opcode : UInt8) (bs : Bytes) : Except Malformed Record :=
  if opcode = footerCode then orRefuse (fun _ => .footer) (Body.nat 20) bs
  else if opcode = schemaCode then schemaOfBody bs
  else if opcode = channelCode then orRefuse .channel channelBody bs
  else if opcode = messageCode then orRefuse .message messageBody bs
  else if opcode = chunkIndexCode then orRefuse .chunkIndex chunkIndexBody bs
  else if opcode = statisticsCode then orRefuse .statistics statisticsBody bs
  else orRefuse (fun _ => .other) (otherBody opcode) bs

private theorem orRefuse_ok {α : Type} {wrap : α → Record} {body : Body α} {bs : Bytes} {r : Record}
    (h : orRefuse wrap body bs = .ok r) : ∃ x rest, body bs = some (x, rest) ∧ wrap x = r := by
  unfold orRefuse at h
  split at h
  · rename_i x rest hx
    exact ⟨x, rest, hx, Except.ok.inj h⟩
  · cases h

private theorem schemaOfBody_ok {bs : Bytes} {r : Record} (h : schemaOfBody bs = .ok r) :
    ∃ s, r = .schema s := by
  unfold schemaOfBody at h
  dsimp only at h
  split at h
  · cases h
  · split at h
    · cases h
    · exact ⟨_, (Except.ok.inj h).symm⟩

private theorem id_lt_of_channelBody {bs rest : Bytes} {c : ChannelRecord}
    (h : channelBody bs = some (c, rest)) : c.id < 65536 := by
  obtain ⟨id, rest, hid, h⟩ := Body.bind_eq_some h
  obtain ⟨_, rest, _, h⟩ := Body.bind_eq_some h
  obtain ⟨_, rest, _, h⟩ := Body.bind_eq_some h
  obtain ⟨_, rest, _, h⟩ := Body.bind_eq_some h
  obtain ⟨_, rest, _, h⟩ := Body.bind_eq_some h
  rw [← Body.pure_eq_some h]
  exact (Bytes.takeNat?_eq_some_iff.mp hid).2

private theorem orRefuse_ne_channel {α : Type} {wrap : α → Record} {body : Body α} {bs : Bytes}
    {c : ChannelRecord} (hwrap : ∀ x, wrap x ≠ .channel c) :
    orRefuse wrap body bs ≠ .ok (.channel c) := by
  intro h
  obtain ⟨x, _, _, hx⟩ := orRefuse_ok h
  exact hwrap x hx

/-- The id of a channel has two bytes. -/
theorem channelId_lt_of_ofBody {opcode : UInt8} {bs : Bytes} {c : ChannelRecord}
    (h : ofBody opcode bs = .ok (.channel c)) : c.id < 65536 := by
  unfold ofBody at h
  split at h
  · exact absurd h (orRefuse_ne_channel fun _ => by simp)
  split at h
  · obtain ⟨_, hr⟩ := schemaOfBody_ok h
    cases hr
  split at h
  · obtain ⟨_, rest, hc, hr⟩ := orRefuse_ok h
    cases hr
    exact id_lt_of_channelBody hc
  split at h
  · exact absurd h (orRefuse_ne_channel fun _ => by simp)
  split at h
  · exact absurd h (orRefuse_ne_channel fun _ => by simp)
  split at h
  · exact absurd h (orRefuse_ne_channel fun _ => by simp)
  · exact absurd h (orRefuse_ne_channel fun _ => by simp)

end Record

end Replay.Recording
