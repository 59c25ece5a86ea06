import Replay.Recording.Compression
import Replay.Recording.Summary

/-!
Reading the messages of a recording from a time on: chunk after chunk in the order of the file,
and the messages of a chunk in the order in which they are stored.
-/

namespace Replay.Recording

/-- The messages among the records of a chunk. Each turn takes a record off the front. -/
def storedGo : Nat → Bytes → Except Malformed (List Stored)
  | 0, _ => .ok []
  | turns + 1, bs =>
    if bs = [] then .ok []
    else
      match Head.take? bs with
      | none => .error .chunkEnd
      | some head =>
        if head.rest.length < head.length then .error .chunkEnd
        else do
          let rest := head.rest.drop head.length
          if head.opcode = Record.messageCode then
            match ← Record.ofBody head.opcode (head.rest.take head.length) with
            | .message m => return m :: (← storedGo turns rest)
            | _ => storedGo turns rest
          else storedGo turns rest

def stored (bs : Bytes) : Except Malformed (List Stored) := storedGo bs.length bs

namespace ChunkIndex

/-- Bytes of a chunk before its records, apart from the name of its compression. -/
def headSize : Nat := 49

def dataOffset (c : ChunkIndex) : Nat := c.offset + headSize + (Utf8.ofString c.compression).length

/-- The messages of the chunk from a time on. -/
def load (c : ChunkIndex) (file : File) (start : Nanos) : Except Error (List Stored) :=
  if Summary.offsetLimit ≤ c.dataOffset then .error (.access .invalidOffset)
  else
    let packed := file.bytes.drop c.dataOffset
    if packed.length < c.size then .error (.access .endOfFile)
    else
      let records := file.unpack c.compression c.unpackedSize (packed.take c.size)
      match records.bind stored with
      | .ok ms => .ok (ms.filter fun m => start ≤ m.logTime)
      | .error cause => .error (.malformed cause)

end ChunkIndex

structure Entry where
  channel : Channel
  logTime : Nanos
  payload : Bytes
  deriving DecidableEq

/-- A position in a recording: the messages that are left of the loaded chunk, and the chunks that
are left to load. -/
structure Cursor where
  start : Nanos
  ready : List Stored
  chunks : List ChunkIndex
  deriving DecidableEq

namespace Cursor

/-- A cursor before the first message that is not earlier than `start`. -/
def atTime (s : Summary) (start : Nanos) : Except Malformed Cursor :=
  let chunks := s.chunks.filter fun c => start ≤ c.endTime
  match chunks.find? fun c => UInt64.size ≤ c.dataOffset with
  | some c => .error (.chunkOffset c.offset)
  | none => .ok ⟨start, [], chunks.mergeSort fun a b => a.offset ≤ b.offset⟩

/-- The next message and the cursor behind it. -/
def taken (s : Summary) (c : Cursor) (m : Stored) (rest : List Stored) :
    Except Error (Option Entry) × Cursor :=
  match s.channel? m.channelId with
  | some channel => (.ok (some ⟨channel, m.logTime, m.payload⟩), { c with ready := rest })
  | none => (.error (.unknownChannel m.channelId), { c with ready := rest })

/-- Loads chunks until one has a message. A chunk that cannot be loaded stays in front. -/
def loadNext (s : Summary) (file : File) (start : Nanos) :
    List ChunkIndex → Except Error (Option Entry) × Cursor
  | [] => (.ok none, ⟨start, [], []⟩)
  | chunk :: chunks =>
    match chunk.load file start with
    | .error e => (.error e, ⟨start, [], chunk :: chunks⟩)
    | .ok [] => loadNext s file start chunks
    | .ok (m :: ms) => taken s ⟨start, [], chunks⟩ m ms

/-- The next message; `none` at the end. The cursor goes on behind a message of an unknown
channel. -/
def next (s : Summary) (file : File) (c : Cursor) : Except Error (Option Entry) × Cursor :=
  match c.ready with
  | m :: ms => taken s c m ms
  | [] => loadNext s file c.start c.chunks

end Cursor

end Replay.Recording
