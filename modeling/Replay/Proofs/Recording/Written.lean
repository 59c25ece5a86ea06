import Replay.Disk
import Replay.Proofs.Recording.Stored

/-!
Recordings as they are written: chunks of messages on one channel, and behind them the summary that
says where they are. `sample` is a small one.
-/

namespace Replay.Recording

def written (opcode : UInt8) (body : Bytes) : Bytes := opcode :: (Bytes.ofNat 8 body.length ++ body)

def writtenText (s : String) : Bytes := Bytes.ofNat 4 (Utf8.ofString s).length ++ Utf8.ofString s

def Stored.written (m : Stored) : Bytes :=
  Recording.written Record.messageCode (Bytes.ofNat 2 m.channelId ++ Bytes.ofNat 4 0 ++
    Bytes.ofNat 8 m.logTime.toNat ++ Bytes.ofNat 8 m.logTime.toNat ++ m.payload)

def timesOf (ms : List Stored) : Nat × Nat :=
  (ms.foldl (fun t m => min t m.logTime.toNat) Nanos.top.toNat,
    ms.foldl (fun t m => max t m.logTime.toNat) 0)

def writtenChunk (ms : List Stored) : Bytes :=
  let records := ms.flatMap Stored.written
  written Record.chunkCode (Bytes.ofNat 8 (timesOf ms).1 ++ Bytes.ofNat 8 (timesOf ms).2 ++
    Bytes.ofNat 8 records.length ++ Bytes.ofNat 4 0 ++ writtenText "" ++
    Bytes.ofNat 8 records.length ++ records)

def writtenIndex (offset : Nat) (ms : List Stored) : Bytes :=
  let size := (ms.flatMap Stored.written).length
  written Record.chunkIndexCode (Bytes.ofNat 8 (timesOf ms).1 ++ Bytes.ofNat 8 (timesOf ms).2 ++
    Bytes.ofNat 8 offset ++ Bytes.ofNat 8 (writtenChunk ms).length ++ Bytes.ofNat 4 0 ++
    Bytes.ofNat 8 0 ++ writtenText "" ++ Bytes.ofNat 8 size ++ Bytes.ofNat 8 size)

/-- The indexes of chunks that stand one behind the other from an offset on. -/
def writtenIndexes : Nat → List (List Stored) → Bytes
  | _, [] => []
  | offset, ms :: rest =>
    writtenIndex offset ms ++ writtenIndexes (offset + (writtenChunk ms).length) rest

/-- A recording of chunks of messages, all on channel 1 of the topic. -/
def writtenFile (topic : String) (chunks : List (List Stored)) : Bytes :=
  let data := Summary.magic ++ chunks.flatMap writtenChunk
  let channel := Bytes.ofNat 2 1 ++ Bytes.ofNat 2 0 ++ writtenText topic ++ writtenText "json" ++
    Bytes.ofNat 4 0
  let statistics := Bytes.ofNat 8 chunks.flatten.length ++ Bytes.ofNat 18 0 ++
    Bytes.ofNat 8 (timesOf chunks.flatten).1 ++ Bytes.ofNat 8 (timesOf chunks.flatten).2 ++
    Bytes.ofNat 4 0
  data ++ written Record.channelCode channel ++ writtenIndexes Summary.magic.length chunks ++
    written Record.statisticsCode statistics ++
    written Record.footerCode (Bytes.ofNat 8 data.length ++ Bytes.ofNat 12 0) ++ Summary.magic

/-- Three messages, the first two of them stored against the order of log time. -/
def sample : File := .plain (writtenFile "/a" [[⟨1, 5, [1]⟩, ⟨1, 3, [2]⟩, ⟨1, 9, [3]⟩]])

def sampleSummary : Summary where
  statistics := some ⟨3, 3, 9⟩
  schemas := []
  channels := [(⟨1, 0, "/a", "json", []⟩, ⟨"/a", "json", none⟩)]
  chunks := [⟨9, 8, "", 96, 96⟩]

def sampleDisk : Disk := Disk.empty.write "a" sample.bytes

theorem eq_ok_of_toOption {ε α : Type} {r : Except ε α} {a : α} (h : r.toOption = some a) :
    r = .ok a := by
  cases r with
  | error e => cases h
  | ok b => exact congrArg Except.ok (Option.some.inj h)

theorem sample_readable : sampleSummary.Readable sample where
  loads := by
    have h : ∀ c ∈ sampleSummary.chunks,
        (c.load sample 0).toOption = some (c.messages sample) := by decide +kernel
    exact fun c hc => eq_ok_of_toOption (h c hc)
  bounded := by decide +kernel
  known := by decide +kernel

end Replay.Recording
