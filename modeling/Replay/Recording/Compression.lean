import Replay.Recording.Error

/-!
Compressed chunks. How a format is decompressed is left open: a file is read with whatever
decompressors there are.
-/

namespace Replay.Recording

/-- Decompressors by the names of their formats; `none` for a format that cannot be read. One is
told how many bytes to expect, and gives a report if it fails. -/
abbrev Decompressors := String → Option (Nat → Bytes → Except String Bytes)

/-- A file, and the decompressors that it is read with. -/
structure File where
  bytes : Bytes
  decompressors : Decompressors

/-- A file of which only the chunks that are not compressed can be read. -/
def File.plain (bytes : Bytes) : File := ⟨bytes, fun _ => none⟩

/-- The records of a chunk. Where no format is named they stand there as they are. -/
def File.unpack (f : File) (format : String) (size : Nat) (packed : Bytes) :
    Except Malformed Bytes :=
  if format = "" then .ok packed
  else
    match f.decompressors format with
    | none => .error (.compression format)
    | some decompress => (decompress size packed).mapError .decompression

end Replay.Recording
