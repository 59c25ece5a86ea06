import Replay.Bytes

/-!
What can be wrong with a recording, and how it is reported.
-/

namespace Replay.Recording

/-- A failed access to a file or a port. -/
inductive Access where
  | notFound
  | invalidOffset
  | endOfFile
  | addressInUse
  deriving DecidableEq

def Access.message : Access → String
  | .notFound => "No such file or directory (os error 2)"
  | .invalidOffset => "Invalid argument (os error 22)"
  | .endOfFile => "failed to fill whole buffer"
  | .addressInUse => "Address already in use (os error 98)"

/-- A file that is not of the format. -/
inductive Malformed where
  | fileEnd
  | chunkEnd
  | badMagic
  | noFooter
  | tooLong (opcode : UInt8) (length : Nat)
  | record
  | schemaIdZero
  | schemaLength (given available : Nat)
  | schemaConflict (name : String)
  | channelConflict (topic : String)
  | unknownSchema (topic : String) (id : Nat)
  | chunkOffset (offset : Nat)
  | compression (format : String)
  | decompression (report : String)
  deriving DecidableEq

private def opcodeDigits (b : UInt8) : String :=
  String.ofList [Nat.digitChar (b.toNat / 16), Nat.digitChar (b.toNat % 16)]

def Malformed.message : Malformed → String
  | .fileEnd => "MCAP file ended in the middle of a record"
  | .chunkEnd => "Chunk ended in the middle of a record"
  | .badMagic => "Bad magic number"
  | .noFooter => "Footer record couldn't be found at the end of the file, before the magic bytes"
  | .tooLong opcode length =>
    "record with opcode " ++ opcodeDigits opcode ++ " length exceeds limit: `" ++ Nat.repr length
      ++ "`"
  | .record => "Record parse failed"
  | .schemaIdZero => "Schema has an ID of 0"
  | .schemaLength given available =>
    "Schema length (" ++ Nat.repr given ++ ") exceeds space in record (" ++ Nat.repr available
      ++ ")"
  | .schemaConflict name => "Schema `" ++ name ++ "` has mulitple records that don't match."
  | .channelConflict topic => "Channel `" ++ topic ++ "` has mulitple records that don't match."
  | .unknownSchema topic id => "Channel `" ++ topic ++ "` referenced unknown schema " ++ Nat.repr id
  | .chunkOffset offset => "chunk start offset is out of file range: " ++ Nat.repr offset
  | .compression format => "Unsupported compression format `" ++ format ++ "`"
  | .decompression report => report

inductive Error where
  | cannotOpen (path : String) (cause : Access)
  | noSummary (path : String)
  | noStatistics (path : String)
  | unindexed (path : String)
  | unknownChannel (id : Nat)
  | access (cause : Access)
  | malformed (cause : Malformed)
  deriving DecidableEq

def Error.message : Error → String
  | .cannotOpen path cause => "failed to open recording '" ++ path ++ "': " ++ cause.message
  | .noSummary path => "recording '" ++ path ++ "' has no summary section"
  | .noStatistics path => "recording '" ++ path ++ "' has no statistics record"
  | .unindexed path => "recording '" ++ path ++ "' has messages outside indexed chunks"
  | .unknownChannel id => "message references unknown channel " ++ Nat.repr id
  | .access cause => "I/O error: " ++ cause.message
  | .malformed cause => "MCAP error: " ++ cause.message

end Replay.Recording
