import Replay.Startup

/-!
The command line: reads the files that the options name, and drives the playback by the clock of
the system. It opens no network: what carries frames between viewers and a `Server` embeds the
library.
-/

namespace Replay

def readFile? (path : String) : IO (Option Bytes) := do
  try
    let bytes ← IO.FS.readBinFile path
    return some bytes.toList
  catch _ => return none

def environmentOf (names : List String) : IO Environment := do
  let values ← names.mapM fun name => do return (← IO.getEnv name).map (name, ·)
  return ⟨values.filterMap id⟩

/-- The names of the variables that a text may refer to. -/
def variablesIn : List Char → List String
  | [] => []
  | c :: cs =>
    match Config.Reference.take? (c :: cs) with
    | some (r, _) => String.ofList r.name :: variablesIn cs
    | none => variablesIn cs

partial def drive (settings : Pacing.Settings) (disk : Disk) (wasEnded : Bool) (p : Player)
    (h : Hub) : IO Recording.Error := do
  let world : World := ⟨UInt64.ofNat (← IO.monoNanosNow), disk⟩
  let (playing, ended, h) := Pacing.look wasEnded p h
  let sleep (span : Nat) : IO Unit := IO.sleep (UInt32.ofNat ((span + 999999) / 1000000))
  if playing then
    match Pacing.advance settings world p h with
    | (.error e, _, _) => return e
    | (.ok .yield, p, h) => drive settings disk ended p h
    | (.ok (.sleep span), p, h) =>
      sleep span
      drive settings disk ended p h
  else
    sleep settings.idle
    drive settings disk ended p h

def randomSession : IO String := do
  let group (size : Nat) : IO String := do
    let digits ← (List.replicate size ()).mapM fun _ => do return Nat.digitChar (← IO.rand 0 15)
    return String.ofList digits
  let groups ← [8, 4, 4, 4, 12].mapM group
  return String.intercalate "-" groups

def serve (o : CommandLine.Options) : IO UInt32 := do
  let config ← match o.config with
    | none => pure none
    | some path => pure ((← readFile? path).map (path, ·))
  let recording := (← readFile? o.file).map (o.file, ·)
  let disk := [config, recording].foldl (fun d file =>
    match file with
    | some (path, content) => d.write path content
    | none => d) Disk.empty
  let names := match config with
    | some (_, content) => variablesIn (Utf8.decodeLossy content)
    | none => []
  let env ← environmentOf ("PLAYBACK_HOST" :: "PLAYBACK_PORT" :: names)
  let world : World := ⟨UInt64.ofNat (← IO.monoNanosNow), disk⟩
  match Startup.prepare env world o (← randomSession) with
  | .error e =>
    IO.eprintln e.headline
    return 1
  | .ok s =>
    let e ← drive s.config.playback.pacing disk false s.player s.hub
    IO.eprintln (Startup.Error.playback e).headline
    return 1

end Replay

def main (args : List String) : IO UInt32 := do
  match Replay.CommandLine.parse args with
  | .error e =>
    IO.eprintln ("error: " ++ e.message)
    return 2
  | .ok .help =>
    IO.println "Usage: mcap-playback [OPTIONS] --file <FILE>"
    return 0
  | .ok .version =>
    IO.print Replay.CommandLine.versionText
    return 0
  | .ok (.serve o) => Replay.serve o
