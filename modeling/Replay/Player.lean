import Replay.Number.Decimal
import Replay.Recording.Cursor
import Replay.Source
import Replay.Text.Quoted
import Replay.Timeline

/-!
Playing a recording. The player reads its cursor one message ahead: a message that is not due yet
is kept until it is, so that none is lost to a request in between. Log time starts to run with the
first message that is read; a seek stops it and the next message starts it again.
-/

namespace Replay

structure TimeRange where
  start : Nanos
  stop : Nanos
  deriving DecidableEq

def TimeRange.clamp (r : TimeRange) (t : Nanos) : Nanos := min (max t r.start) r.stop

/-- Log time as it runs, and the spacing of the times that are told. -/
structure Pace where
  timeline : Timeline
  limiter : Limiter
  deriving DecidableEq

structure Player where
  path : String
  interval : Nanos
  summary : Recording.Summary
  range : TimeRange
  file : FileId
  cursor : Recording.Cursor
  /-- The message that is read and not yet due. -/
  pending : Option Recording.Entry
  pace : Option Pace
  currentTime : Nanos
  status : Status
  speed : Speed
  /-- The ids that the sink gave, by topic. -/
  channels : List (String × ChannelId)
  deriving DecidableEq

namespace Player

structure Options where
  initialSpeed : Binary64
  interval : Nanos
  deriving DecidableEq

def Options.default : Options := ⟨Binary64.ofNat 1, Limiter.defaultInterval⟩

open Recording (Error)

/-- A cursor on the file that has the player's path now. -/
def openCursor (d : Disk) (path : String) (s : Recording.Summary) (start : Nanos) :
    Except Error (FileId × Recording.Cursor) :=
  match d.open? path with
  | none => .error (.cannotOpen path .notFound)
  | some id => ((Recording.Cursor.atTime s start).mapError .malformed).map fun c => (id, c)

/-- Opens a recording. Its summary must have statistics, and chunk indexes if there are any
messages. -/
def openFile (d : Disk) (path : String) (o : Options) : Except Error Player :=
  match d.read? path with
  | none => .error (.cannotOpen path .notFound)
  | some content => do
    match ← Recording.Summary.ofFile content with
    | none => throw (.noSummary path)
    | some summary =>
      match summary.statistics with
      | none => throw (.noStatistics path)
      | some statistics =>
        if 0 < statistics.messageCount && summary.chunks.isEmpty then throw (.unindexed path)
        let (file, cursor) ← openCursor d path summary statistics.startTime
        return {
          path, summary, file, cursor
          interval := o.interval
          range := ⟨statistics.startTime, statistics.endTime⟩
          pending := none
          pace := none
          currentTime := statistics.startTime
          status := .paused
          speed := Speed.clamp o.initialSpeed
          channels := [] }

/-- Lets log time run. After the end this needs a seek first. -/
def play (now : Nanos) (p : Player) : Player :=
  if p.status = .ended then p
  else
    { p with
      pace := p.pace.map fun x => { x with timeline := x.timeline.resume now }
      status := .playing }

def pause (now : Nanos) (p : Player) : Player :=
  if p.status = .ended then p
  else
    { p with
      pace := p.pace.map fun x => { x with timeline := x.timeline.pause now }
      status := .paused }

/-- Moves to a time in the range. All that can fail, opening the new cursor, comes before the first
change. -/
def seek (d : Disk) (t : Nanos) (p : Player) : Except Error Player :=
  let target := p.range.clamp t
  (openCursor d p.path p.summary target).map fun (file, cursor) =>
    { p with
      file, cursor
      currentTime := target
      pending := none
      pace := none
      status := if p.status = .ended then .paused else p.status }

def setSpeed (now : Nanos) (x : Binary64) (p : Player) : Player :=
  let speed := Speed.clamp x
  { p with
    pace := p.pace.map fun x => { x with timeline := x.timeline.setSpeed now speed }
    speed }

/-- What reading on has led to. -/
inductive Reading where
  /-- The player is not playing, or has come to the end. -/
  | nothing
  | wait (span : Nanos)
  /-- A message is due; `tick` says whether its time is to be told as well. -/
  | due (entry : Recording.Entry) (tick : Bool)
  deriving DecidableEq

/-- The pace for a message: the running one, or one that starts with it. -/
def paceFor (now : Nanos) (p : Player) (entry : Recording.Entry) : Pace :=
  p.pace.getD ⟨.start entry.logTime p.speed now, .start p.interval⟩

def meet (now : Nanos) (entry : Recording.Entry) (p : Player) : Reading × Player :=
  let pace := p.paceFor now entry
  let emit : Reading × Player :=
    match pace.limiter.pass? entry.logTime with
    | some limiter =>
      (.due entry true,
        { p with
          pending := none
          pace := some { pace with limiter }
          currentTime := entry.logTime })
    | none =>
      (.due entry false,
        { p with pending := none, pace := some pace, currentTime := entry.logTime })
  match pace.timeline.until? now entry.logTime with
  | none => emit
  | some span =>
    if span = 0 then emit else (.wait span, { p with pending := some entry, pace := some pace })

/-- Reads on, without the sink. -/
def read (w : World) (p : Player) : Except Error Reading × Player :=
  if p.status ≠ .playing then (.ok .nothing, p)
  else
    match p.pending with
    | some entry =>
      let (reading, p) := p.meet w.now entry
      (.ok reading, p)
    | none =>
      match p.cursor.next p.summary (w.disk.recording p.file) with
      | (.error e, cursor) => (.error e, { p with cursor })
      | (.ok none, cursor) =>
        (.ok .nothing, { p with cursor, status := .ended, currentTime := p.range.stop })
      | (.ok (some entry), cursor) =>
        let (reading, p) := { p with cursor }.meet w.now entry
        (.ok reading, p)

variable {σ : Type} [Sink σ]

/-- The id of a topic's channel. The sink is asked at the first message of the topic. -/
def channelFor (c : Channel) (p : Player) (s : σ) : ChannelId × Player × σ :=
  match p.channels.find? (·.1 == c.topic) with
  | some (_, id) => (id, p, s)
  | none =>
    let (id, s) := Sink.addChannel c s
    (id, { p with channels := p.channels ++ [(c.topic, id)] }, s)

/-- Gives a message to the sink: its time if it is told, its channel if it is new, itself. -/
def emit (entry : Recording.Entry) (tick : Bool) (p : Player) (s : σ) : Player × σ :=
  let s := if tick then Sink.time entry.logTime s else s
  let (id, p, s) := p.channelFor entry.channel s
  (p, Sink.log id entry.payload entry.logTime s)

/-- Reads on: gives the next message to the sink if it is due, else the time to wait for it. -/
def logNext (w : World) (p : Player) (s : σ) : Except Error (Option Nanos) × Player × σ :=
  match p.read w with
  | (.error e, p) => (.error e, p, s)
  | (.ok .nothing, p) => (.ok none, p, s)
  | (.ok (.wait span), p) => (.ok (some span), p, s)
  | (.ok (.due entry tick), p) =>
    let (p, s) := p.emit entry tick s
    (.ok none, p, s)

/-- Numbers in the description of a player. -/
def numberStyle : Decimal.Style where
  positional e := -5 ≤ e && e < 16
  pointZero := true
  exponentPlus := false
  nan := "NaN"
  infinity := "inf"

def describe (p : Player) : String :=
  let status :=
    match p.status with
    | .paused => "Paused"
    | .playing => "Playing"
    | .ended => "Ended"
  "McapPlayer \x7b path: " ++ Text.quoted p.path
    ++ ", time_range: (" ++ Nat.repr p.range.start.toNat ++ ", " ++ Nat.repr p.range.stop.toNat
    ++ "), current_time: " ++ Nat.repr p.currentTime.toNat
    ++ ", status: " ++ status
    ++ ", playback_speed: " ++ p.speed.value.write numberStyle
    ++ ", pending: " ++ (if p.pending.isSome then "true" else "false") ++ " \x7d"

end Player

instance : Source Player where
  status p := p.status
  currentTime p := p.currentTime
  speed p := p.speed.value
  play w p := p.play w.now
  pause w p := p.pause w.now
  seek w t p := p.seek w.disk t
  setSpeed w x p := p.setSpeed w.now x
  logNext w p s := p.logNext w s

end Replay
