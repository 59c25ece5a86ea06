import Replay.Config
import Replay.Number.Decimal
import Replay.Text.Blank

/-!
What a configuration has to satisfy. Main statement: `validate_eq_ok_iff`, the checks one after
the other accept exactly the valid configurations.
-/

namespace Replay.Config

inductive Invalid where
  | blankHost
  | zeroPort
  | zeroQueueCapacity
  | badSpeed (x : Binary64)
  | zeroIdle
  | badMaxSleep (millis : UInt64)
  | zeroNotifyRate
  | unknownLevel (level : String)
  | unknownFormat (format : String)
  deriving DecidableEq

/-- The longest sleep may hold off a request for so long. -/
def maxSleepLimit : UInt64 := 1000

def levels : List String := ["trace", "debug", "info", "warn", "error"]

def formats : List String := ["text", "json"]

/-- Speeds in messages: without an exponent, and without a point in a whole number. -/
def speedStyle : Decimal.Style where
  positional _ := true
  pointZero := false
  exponentPlus := false
  nan := "NaN"
  infinity := "inf"

def Invalid.message : Invalid → String
  | .blankHost => "server.host cannot be empty"
  | .zeroPort => "server.port must be > 0"
  | .zeroQueueCapacity => "server.event_queue_capacity must be > 0"
  | .badSpeed x => "playback.initial_speed must be a positive number, got " ++ x.write speedStyle
  | .zeroIdle => "playback.idle_poll_interval_ms must be > 0"
  | .badMaxSleep ms =>
    "playback.max_sleep_ms must be between 1 and " ++ Nat.repr maxSleepLimit.toNat ++ ", got "
      ++ Nat.repr ms.toNat
  | .zeroNotifyRate => "playback.time_notify_hz must be > 0"
  | .unknownLevel level =>
    "Unknown logging.level: '" ++ level ++ "'. Supported: " ++ String.intercalate ", " levels
  | .unknownFormat format =>
    "Unknown logging.format: '" ++ format ++ "'. Supported: " ++ String.intercalate ", " formats

/-- Whether a word is one of the names, in letters of either case. No letter outside of ASCII has
one of their letters as its lower case. -/
def oneOf (names : List String) (word : String) : Bool := names.contains (word.map Char.toLower)

structure Valid (c : Config) : Prop where
  host : ∃ x ∈ c.server.host.toList, Text.isBlank x = false
  port : c.server.port ≠ 0
  queueCapacity : c.server.queueCapacity ≠ 0
  speed_finite : c.playback.initialSpeed.isFinite = true
  speed_positive : c.playback.initialSpeed.isPositive = true
  idle : c.playback.idleMillis ≠ 0
  maxSleep : c.playback.maxSleepMillis ≠ 0
  maxSleep_le : c.playback.maxSleepMillis ≤ maxSleepLimit
  notifyRate : c.playback.notifyHertz ≠ 0
  level : oneOf levels c.logging.level = true
  format : oneOf formats c.logging.format = true

/-- Checks a configuration; of several faults the first in this order is given. -/
def validate (c : Config) : Except Invalid Unit :=
  if c.server.host.toList.all Text.isBlank then .error .blankHost
  else if c.server.port = 0 then .error .zeroPort
  else if c.server.queueCapacity = 0 then .error .zeroQueueCapacity
  else if !c.playback.initialSpeed.isFinite || !c.playback.initialSpeed.isPositive then
    .error (.badSpeed c.playback.initialSpeed)
  else if c.playback.idleMillis = 0 then .error .zeroIdle
  else if c.playback.maxSleepMillis = 0 || maxSleepLimit < c.playback.maxSleepMillis then
    .error (.badMaxSleep c.playback.maxSleepMillis)
  else if c.playback.notifyHertz = 0 then .error .zeroNotifyRate
  else if !oneOf levels c.logging.level then .error (.unknownLevel c.logging.level)
  else if !oneOf formats c.logging.format then .error (.unknownFormat c.logging.format)
  else .ok ()

theorem validate_eq_ok_iff (c : Config) : c.validate = .ok () ↔ c.Valid := by
  constructor
  · intro h
    unfold validate at h
    split at h; · cases h
    split at h; · cases h
    split at h; · cases h
    split at h; · cases h
    split at h; · cases h
    split at h; · cases h
    split at h; · cases h
    split at h; · cases h
    split at h; · cases h
    rename_i host port capacity speed idle sleep rate level format
    simp only [Bool.not_eq_true, List.all_eq_false] at host
    simp only [Bool.or_eq_true, Bool.not_eq_true', not_or, Bool.not_eq_false, decide_eq_true_eq,
      UInt64.not_lt] at speed sleep level format
    exact ⟨by simpa using host, port, capacity, speed.1, speed.2, idle, sleep.1, sleep.2, rate,
      level, format⟩
  · rintro ⟨⟨x, hx, hb⟩, port, capacity, finite, positive, idle, sleep, sleep_le, rate, level,
      format⟩
    have host : c.server.host.toList.all Text.isBlank = false :=
      List.all_eq_false.2 ⟨x, hx, by simp [hb]⟩
    simp [validate, host, port, capacity, finite, positive, idle, sleep, UInt64.not_lt.2 sleep_le,
      rate, level, format]

end Replay.Config
