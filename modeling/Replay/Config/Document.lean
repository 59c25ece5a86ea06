import Replay.Config
import Replay.Yaml.Content

/-!
A configuration as a YAML document: three sections, each with its fields. What is left out has its
default, and names that are not known are passed over.
-/

namespace Replay.Config

open Yaml (Node)

/-- A field of a section, or its default. -/
def readField {α : Type} (fields : List (String × Node)) (key : String) (content : Node → Option α)
    (default : α) : Option α :=
  match fields.find? (·.1 == key) with
  | some (_, n) => content n
  | none => some default

def Server.ofNode? (root n : Node) : Option Server := do
  let fields ← root.fields? ["host", "port", "name", "event_queue_capacity"] n
  return {
    host := ← readField fields "host" Node.text? Server.default.host
    port := ← readField fields "port" (fun n => (n.word? 16).map UInt16.ofNat) Server.default.port
    name := ← readField fields "name" Node.optionalText? Server.default.name
    queueCapacity := ← readField fields "event_queue_capacity"
      (fun n => (n.word? 64).map UInt64.ofNat)
      Server.default.queueCapacity }

def Playback.ofNode? (root n : Node) : Option Playback := do
  let fields ← root.fields?
    ["initial_speed", "idle_poll_interval_ms", "max_sleep_ms", "time_notify_hz", "autoplay"] n
  let default := Playback.default
  return {
    initialSpeed := ← readField fields "initial_speed" Node.double? default.initialSpeed
    idleMillis := ← readField fields "idle_poll_interval_ms"
      (fun n => (n.word? 64).map UInt64.ofNat)
      default.idleMillis
    maxSleepMillis := ← readField fields "max_sleep_ms" (fun n => (n.word? 64).map UInt64.ofNat)
      default.maxSleepMillis
    notifyHertz := ← readField fields "time_notify_hz" (fun n => (n.word? 32).map UInt32.ofNat)
      default.notifyHertz
    autoplay := ← readField fields "autoplay" Node.boolean? default.autoplay }

def Logging.ofNode? (root n : Node) : Option Logging := do
  let fields ← root.fields? ["level", "format"] n
  return {
    level := ← readField fields "level" Node.text? Logging.default.level
    format := ← readField fields "format" Node.text? Logging.default.format }

def ofNode? (root : Node) : Option Config := do
  let fields ← root.fields? ["server", "playback", "logging"] root
  return {
    server := ← readField fields "server" (Server.ofNode? root) .default
    playback := ← readField fields "playback" (Playback.ofNode? root) .default
    logging := ← readField fields "logging" (Logging.ofNode? root) .default }

def ofYaml? (text : List Char) : Option Config := (Node.ofText? text).bind ofNode?

end Replay.Config
