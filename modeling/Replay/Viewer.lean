import Replay.Hub
import Replay.Message.Wire
import Replay.Source

/-!
The connection of one viewer to the hub, as steps between which anything else may happen. It takes
its place in the feed before it looks at what the hub knows, so that nothing is lost in between.
-/

namespace Replay

/-- Something that answers the requests of viewers, with the state to publish if there is one. -/
class Listener (ℓ : Type) where
  answer (w : World) (r : Request) (l : ℓ) : Option State × ℓ

/-- A source applies the request, and the state after it is published. -/
instance {π : Type} [Source π] : Listener π where
  answer w r p :=
    let (state, p) := Source.apply w r p
    (some state, p)

inductive Incoming where
  | text (t : String)
  | binary (bs : Bytes)
  | close
  deriving DecidableEq

/-- What a connection is about to do. -/
inductive Viewer.Stage where
  | arriving
  /-- Has a place in the feed, and begins to listen for the signal to stop. -/
  | attached
  /-- Looks whether the signal was given before. -/
  | listening
  | greeting
  | lookingUpChannels
  | lookingUpState (channels : List Advertised)
  | catchingUp (frames : List Outgoing)
  | live
  /-- Has an answer to a request, to be remembered and then announced. -/
  | remembering (s : State)
  | announcing (s : State)
  | gone
  deriving DecidableEq

structure Viewer where
  id : ClientId
  stage : Viewer.Stage
  place : Nat
  /-- The signals given before it listened. -/
  stopsSeen : Nat
  subscriptions : List ChannelId
  sent : List Outgoing
  deriving DecidableEq

namespace Viewer

def arrive (id : ClientId) : Viewer := ⟨id, .arriving, 0, 0, [], []⟩

def isGone (v : Viewer) : Bool := v.stage = .gone

def send (x : Outgoing) (v : Viewer) : Viewer := { v with sent := v.sent ++ [x] }

def warn (text : String) (v : Viewer) : Viewer := v.send (.message (.status .warning text))

def leave (h : Hub) (v : Viewer) : Hub × Viewer := (h.removeClient v.id, { v with stage := .gone })

/-- The next step of a connection that waits for nothing; a live one and one that is gone have
none. -/
def proceed (h : Hub) (v : Viewer) : Option (Hub × Viewer) :=
  match v.stage with
  | .arriving => some (h, { v with stage := .attached, place := h.feed.sent })
  | .attached => some (h, { v with stage := .listening, stopsSeen := h.stops })
  | .listening => some (if h.isStopped then v.leave h else (h, { v with stage := .greeting }))
  | .greeting =>
    some (h, { v.send (.message (.serverInfo h.info)) with stage := .lookingUpChannels })
  | .lookingUpChannels => some (h, { v with stage := .lookingUpState h.channels })
  | .lookingUpState channels =>
    some (h, { v with stage := .catchingUp (Hub.catchUp channels h.lastState) })
  | .catchingUp [] => some (h, { v with stage := .live })
  | .catchingUp (x :: xs) => some (h, { v.send x with stage := .catchingUp xs })
  | .live => none
  | .remembering s => some (h.remember s, { v with stage := .announcing s })
  | .announcing s => some (h.announceState s, { v with stage := .live })
  | .gone => none

/-- Takes the next item off the feed; none if there is nothing. After a gap the viewer is brought
up to date. -/
def dequeue (h : Hub) (v : Viewer) : Option Viewer :=
  if v.stage = .live then
    match h.feed.receive v.place with
    | (.nothing, _) => none
    | (.item (.everyone x), place) => some { v.send x with place }
    | (.item (.subscribers id x), place) =>
      some (if id ∈ v.subscriptions then { v.send x with place } else { v with place })
    | (.missed _, place) => some { v with stage := .lookingUpChannels, place }
  else none

/-- Whether the signal to stop has come since the connection listens for it. -/
def hearsStop (h : Hub) (v : Viewer) : Bool := v.stage = .live && v.stopsSeen < h.stops

/-- Adds the ids that are advertised, and reports the others. -/
def subscribe (h : Hub) (ids : List ChannelId) (v : Viewer) : Viewer :=
  let known := ids.filter h.isAdvertised
  let unknown := ids.filter fun id => !h.isAdvertised id
  let add (all : List ChannelId) (id : ChannelId) := if id ∈ all then all else all ++ [id]
  let v := { v with subscriptions := known.foldl add v.subscriptions }
  if unknown = [] then v
  else
    v.warn ("Unknown channel ids: ["
      ++ String.intercalate ", " (unknown.map fun id => Nat.repr id.toNat) ++ "]")

def unsubscribe (ids : List ChannelId) (v : Viewer) : Viewer :=
  { v with subscriptions := v.subscriptions.filter (· ∉ ids) }

variable {ℓ : Type} [Listener ℓ]

/-- Handles what a live viewer has sent. The answer to a request is taken here, and published by
the steps that follow. -/
def receive (w : World) (x : Incoming) (h : Hub) (v : Viewer) (l : ℓ) : Hub × Viewer × ℓ :=
  match x with
  | .close =>
    let (h, v) := v.leave h
    (h, v, l)
  | .binary _ => (h, v.warn "Binary client messages are not supported", l)
  | .text t =>
    match ClientMessage.wire.parse t with
    | .error e => (h, v.warn ("Invalid message: " ++ e.message), l)
    | .ok (.subscribe ids) => (h, v.subscribe h ids, l)
    | .ok (.unsubscribe ids) => (h, v.unsubscribe ids, l)
    | .ok (.control r) =>
      match Listener.answer w r l with
      | (some s, l) => (h, { v with stage := .remembering s }, l)
      | (none, l) => (h, v, l)

end Viewer

end Replay
