import Replay.Hub.Feed
import Replay.Message
import Replay.Sink

/-!
What the viewers of a playback have in common: the channels with their ids, the state told last,
the feed of everything that is told, the signal to stop, and who is there.
-/

namespace Replay

inductive Outgoing where
  | message (m : ServerMessage)
  | frame (f : Frame)
  deriving DecidableEq

namespace Hub

inductive Posting where
  | everyone (x : Outgoing)
  | subscribers (id : ChannelId) (x : Outgoing)
  deriving DecidableEq

end Hub

abbrev ClientId := UInt32

structure Hub where
  info : ServerInfo
  /-- The ids that topics have. -/
  topics : List (String × ChannelId)
  channels : List Advertised
  nextChannel : ChannelId
  lastState : Option State
  feed : Hub.Feed Hub.Posting
  /-- How often the signal to stop was given. -/
  stops : Nat
  clients : List ClientId
  nextClient : ClientId
  deriving DecidableEq

namespace Hub

def start (info : ServerInfo) (capacity : Nat) : Hub where
  info
  topics := []
  channels := []
  nextChannel := 1
  lastState := none
  feed := .start capacity
  stops := 0
  clients := []
  nextClient := 1

def isStopped (h : Hub) : Bool := 0 < h.stops

def stop (h : Hub) : Hub := { h with stops := h.stops + 1 }

def post (x : Posting) (h : Hub) : Hub := { h with feed := h.feed.push x }

def remember (s : State) (h : Hub) : Hub := { h with lastState := some s }

def announceState (s : State) (h : Hub) : Hub := h.post (.everyone (.message (.state s)))

def publishState (s : State) (h : Hub) : Hub := (h.remember s).announceState s

/-- Puts a channel in its place among others by id, over one with the same id. -/
def insertChannel (a : Advertised) : List Advertised → List Advertised
  | [] => [a]
  | b :: rest =>
    if a.id < b.id then a :: b :: rest
    else if a.id = b.id then a :: rest
    else b :: insertChannel a rest

def isAdvertised (id : ChannelId) (h : Hub) : Bool := h.channels.any (·.id == id)

def topicId? (topic : String) (h : Hub) : Option ChannelId :=
  (h.topics.find? (·.1 == topic)).map (·.2)

/-- Gives a new topic the next id and makes its channel known to viewers to come. -/
def enterChannel (c : Channel) (h : Hub) : Advertised × Hub :=
  let a := c.advertise h.nextChannel
  (a, { h with
    topics := h.topics ++ [(c.topic, h.nextChannel)]
    channels := insertChannel a h.channels
    nextChannel := h.nextChannel + 1 })

def announceChannel (a : Advertised) (h : Hub) : Hub :=
  h.post (.everyone (.message (.advertise [a])))

/-- The id of a channel's topic; a new topic is entered and announced. -/
def addChannel (c : Channel) (h : Hub) : ChannelId × Hub :=
  match h.topicId? c.topic with
  | some id => (id, h)
  | none =>
    let (a, h) := h.enterChannel c
    (a.id, h.announceChannel a)

instance : Sink Hub where
  time t h := h.post (.everyone (.frame (.time t)))
  state s h := h.publishState s
  addChannel c h := h.addChannel c
  log id payload t h := h.post (.subscribers id (.frame (.message id t payload)))

/-- What brings a viewer up to date: all channels, then the state told last. -/
def catchUp (channels : List Advertised) (last : Option State) : List Outgoing :=
  (if channels = [] then [] else [.message (.advertise channels)]) ++
    match last with
    | some s => [.message (.state s)]
    | none => []

def enterClient (h : Hub) : ClientId × Hub :=
  let id := h.nextClient
  (id, { h with
    clients := if id ∈ h.clients then h.clients else h.clients ++ [id]
    nextClient := id + 1 })

def removeClient (id : ClientId) (h : Hub) : Hub :=
  { h with clients := h.clients.filter (· != id) }

end Hub

end Replay
