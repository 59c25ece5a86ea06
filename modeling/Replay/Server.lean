import Replay.Viewer

/-!
The hub with all its connections, and the single actions it can go through. What a server does is
a list of actions; every order of them that is possible can happen.
-/

namespace Replay

structure Server (ℓ : Type) where
  hub : Hub
  /-- Every connection there was, in the order in which they came. -/
  viewers : List Viewer
  listener : ℓ
  /-- A channel that is entered and not yet announced. -/
  entered : Option Advertised

namespace Server

inductive Action where
  | connect
  /-- The next step of a connection. -/
  | proceed (n : Nat)
  | dequeue (n : Nat)
  /-- A connection handles what its viewer has sent. -/
  | receive (n : Nat) (x : Incoming)
  | hearStop (n : Nat)
  | lose (n : Nat)
  | time (t : Nanos)
  | state (s : State)
  | log (id : ChannelId) (payload : Bytes) (t : Nanos)
  | enter (c : Channel)
  | announce
  | stop

variable {ℓ : Type}

def start (info : ServerInfo) (capacity : Nat) (listener : ℓ) : Server ℓ :=
  ⟨.start info capacity, [], listener, none⟩

def viewer? (s : Server ℓ) (n : Nat) : Option Viewer := s.viewers[n]?

def update (s : Server ℓ) (n : Nat) (outcome : Hub × Viewer) : Server ℓ :=
  { s with hub := outcome.1, viewers := s.viewers.set n outcome.2 }

variable [Listener ℓ]

/-- What an action leads to; none if it is not possible. -/
def step (w : World) (a : Action) (s : Server ℓ) : Option (Server ℓ) :=
  match a with
  | .connect =>
    if s.hub.isStopped then none
    else
      let (id, hub) := s.hub.enterClient
      some { s with hub, viewers := s.viewers ++ [.arrive id] }
  | .proceed n => do
    let v ← s.viewer? n
    return s.update n (← v.proceed s.hub)
  | .dequeue n => do
    let v ← s.viewer? n
    return s.update n (s.hub, ← v.dequeue s.hub)
  | .receive n x => do
    let v ← s.viewer? n
    if v.stage ≠ .live then none
    let (hub, v, listener) := v.receive w x s.hub s.listener
    return { s with listener }.update n (hub, v)
  | .hearStop n => do
    let v ← s.viewer? n
    if v.hearsStop s.hub then return s.update n (v.leave s.hub) else none
  | .lose n => do
    let v ← s.viewer? n
    if v.isGone then none else return s.update n (v.leave s.hub)
  | .time t => some { s with hub := Sink.time t s.hub }
  | .state x => some { s with hub := s.hub.publishState x }
  | .log id payload t => some { s with hub := Sink.log id payload t s.hub }
  | .enter c =>
    if s.entered.isSome then none
    else match s.hub.topicId? c.topic with
      | some _ => some s
      | none =>
        let (a, hub) := s.hub.enterChannel c
        some { s with hub, entered := some a }
  | .announce =>
    s.entered.map fun a => { s with hub := s.hub.announceChannel a, entered := none }
  | .stop => some { s with hub := s.hub.stop }

/-- Actions one after the other, as far as they are possible. -/
def run (w : World) (as : List Action) (s : Server ℓ) : Server ℓ :=
  as.foldl (fun s a => (s.step w a).getD s) s

/-- The next action of a connection of its own: a step, an item, or the end. -/
def nextOf (w : World) (n : Nat) (s : Server ℓ) : Option (Server ℓ) :=
  s.step w (.proceed n) <|> s.step w (.dequeue n) <|> s.step w (.hearStop n)

/-- Lets a connection go on until it has to wait. -/
def settleOne (w : World) (n : Nat) : Nat → Server ℓ → Server ℓ
  | 0, s => s
  | turns + 1, s =>
    match s.nextOf w n with
    | none => s
    | some s => settleOne w n turns s

/-- Lets every connection go on until it has to wait. An item takes one turn, and bringing a viewer
up to date fewer than sixteen. -/
def settle (w : World) (s : Server ℓ) : Server ℓ :=
  (List.range s.viewers.length).foldl
    (fun s n => settleOne w n (s.hub.feed.recent.length + 16) s) s

end Server

end Replay
