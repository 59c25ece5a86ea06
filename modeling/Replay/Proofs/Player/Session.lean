import Replay.Proofs.Player.Reading

/-!
Runs of a player: operations in any order, each in a world of its own, with what each part of the
run gave to the sink. A part begins when the recording is opened and whenever the position is moved.
-/

namespace Replay

/-- A sink that also keeps the calls made to it. -/
structure Traced (σ : Type) where
  sink : σ
  events : List Event

variable {σ : Type} [Sink σ]

instance : Sink (Traced σ) where
  time t s := ⟨Sink.time t s.sink, s.events ++ [.time t]⟩
  state x s := ⟨Sink.state x s.sink, s.events ++ [.state x]⟩
  addChannel c s :=
    let (id, sink) := Sink.addChannel c s.sink
    (id, ⟨sink, s.events ++ [.channel id c]⟩)
  log id payload t s := ⟨Sink.log id payload t s.sink, s.events ++ [.message id payload t]⟩

def Event.isMessage : Event → Bool
  | .message _ _ _ => true
  | _ => false

/-- The state that a call of the sink tells. -/
def Event.state? : Event → Option State
  | .state x => some x
  | _ => none

namespace Player

inductive Operation where
  | play
  | pause
  | setSpeed (x : Binary64)
  | seek (t : Nanos)
  | next
  deriving DecidableEq

def perform (w : World) (p : Player) (s : σ) :
    Operation → Except Recording.Error (Option Nanos) × Player × σ
  | .play => (.ok none, p.play w.now, s)
  | .pause => (.ok none, p.pause w.now, s)
  | .setSpeed x => (.ok none, p.setSpeed w.now x, s)
  | .seek t =>
    match p.seek w.disk t with
    | .ok q => (.ok none, q, s)
    | .error e => (.error e, p, s)
  | .next => p.logNext w s

/-- The id under which the player logs the messages of a topic. -/
def channelId? (p : Player) (topic : String) : Option ChannelId :=
  (p.channels.find? (·.1 == topic)).map (·.2)

/-- The call that logs a message, if its topic has an id. -/
def logging (p : Player) (e : Recording.Entry) : Option Event :=
  (p.channelId? e.channel.topic).map fun id => .message id e.payload e.logTime

/-- A part of a run: the time at which its cursor was put, and the calls of the sink. -/
structure Part where
  start : Nanos
  events : List Event

def Part.messages (x : Part) : List Event := x.events.filter Event.isMessage

structure Session (σ : Type) where
  player : Player
  sink : σ
  /-- The parts that a move of the position has closed. -/
  earlier : List Part
  part : Part

namespace Session

def start (p : Player) (s : σ) : Session σ := ⟨p, s, [], ⟨p.range.start, []⟩⟩

def parts (x : Session σ) : List Part := x.earlier ++ [x.part]

def step (x : Session σ) (w : World) (o : Operation) : Session σ :=
  let (result, p, s) := x.player.perform w (⟨x.sink, []⟩ : Traced σ) o
  match o, result with
  | .seek t, .ok _ => ⟨p, s.sink, x.parts, ⟨x.player.range.clamp t, s.events⟩⟩
  | _, _ => ⟨p, s.sink, x.earlier, { x.part with events := x.part.events ++ s.events }⟩

def run (x : Session σ) (os : List (World × Operation)) : Session σ :=
  os.foldl (fun x o => x.step o.1 o.2) x

end Session

/-- `q` is `p` but for pace, status and speed, and it has come to the end if `p` has. -/
def Retimed (p q : Player) : Prop :=
  ∃ pace status speed, q = { p with pace, status, speed } ∧
    (status = .ended ↔ p.status = .ended)

theorem Retimed.refl (p : Player) : p.Retimed p := ⟨p.pace, p.status, p.speed, rfl, Iff.rfl⟩

theorem play_retimed (now : Nanos) (p : Player) : p.Retimed (p.play now) := by
  unfold Player.play
  split
  · exact .refl p
  · rename_i h
    exact ⟨_, .playing, p.speed, rfl, by simp [h]⟩

theorem pause_retimed (now : Nanos) (p : Player) : p.Retimed (p.pause now) := by
  unfold Player.pause
  split
  · exact .refl p
  · rename_i h
    exact ⟨_, .paused, p.speed, rfl, by simp [h]⟩

theorem setSpeed_retimed (now : Nanos) (v : Binary64) (p : Player) :
    p.Retimed (p.setSpeed now v) :=
  ⟨_, p.status, Speed.clamp v, rfl, Iff.rfl⟩

theorem Retimed.trans {p q r : Player} (h : p.Retimed q) (h' : q.Retimed r) : p.Retimed r := by
  obtain ⟨pace, status, speed, rfl, hs⟩ := h
  obtain ⟨pace', status', speed', rfl, hs'⟩ := h'
  exact ⟨pace', status', speed', rfl, hs'.trans hs⟩

section Retimed

variable {p q : Player} (h : p.Retimed q)
include h

theorem Retimed.currentTime_eq : q.currentTime = p.currentTime := by
  obtain ⟨_, _, _, rfl, _⟩ := h
  rfl

theorem Retimed.ended_iff : q.status = .ended ↔ p.status = .ended := by
  obtain ⟨_, _, _, rfl, hs⟩ := h
  exact hs

theorem Retimed.channelId?_eq (topic : String) : q.channelId? topic = p.channelId? topic := by
  obtain ⟨_, _, _, rfl, _⟩ := h
  rfl

theorem Retimed.next?_eq (w : World) : q.next? w = p.next? w := by
  obtain ⟨_, _, _, rfl, _⟩ := h
  rfl

end Retimed

/-- What a request can do: it changes pace, status and speed alone; or it moves the position first. -/
theorem apply_cases (w : World) (r : Request) (p : Player) :
    ((Source.apply w r p).1.didSeek = false ∧ p.Retimed (Source.apply w r p).2) ∨
    ((Source.apply w r p).1.didSeek = true ∧ ∃ t q, r.seek = some t ∧ p.seek w.disk t = .ok q ∧
      q.Retimed (Source.apply w r p).2) := by
  have hrest : ∀ q : Player,
      q.Retimed (Source.command w r.command (Source.setSpeed w r.speed q)) := by
    intro q
    have hspeed := q.setSpeed_retimed w.now r.speed
    cases r.command with
    | none => exact hspeed
    | some c =>
      cases c with
      | play => exact hspeed.trans (play_retimed w.now _)
      | pause => exact hspeed.trans (pause_retimed w.now _)
  cases hr : r.seek with
  | none =>
    have hmove : Source.move w r.seek p = (false, p) := by rw [hr]; rfl
    simp only [Source.apply, hmove]
    exact Or.inl ⟨rfl, hrest p⟩
  | some t =>
    cases hq : p.seek w.disk t with
    | error e =>
      have hmove : Source.move w r.seek p = (false, p) := by simp [hr, Source.move, Source.seek, hq]
      simp only [Source.apply, hmove]
      exact Or.inl ⟨rfl, hrest p⟩
    | ok q =>
      have hmove : Source.move w r.seek p = (true, q) := by simp [hr, Source.move, Source.seek, hq]
      simp only [Source.apply, hmove]
      exact Or.inr ⟨rfl, t, q, rfl, hq, hrest q⟩

/-- What a step can do: it changes pace, status or speed alone; it moves the position, which begins
a part; or it reads on while playing. -/
theorem Session.step_cases (x : Session σ) (w : World) (o : Operation) :
    ((o = .next → x.player.status ≠ .playing) ∧
      ∃ q, x.player.Retimed q ∧ x.step w o = { x with player := q }) ∨
    (∃ t q, o = .seek t ∧ x.player.seek w.disk t = .ok q ∧
      x.step w o = ⟨q, x.sink, x.parts, ⟨x.player.range.clamp t, []⟩⟩) ∨
    (o = .next ∧ x.player.status = .playing ∧ ∀ r q k,
      x.player.logNext w (⟨x.sink, []⟩ : Traced σ) = (r, q, k) →
      x.step w o = ⟨q, k.sink, x.earlier, { x.part with events := x.part.events ++ k.events }⟩) := by
  cases o with
  | play =>
    exact Or.inl ⟨nofun, _, play_retimed w.now x.player, by simp [step, perform]⟩
  | pause =>
    exact Or.inl ⟨nofun, _, pause_retimed w.now x.player, by simp [step, perform]⟩
  | setSpeed v =>
    exact Or.inl ⟨nofun, _, setSpeed_retimed w.now v x.player, by simp [step, perform]⟩
  | seek t =>
    cases hq : x.player.seek w.disk t with
    | error e => exact Or.inl ⟨nofun, _, .refl x.player, by simp [step, perform, hq]⟩
    | ok q => exact Or.inr (Or.inl ⟨t, q, rfl, hq, by simp [step, perform, hq]⟩)
  | next =>
    by_cases hp : x.player.status = .playing
    · exact Or.inr (Or.inr ⟨rfl, hp, fun r q k h => by simp only [step, perform, h]⟩)
    · exact Or.inl ⟨fun _ => hp, _, .refl x.player, by
        simp [step, perform, logNext_of_not_playing hp]⟩

/-- The ids that `q` has are those of `p` and those that a sink has given since. -/
structure Learns (p q : Player) (events : List Event) : Prop where
  keeps : ∀ topic id, p.channelId? topic = some id → q.channelId? topic = some id
  given : ∀ x ∈ q.channels, x ∈ p.channels ∨ ∃ c : Channel, c.topic = x.1 ∧ .channel x.2 c ∈ events

theorem Learns.refl (p : Player) (events : List Event) : p.Learns p events :=
  ⟨fun _ _ h => h, fun _ h => Or.inl h⟩

/-- A topic's id is the one it has; a new topic is given one by the sink. -/
theorem channelFor_traced (c : Channel) (p : Player) (s : σ) (events : List Event) :
    ∃ id channels sink added, p.channelFor c (⟨s, events⟩ : Traced σ) =
        (id, { p with channels }, ⟨sink, events ++ added⟩) ∧
      added.filter Event.isMessage = [] ∧
      channelId? { p with channels } c.topic = some id ∧ p.Learns { p with channels } added := by
  cases hfound : p.channels.find? (·.1 == c.topic) with
  | some x =>
    exact ⟨x.2, p.channels, s, [], by simp [channelFor, hfound], rfl, by simp [channelId?, hfound],
      .refl p []⟩
  | none =>
    have hnew : ∀ topic id, (p.channels ++ [(c.topic, id)]).find? (·.1 == topic) =
        (p.channels.find? (·.1 == topic)).or
          (if c.topic == topic then some (c.topic, id) else none) := by
      intro topic id
      rw [List.find?_append, List.find?_singleton]
    refine ⟨(Sink.addChannel c s).1, p.channels ++ [(c.topic, (Sink.addChannel c s).1)],
      (Sink.addChannel c s).2, [.channel (Sink.addChannel c s).1 c], ?_, rfl, ?_, ⟨?_, ?_⟩⟩
    · simp [channelFor, hfound, Sink.addChannel]
    · simp [channelId?, hnew, hfound]
    · intro topic id h
      obtain ⟨x, hx, rfl⟩ := Option.map_eq_some_iff.mp h
      simp [channelId?, hnew, hx]
    · intro x hx
      rcases List.mem_append.mp hx with hx | hx
      · exact Or.inl hx
      · obtain rfl := List.mem_singleton.mp hx
        exact Or.inr ⟨c, rfl, by simp⟩

/-- A message goes to the sink under the id of its topic, after its time if that is told and after
its channel if its topic is new. -/
theorem emit_traced (e : Recording.Entry) (tick : Bool) (p : Player) (s : σ) :
    ∃ id channels sink before, p.emit e tick (⟨s, []⟩ : Traced σ) =
        ({ p with channels }, ⟨sink, before ++ [.message id e.payload e.logTime]⟩) ∧
      before.filter Event.isMessage = [] ∧
      channelId? { p with channels } e.channel.topic = some id ∧
      p.Learns { p with channels } before := by
  obtain ⟨told, sink, htold, hno⟩ : ∃ told sink, (if tick then Sink.time e.logTime ⟨s, []⟩ else
      (⟨s, []⟩ : Traced σ)) = ⟨sink, told⟩ ∧ told.filter Event.isMessage = [] := by
    cases tick
    · exact ⟨[], s, rfl, rfl⟩
    · exact ⟨[.time e.logTime], Sink.time e.logTime s, rfl, rfl⟩
  obtain ⟨id, channels, sink', added, hfor, hadded, hid, hlearns⟩ :=
    channelFor_traced e.channel p sink told
  refine ⟨id, channels, Sink.log id e.payload e.logTime sink', told ++ added, ?_, ?_, hid,
    ⟨hlearns.keeps, ?_⟩⟩
  · simp only [emit, htold, hfor]
    rfl
  · rw [List.filter_append, hno, hadded]
    rfl
  · intro x hx
    rcases hlearns.given x hx with h | ⟨c, hc, hm⟩
    · exact Or.inl h
    · exact Or.inr ⟨c, hc, List.mem_append_right _ hm⟩

theorem logNext_learns {w : World} {p q : Player} {s : σ} {k : Traced σ}
    {r : Except Recording.Error (Option Nanos)}
    (h : p.logNext w (⟨s, []⟩ : Traced σ) = (r, q, k)) : p.Learns q k.events := by
  rcases logNext_cases w p (⟨s, []⟩ : Traced σ) with ⟨_, hlog⟩ | ⟨_, _, e, c, hlog⟩ |
    ⟨_, _, c, hlog⟩ | ⟨_, e, c, span, _, hlog⟩ | ⟨_, e, c, tick, hlog⟩ <;> rw [hlog] at h
  · cases h
    exact ⟨fun _ _ h => h, fun _ h => Or.inl h⟩
  · cases h
    exact ⟨fun _ _ h => h, fun _ h => Or.inl h⟩
  · cases h
    exact ⟨fun _ _ h => h, fun _ h => Or.inl h⟩
  · cases h
    exact ⟨fun _ _ h => h, fun _ h => Or.inl h⟩
  · obtain ⟨rfl, hemit⟩ := Prod.mk.inj h
    obtain ⟨id, channels, sink, before, htraced, _, _, hlearns⟩ :=
      emit_traced e tick (passing w.now e { p with cursor := c }) s
    rw [hemit, Prod.mk.injEq] at htraced
    obtain ⟨rfl, rfl⟩ := htraced
    refine ⟨hlearns.keeps, ?_⟩
    intro y hy
    rcases hlearns.given y hy with hold | ⟨ch, hch, hm⟩
    · exact Or.inl hold
    · exact Or.inr ⟨ch, hch, List.mem_append_left _ hm⟩

/-- A message goes to the sink without a state. -/
theorem states_emit (e : Recording.Entry) (tick : Bool) (p : Player) (s : Traced σ) :
    (p.emit e tick s).2.events.filterMap Event.state? = s.events.filterMap Event.state? := by
  cases tick <;> cases hfound : p.channels.find? (·.1 == e.channel.topic) <;>
    simp [emit, channelFor, hfound, Sink.time, Sink.addChannel, Sink.log, Event.state?]

/-- Reading on tells no state, and the only status it can reach is the end. -/
theorem logNext_status {w : World} {p q : Player} {s : σ} {k : Traced σ}
    {r : Except Recording.Error (Option Nanos)}
    (h : p.logNext w (⟨s, []⟩ : Traced σ) = (r, q, k)) :
    k.events.filterMap Event.state? = [] ∧
      (q.status = p.status ∨ (p.status = .playing ∧ q.status = .ended ∧ r = .ok none)) := by
  rcases logNext_cases w p (⟨s, []⟩ : Traced σ) with ⟨_, hlog⟩ | ⟨_, _, e, c, hlog⟩ |
    ⟨hp, _, c, hlog⟩ | ⟨_, e, c, span, _, hlog⟩ | ⟨_, e, c, tick, hlog⟩ <;> rw [hlog] at h
  · cases h
    exact ⟨rfl, Or.inl rfl⟩
  · cases h
    exact ⟨rfl, Or.inl rfl⟩
  · cases h
    exact ⟨rfl, Or.inr ⟨hp, rfl, rfl⟩⟩
  · cases h
    exact ⟨rfl, Or.inl rfl⟩
  · obtain ⟨rfl, hemit⟩ := Prod.mk.inj h
    obtain ⟨channels, hq⟩ :=
      emit_player e tick (passing w.now e { p with cursor := c }) (⟨s, []⟩ : Traced σ)
    have hstates := states_emit e tick (passing w.now e { p with cursor := c }) (⟨s, []⟩ : Traced σ)
    rw [hemit] at hq hstates
    have hstatus := congrArg Player.status hq
    exact ⟨hstates, Or.inl hstatus⟩

/-- Two messages go out, and the third has to wait. -/
def sampleOpening : List (World × Operation) :=
  [(⟨0, Recording.sampleDisk⟩, .play), (⟨1, Recording.sampleDisk⟩, .next), (⟨1, Recording.sampleDisk⟩, .next),
    (⟨1, Recording.sampleDisk⟩, .next)]

def sampleWaiting : Player :=
  { samplePlayer with
    cursor := ⟨3, [], []⟩
    pending := some ⟨⟨"/a", "json", none⟩, 9, [3]⟩
    pace := some ⟨.start 5 samplePlayer.speed 1, .start samplePlayer.interval⟩
    status := .playing
    channels := [("/a", 1)] }

theorem sampleWaiting_reached :
    ((Session.start samplePlayer Recorder.empty).run sampleOpening).player = sampleWaiting := by
  decide +kernel

end Player

end Replay
