import Replay.Proofs.Player.Session
import Replay.Proofs.Timeline.Delay

/-!
When a message is given. A playing player gives the message that comes next if its log time is
reached, and else keeps it and tells a wait that is not empty; a message that starts log time is
given at once. Main statement: `given_exactly_when_due`.
-/

namespace Replay.Player

open Recording

/-- The calls that give a message to a sink: its time if that is told, its channel under a new id if
its topic has none, and itself. -/
def giving (e : Entry) (tick : Bool) (new : ChannelId) (p : Player) : List Event :=
  (if tick then [.time e.logTime] else []) ++
    match p.channelId? e.channel.topic with
    | some id => [.message id e.payload e.logTime]
    | none => [.channel new e.channel, .message new e.payload e.logTime]

theorem giving_ne_nil (e : Entry) (tick : Bool) (new : ChannelId) (p : Player) :
    p.giving e tick new ≠ [] := by
  unfold giving
  cases p.channelId? e.channel.topic <;> simp

theorem messages_giving (e : Entry) (tick : Bool) (new : ChannelId) (p : Player) :
    ∃ id, (p.giving e tick new).filter Event.isMessage = [.message id e.payload e.logTime] := by
  unfold giving
  cases p.channelId? e.channel.topic with
  | some id => exact ⟨id, by cases tick <;> rfl⟩
  | none => exact ⟨new, by cases tick <;> rfl⟩

variable {σ : Type} [Sink σ]

theorem emit_giving (e : Entry) (tick : Bool) (p : Player) (s : σ) :
    ∃ channels sink new, p.emit e tick (⟨s, []⟩ : Traced σ) =
      ({ p with channels }, ⟨sink, p.giving e tick new⟩) := by
  obtain ⟨told, htold⟩ : ∃ told, told = if tick then Sink.time e.logTime s else s := ⟨_, rfl⟩
  cases hfound : p.channels.find? (·.1 == e.channel.topic) with
  | some x =>
    refine ⟨p.channels, Sink.log x.2 e.payload e.logTime told, x.2, ?_⟩
    cases tick <;> simp [emit, channelFor, giving, channelId?, hfound, htold, Sink.time, Sink.log]
  | none =>
    let given := Sink.addChannel e.channel told
    refine ⟨p.channels ++ [(e.channel.topic, given.1)],
      Sink.log given.1 e.payload e.logTime given.2, given.1, ?_⟩
    cases tick <;> simp [emit, channelFor, giving, channelId?, hfound, htold, given, Sink.time,
      Sink.addChannel, Sink.log]

variable {w : World} {p : Player} {e : Entry}

/-- Reading on keeps the message that comes next if log time has not reached it, and gives it to the
sink if it has. -/
theorem logNext_of_next? (hp : p.status = .playing) (h : p.next? w = some e) (s : σ) :
    let pace := p.paceFor w.now e
    let passed := pace.limiter.pass? e.logTime
    (pace.timeline.current w.now < e.logTime ∧ ∃ span, 0 < span.toNat ∧
      pace.timeline.until? w.now e.logTime = some span ∧
      p.logNext w (⟨s, []⟩ : Traced σ) = (.ok (some span),
        { p with cursor := p.cursorPast w, pending := some e, pace := some pace }, ⟨s, []⟩)) ∨
    (e.logTime ≤ pace.timeline.current w.now ∧ ∃ channels sink new,
      p.logNext w (⟨s, []⟩ : Traced σ) = (.ok none,
        { p with
          cursor := p.cursorPast w
          pending := none
          pace := some { pace with limiter := passed.getD pace.limiter }
          currentTime := e.logTime
          channels },
        ⟨sink, p.giving e passed.isSome new⟩)) := by
  intro pace passed
  have hread := read_eq_meet hp h
  rcases meet_cases w.now e { p with cursor := p.cursorPast w } with
    ⟨span, huntil, hz, hm⟩ | ⟨huntil, hm⟩
  · refine Or.inl ⟨(pace.timeline.until?_eq_some huntil).1, span, ?_, huntil, ?_⟩
    · exact Nat.pos_of_ne_zero fun hzero => hz (UInt64.toNat.inj hzero)
    · simp only [logNext, hread, hm]
      rfl
  · have hreached := huntil.resolve_right pace.timeline.until?_ne_zero
    obtain ⟨channels, sink, new, hemit⟩ := emit_giving e passed.isSome
      (passing w.now e { p with cursor := p.cursorPast w }) s
    refine Or.inr ⟨pace.timeline.until?_eq_none_iff.mp hreached, channels, sink, new, ?_⟩
    simp only [logNext, hread, hm]
    exact congrArg (Prod.mk (Except.ok none)) hemit

/-- Where no message is met, the sink is not called and log time is left as it is. -/
theorem logNext_meets (w : World) (p : Player) (s : σ) :
    (p.status = .playing ∧ ∃ e, p.next? w = some e) ∨
      ∃ r q, p.logNext w s = (r, q, s) ∧ q.pace = p.pace := by
  rcases p.read_cases w with ⟨_, hr⟩ | ⟨_, _, e, c, hr⟩ | ⟨_, _, c, hr⟩ | ⟨hp, e, _, hn, _⟩
  · exact Or.inr ⟨.ok none, p, by simp only [logNext, hr], rfl⟩
  · exact Or.inr ⟨.error e, { p with cursor := c }, by simp only [logNext, hr], rfl⟩
  · exact Or.inr ⟨.ok none, { p with cursor := c, status := .ended, currentTime := p.range.stop },
      by simp only [logNext, hr], rfl⟩
  · exact Or.inl ⟨hp, e, hn⟩

/-- Log time that does not run starts with the message that comes next. -/
theorem paceFor_of_none (h : p.pace = none) (now : Nanos) (e : Entry) :
    p.paceFor now e = ⟨.start e.logTime p.speed now, .start p.interval⟩ := by
  simp only [paceFor, h, Option.getD_none]

theorem paceFor_of_some {pace : Pace} (h : p.pace = some pace) (now : Nanos) (e : Entry) :
    p.paceFor now e = pace := by
  simp only [paceFor, h, Option.getD_some]

theorem current_paceFor_of_none (h : p.pace = none) (now : Nanos) (e : Entry) :
    (p.paceFor now e).timeline.current now = e.logTime := by
  rw [paceFor_of_none h, Timeline.current_start]

namespace Session

/-- Log time runs only if a message of the present part has been given. -/
def Begun (x : Session σ) : Prop := x.part.messages = [] → x.player.pace = none

variable {x : Session σ}

omit [Sink σ] in
theorem Begun.same (h : x.Begun) {q : Player} (hq : x.player.pace = none → q.pace = none) :
    Begun { x with player := q } := fun hnone => hq (h hnone)

theorem Begun.next (h : x.Begun) {w : World} {r : Except Recording.Error (Option Nanos)}
    {q : Player} {k : Traced σ} (hlog : x.player.logNext w (⟨x.sink, []⟩ : Traced σ) = (r, q, k)) :
    Begun ⟨q, k.sink, x.earlier, { x.part with events := x.part.events ++ k.events }⟩ := by
  intro hnone
  have hnone' : x.part.messages ++ k.events.filter Event.isMessage = [] :=
    (List.filter_append ..).symm.trans hnone
  obtain ⟨hbefore, hgiven⟩ := List.append_eq_nil_iff.mp hnone'
  have hpace : x.player.pace = none := h hbefore
  rcases logNext_meets w x.player (⟨x.sink, []⟩ : Traced σ) with ⟨hp, e, hn⟩ | ⟨_, q', hq, hsame⟩
  · rcases logNext_of_next? hp hn x.sink with ⟨hlt, _⟩ | ⟨_, channels, sink, new, hdue⟩
    · rw [current_paceFor_of_none hpace] at hlt
      exact absurd hlt (UInt64.lt_irrefl _)
    · rw [hdue, Prod.mk.injEq, Prod.mk.injEq] at hlog
      obtain ⟨_, _, rfl⟩ := hlog
      obtain ⟨id, hid⟩ := messages_giving e
        ((x.player.paceFor w.now e).limiter.pass? e.logTime).isSome new x.player
      rw [hid] at hgiven
      cases hgiven
  · rw [hq, Prod.mk.injEq, Prod.mk.injEq] at hlog
    obtain ⟨_, rfl, _⟩ := hlog
    exact hsame.trans hpace

theorem Begun.step (h : x.Begun) (w : World) (o : Operation) : (x.step w o).Begun := by
  cases o with
  | play =>
    have hplay : x.player.pace = none → (x.player.play w.now).pace = none := by
      intro hpace
      unfold Player.play
      split <;> simp [hpace]
    simpa [Session.step, perform] using h.same hplay
  | pause =>
    have hpause : x.player.pace = none → (x.player.pause w.now).pace = none := by
      intro hpace
      unfold Player.pause
      split <;> simp [hpace]
    simpa [Session.step, perform] using h.same hpause
  | setSpeed v =>
    have hspeed : x.player.pace = none → (x.player.setSpeed w.now v).pace = none := by
      intro hpace
      simp [Player.setSpeed, hpace]
    simpa [Session.step, perform] using h.same hspeed
  | seek t =>
    cases hq : x.player.seek w.disk t with
    | error e => simpa [Session.step, perform, hq] using h
    | ok q =>
      obtain ⟨_, _, _, rfl⟩ := seek_ok hq
      intro _
      simp [Session.step, perform, hq]
  | next => exact h.next rfl

theorem Begun.run (h : x.Begun) (os : List (World × Operation)) : (x.run os).Begun := by
  induction os generalizing x with
  | nil => exact h
  | cons o os ih => exact ih (h.step o.1 o.2)

omit [Sink σ] in
theorem begun_start {d : Disk} {path : String} {o : Options} (hopen : openFile d path o = .ok p)
    (k : σ) : (start p k).Begun := by
  obtain ⟨_, _, _, hpace, _⟩ := openFile_ok hopen
  exact fun _ => hpace

end Session

/-- However an opened player is driven and whatever its clock reads: while it plays and the message
that comes next can be read, reading on gives this message to the sink exactly if log time has
reached its log time. Log time is that of the timeline that runs, or of one that starts with the
message; no timeline runs before the first message of a part, which is therefore given at once. A
message that is not given is kept, a wait of a nanosecond at least is told, the sink is not called,
and nothing else is changed but for the cursor, which is behind the message. No wait for any log
time is empty, at any speed. -/
theorem given_exactly_when_due {d : Disk} {path : String} {o : Options}
    (hopen : openFile d path o = .ok p) (k : σ) (os : List (World × Operation)) :
    let x := (Session.start p k).run os
    (∀ w e, x.player.status = .playing → x.player.next? w = some e →
      let pace := x.player.paceFor w.now e
      let reached := pace.timeline.current w.now
      let answer := x.player.logNext w (⟨x.sink, []⟩ : Traced σ)
      (answer.2.2.events ≠ [] ↔ e.logTime ≤ reached) ∧
      (e.logTime ≤ reached → answer.1 = .ok none ∧ answer.2.1.pending = none ∧
        answer.2.1.currentTime = e.logTime ∧
        ∃ tick new, answer.2.2.events = x.player.giving e tick new) ∧
      (reached < e.logTime → ∃ span, 0 < span.toNat ∧ answer = (.ok (some span),
        { x.player with cursor := x.player.cursorPast w, pending := some e, pace := some pace },
        ⟨x.sink, []⟩)) ∧
      (∀ y, x.player.pace = some y → pace = y) ∧
      (x.player.pace = none →
        pace.timeline = .start e.logTime x.player.speed w.now ∧ reached = e.logTime)) ∧
    (x.part.messages = [] → x.player.pace = none) ∧
    (∀ (t : Timeline) now target, t.until? now target ≠ some 0) := by
  intro x
  refine ⟨?_, (Session.begun_start hopen k).run os, fun t _ _ => t.until?_ne_zero⟩
  intro w e hp hn pace reached answer
  have hsome : ∀ y, x.player.pace = some y → pace = y := fun y hy => paceFor_of_some hy w.now e
  have hnone : x.player.pace = none →
      pace.timeline = .start e.logTime x.player.speed w.now ∧ reached = e.logTime := by
    intro hpace
    exact ⟨congrArg Pace.timeline (paceFor_of_none hpace w.now e),
      current_paceFor_of_none hpace w.now e⟩
  rcases logNext_of_next? hp hn x.sink with ⟨hlt, span, hpos, _, hkept⟩ |
    ⟨hle, channels, sink, new, hgiven⟩
  · have hanswer : answer = _ := hkept
    have hnot : ¬ e.logTime ≤ reached := UInt64.not_le.mpr hlt
    refine ⟨?_, fun h => absurd h hnot, fun _ => ⟨span, hpos, hanswer⟩, hsome, hnone⟩
    rw [hanswer]
    exact ⟨fun h => absurd rfl h, fun h => absurd h hnot⟩
  · have hanswer : answer = _ := hgiven
    have hnot : ¬ reached < e.logTime := UInt64.not_lt.mpr hle
    refine ⟨?_, fun _ => ?_, fun h => absurd h hnot, hsome, hnone⟩
    · rw [hanswer]
      exact ⟨fun _ => hle, fun _ => giving_ne_nil e _ new x.player⟩
    · rw [hanswer]
      exact ⟨rfl, rfl, rfl, _, new, rfl⟩

def sampleFirst : Entry := ⟨⟨"/a", "json", none⟩, 5, [1]⟩

def sampleThird : Entry := ⟨⟨"/a", "json", none⟩, 9, [3]⟩

/-- The third message is not due when the clock reads 3, and due when it reads 5; the first message
starts log time. -/
theorem sample_given_exactly_when_due :
    let x := (Session.start samplePlayer Recorder.empty).run sampleOpening
    let y := (Session.start samplePlayer Recorder.empty).run (sampleOpening.take 1)
    openFile sampleDisk "a" .default = .ok samplePlayer ∧ x.player = sampleWaiting ∧
    sampleWaiting.status = .playing ∧
    (∀ now, sampleWaiting.next? ⟨now, sampleDisk⟩ = some sampleThird) ∧
    (∃ span, 0 < span.toNat ∧ x.player.logNext ⟨3, sampleDisk⟩ (⟨x.sink, []⟩ : Traced Recorder) =
      (.ok (some span), { x.player with
        cursor := x.player.cursorPast ⟨3, sampleDisk⟩
        pending := some sampleThird
        pace := some (x.player.paceFor 3 sampleThird) }, ⟨x.sink, []⟩)) ∧
    (∃ tick new, (x.player.logNext ⟨5, sampleDisk⟩ (⟨x.sink, []⟩ : Traced Recorder)).2.2.events =
      x.player.giving sampleThird tick new) ∧
    y.part.messages = [] ∧ y.player.next? ⟨7, sampleDisk⟩ = some sampleFirst ∧
    (y.player.logNext ⟨7, sampleDisk⟩ (⟨y.sink, []⟩ : Traced Recorder)).2.2.events ≠ [] := by
  dsimp only
  have hplays : ((Session.start samplePlayer Recorder.empty).run
      (sampleOpening.take 1)).player.status = .playing := by decide +kernel
  have hnone : ((Session.start samplePlayer Recorder.empty).run
      (sampleOpening.take 1)).part.messages = [] := by decide +kernel
  have hfirst : ((Session.start samplePlayer Recorder.empty).run
      (sampleOpening.take 1)).player.next? ⟨7, sampleDisk⟩ = some sampleFirst := by
    decide +kernel
  obtain ⟨hdue, -, -⟩ := given_exactly_when_due sample_opens Recorder.empty sampleOpening
  obtain ⟨hgiven, hbegun, -⟩ :=
    given_exactly_when_due sample_opens Recorder.empty (sampleOpening.take 1)
  rw [sampleWaiting_reached] at hdue ⊢
  obtain ⟨-, -, hwait, -⟩ := hdue ⟨3, sampleDisk⟩ sampleThird rfl rfl
  obtain ⟨-, hgive, -⟩ := hdue ⟨5, sampleDisk⟩ sampleThird rfl rfl
  obtain ⟨hiff, -, -, -, hstart⟩ := hgiven ⟨7, sampleDisk⟩ sampleFirst hplays hfirst
  refine ⟨sample_opens, rfl, rfl, fun _ => rfl, hwait (by decide +kernel),
    (hgive (by decide +kernel)).2.2.2, hnone, hfirst, ?_⟩
  exact hiff.mpr (UInt64.le_of_eq (hstart (hbegun hnone)).2.symm)

end Replay.Player
