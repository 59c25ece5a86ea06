import Replay.Config.Validation
import Replay.Proofs.Player.Session
import Replay.Proofs.Timeline.Spacing

/-!
The times that a player tells beside its messages. In every part of a run they are those that a
limiter lets through, of the log times of the messages. A configured rate of times per second of log
time is turned into an interval; main statement: the rate is kept if it divides a second, and else it
can be exceeded.
-/

namespace Replay

/-- The time that a call of the sink tells. -/
def Event.tick? : Event → Option Nanos
  | .time t => some t
  | _ => none

/-- The log time of the message that a call of the sink logs. -/
def Event.logTime? : Event → Option Nanos
  | .message _ _ t => some t
  | _ => none

namespace Player

open Recording Limiter

variable {σ : Type}

def Part.ticks (x : Part) : List Nanos := x.events.filterMap Event.tick?

def Part.logTimes (x : Part) : List Nanos := x.events.filterMap Event.logTime?

/-- The limiter that the next message comes to. -/
def limiter (p : Player) : Limiter := (p.pace.map Pace.limiter).getD (.start p.interval)

theorem limiter_paceFor (now : Nanos) (e : Entry) (p : Player) :
    (p.paceFor now e).limiter = p.limiter := by
  unfold paceFor limiter
  cases p.pace <;> rfl

/-- What has the limiter and the interval of a player. -/
def SameLimiter (p q : Player) : Prop := q.limiter = p.limiter ∧ q.interval = p.interval

theorem sameLimiter_play (now : Nanos) (p : Player) : p.SameLimiter (p.play now) := by
  unfold SameLimiter Player.play limiter
  split
  · exact ⟨rfl, rfl⟩
  · cases p.pace <;> exact ⟨rfl, rfl⟩

theorem sameLimiter_pause (now : Nanos) (p : Player) : p.SameLimiter (p.pause now) := by
  unfold SameLimiter Player.pause limiter
  split
  · exact ⟨rfl, rfl⟩
  · cases p.pace <;> exact ⟨rfl, rfl⟩

theorem sameLimiter_setSpeed (now : Nanos) (v : Binary64) (p : Player) :
    p.SameLimiter (p.setSpeed now v) := by
  unfold SameLimiter Player.setSpeed limiter
  cases p.pace <;> exact ⟨rfl, rfl⟩

section

variable [Sink σ] (e : Entry) (tick : Bool) (p : Player) (s : Traced σ)

theorem ticks_emit : (p.emit e tick s).2.events.filterMap Event.tick? =
    s.events.filterMap Event.tick? ++ if tick then [e.logTime] else [] := by
  cases tick <;> cases hfound : p.channels.find? (·.1 == e.channel.topic) <;>
    simp [emit, channelFor, hfound, Sink.time, Sink.addChannel, Sink.log, Event.tick?]

theorem logTimes_emit : (p.emit e tick s).2.events.filterMap Event.logTime? =
    s.events.filterMap Event.logTime? ++ [e.logTime] := by
  cases tick <;> cases hfound : p.channels.find? (·.1 == e.channel.topic) <;>
    simp [emit, channelFor, hfound, Sink.time, Sink.addChannel, Sink.log, List.filterMap_cons,
      Event.logTime?]

end

/-- What a part of a run has told is what its limiter let through. -/
structure Ticking (interval : Nanos) (x : Session σ) : Prop where
  interval_eq : x.player.interval = interval
  limiter_eq : x.player.limiter = (Limiter.start interval).after x.part.logTimes
  ticks : ∀ part ∈ x.parts, part.ticks = (Limiter.start interval).through part.logTimes

variable [Sink σ]

/-- Reading on tells the times that the limiter lets through. -/
theorem logNext_ticks {w : World} {p q : Player} {s : σ} {k : Traced σ}
    {r : Except Recording.Error (Option Nanos)}
    (h : p.logNext w (⟨s, []⟩ : Traced σ) = (r, q, k)) :
    k.events.filterMap Event.tick? = p.limiter.through (k.events.filterMap Event.logTime?) ∧
      q.limiter = p.limiter.after (k.events.filterMap Event.logTime?) ∧
      q.interval = p.interval := by
  rcases p.read_cases w with ⟨_, hr⟩ | ⟨_, _, e, c, hr⟩ | ⟨_, _, c, hr⟩ | ⟨_, e, c, _, hr⟩
  -- where no message is met the limiter is not asked
  iterate 3
    · simp only [logNext, hr, Prod.mk.injEq] at h
      obtain ⟨_, rfl, rfl⟩ := h
      exact ⟨rfl, rfl, rfl⟩
  · have hlimiter : (({ p with cursor := c } : Player).paceFor w.now e).limiter = p.limiter :=
      limiter_paceFor w.now e { p with cursor := c }
    rcases meet_cases w.now e { p with cursor := c } with ⟨span, _, _, hm⟩ | ⟨_, hm⟩
    · simp only [logNext, hr, hm, Prod.mk.injEq] at h
      obtain ⟨_, rfl, rfl⟩ := h
      exact ⟨rfl, hlimiter, rfl⟩
    · rw [hlimiter] at hm
      simp only [logNext, hr, hm, Prod.mk.injEq] at h
      obtain ⟨_, rfl, rfl⟩ := h
      have hticks := ticks_emit e (p.limiter.pass? e.logTime).isSome
        (passing w.now e { p with cursor := c }) (⟨s, []⟩ : Traced σ)
      have htimes := logTimes_emit e (p.limiter.pass? e.logTime).isSome
        (passing w.now e { p with cursor := c }) (⟨s, []⟩ : Traced σ)
      obtain ⟨channels, hq⟩ := emit_player e (p.limiter.pass? e.logTime).isSome
        (passing w.now e { p with cursor := c }) (⟨s, []⟩ : Traced σ)
      rw [hticks, htimes, hq]
      refine ⟨by simp [through_cons, through], ?_, rfl⟩
      exact congrArg (fun l => (l.pass? e.logTime).getD l) hlimiter

omit [Sink σ] in
theorem Ticking.start {d : Disk} {path : String} {o : Options} {p : Player}
    (ho : openFile d path o = .ok p) (k : σ) : Ticking o.interval (Session.start p k) := by
  obtain ⟨_, _, _, _, _, _, _, _, _, rfl⟩ := openFile_opened ho
  refine ⟨rfl, rfl, ?_⟩
  intro part hpart
  obtain rfl := List.mem_singleton.mp hpart
  rfl

omit [Sink σ] in
/-- What leaves limiter and interval as they are adds nothing to the part. -/
theorem Ticking.same {interval : Nanos} {x : Session σ} (h : Ticking interval x) {q : Player}
    (hq : x.player.SameLimiter q) : Ticking interval { x with player := q } :=
  ⟨hq.2.trans h.interval_eq, hq.1.trans h.limiter_eq, h.ticks⟩

omit [Sink σ] in
/-- A part that a move begins starts with a new limiter. -/
theorem Ticking.moved {interval : Nanos} {x : Session σ} (h : Ticking interval x) {d : Disk}
    {t : Nanos} {q : Player} (hq : x.player.seek d t = .ok q) :
    Ticking interval ⟨q, x.sink, x.parts, ⟨x.player.range.clamp t, []⟩⟩ := by
  obtain ⟨_, _, _, rfl⟩ := seek_ok hq
  refine ⟨h.interval_eq, congrArg Limiter.start h.interval_eq, ?_⟩
  intro part hpart
  rcases List.mem_append.mp hpart with hpart | hpart
  · exact h.ticks part hpart
  · obtain rfl := List.mem_singleton.mp hpart
    rfl

theorem Ticking.next {interval : Nanos} {x : Session σ} (h : Ticking interval x) {w : World}
    {r : Except Recording.Error (Option Nanos)} {q : Player} {k : Traced σ}
    (hlog : x.player.logNext w (⟨x.sink, []⟩ : Traced σ) = (r, q, k)) :
    Ticking interval ⟨q, k.sink, x.earlier, { x.part with events := x.part.events ++ k.events }⟩ := by
  obtain ⟨hticks, hlimiter, hinterval⟩ := logNext_ticks hlog
  have hpresent := h.ticks x.part (List.mem_append_right _ (List.mem_singleton_self _))
  refine ⟨hinterval.trans h.interval_eq, ?_, ?_⟩
  · rw [hlimiter, h.limiter_eq, Part.logTimes, Part.logTimes, List.filterMap_append, after_append]
  · intro part hpart
    rcases List.mem_append.mp hpart with hpart | hpart
    · exact h.ticks part (List.mem_append_left _ hpart)
    · obtain rfl := List.mem_singleton.mp hpart
      simp only [Part.ticks, Part.logTimes, List.filterMap_append, through_append] at hpresent ⊢
      rw [hpresent, hticks, h.limiter_eq, Part.logTimes]

theorem Ticking.step {interval : Nanos} {x : Session σ} (h : Ticking interval x) (w : World)
    (o : Operation) : Ticking interval (x.step w o) := by
  cases o with
  | play => simpa [Session.step, perform] using h.same (x.player.sameLimiter_play w.now)
  | pause => simpa [Session.step, perform] using h.same (x.player.sameLimiter_pause w.now)
  | setSpeed v => simpa [Session.step, perform] using h.same (x.player.sameLimiter_setSpeed w.now v)
  | seek t =>
    cases hq : x.player.seek w.disk t with
    | error e => simpa [Session.step, perform, hq] using h
    | ok q => simpa [Session.step, perform, hq] using h.moved hq
  | next => exact h.next rfl

theorem Ticking.run {interval : Nanos} {x : Session σ} (h : Ticking interval x)
    (os : List (World × Operation)) : Ticking interval (x.run os) := by
  induction os generalizing x with
  | nil => exact h
  | cons o os ih => exact ih (h.step o.1 o.2)

end Player

theorem Config.Playback.toNat_notifyInterval {c : Config.Playback} (h : c.notifyHertz ≠ 0) :
    c.notifyInterval.toNat = 1000000000 / c.notifyHertz.toNat := by
  have hpos : 0 < c.notifyHertz.toNat := by
    apply Nat.pos_of_ne_zero
    intro hzero
    exact h (UInt32.toNat.inj hzero)
  have hlt : c.notifyHertz.toNat < UInt64.size :=
    Nat.lt_trans c.notifyHertz.toNat_lt (by decide)
  have hrate : (UInt64.ofNat c.notifyHertz.toNat).toNat = c.notifyHertz.toNat :=
    UInt64.toNat_ofNat_of_lt' hlt
  rw [notifyInterval, UInt64.toNat_div, Nat.max_eq_left hpos, hrate]
  rfl

namespace Player

open Recording Limiter

variable {σ : Type} [Sink σ]

/-- However a player is driven whose interval comes from a valid configuration: in every part of the
run it tells the times that a limiter lets through, of the log times of the messages. In a second of
log time these are at most as many as intervals begin in it, which is the configured rate if the rate
divides a second; and for every other rate there are log times of which more are let through. -/
theorem ticks_per_second {c : Config} (hc : c.validate = .ok ()) {d : Disk} {path : String}
    {v : Binary64} {p : Player} (ho : openFile d path ⟨v, c.playback.notifyInterval⟩ = .ok p)
    (k : σ) (os : List (World × Operation)) :
    let rate := c.playback.notifyHertz.toNat
    let limiter := Limiter.start c.playback.notifyInterval
    (∀ part ∈ ((Session.start p k).run os).parts,
      part.ticks = limiter.through part.logTimes ∧
      ∀ a, (rate ≤ 1000000000 →
          (part.ticks.filter (inSecond a)).length ≤ perSecond (1000000000 / rate)) ∧
        (rate ∣ 1000000000 → (part.ticks.filter (inSecond a)).length ≤ rate)) ∧
    ((∀ ts a, ((limiter.through ts).filter (inSecond a)).length ≤ rate) ↔ rate ∣ 1000000000) := by
  intro rate limiter
  have hrate : c.playback.notifyHertz ≠ 0 := ((Config.validate_eq_ok_iff c).mp hc).notifyRate
  have hinterval : limiter.interval.toNat = 1000000000 / rate :=
    Config.Playback.toNat_notifyInterval hrate
  have hiff : (∀ ts a, ((limiter.through ts).filter (inSecond a)).length ≤ rate) ↔
      rate ∣ 1000000000 := length_through_le_iff hinterval
  refine ⟨?_, hiff⟩
  intro part hpart
  have hticks : part.ticks = limiter.through part.logTimes :=
    ((Ticking.start ho k).run os).ticks part hpart
  rw [hticks]
  refine ⟨rfl, fun a => ⟨?_, fun hdvd => hiff.mpr hdvd _ a⟩⟩
  intro hle
  have hpos : 0 < limiter.interval.toNat := by
    rw [hinterval]
    exact Nat.div_pos hle (Nat.pos_of_ne_zero fun hzero => hrate (UInt32.toNat.inj hzero))
  exact hinterval ▸ length_through_le hpos part.logTimes a

/-- Four messages, each a third of a second behind the one before it, without the fraction. -/
def thirds : Bytes :=
  writtenFile "/a" [[⟨1, 333333333, []⟩, ⟨1, 666666666, []⟩, ⟨1, 999999999, []⟩,
    ⟨1, 1333333332, []⟩]]

def thirdsDisk : Disk := Disk.empty.write "a" thirds

/-- At most three times are to be told in a second. -/
def threePerSecond : Config :=
  { Config.default with playback := { Config.Playback.default with notifyHertz := 3 } }

def thirdsPlayer : Player :=
  { samplePlayer with
    interval := 333333333
    summary := {
      statistics := some ⟨4, 333333333, 1333333332⟩
      schemas := []
      channels := sampleSummary.channels
      chunks := [⟨1333333332, 8, "", 124, 124⟩] }
    range := ⟨333333333, 1333333332⟩
    cursor := ⟨333333333, [], [⟨1333333332, 8, "", 124, 124⟩]⟩
    currentTime := 333333333 }

/-- All four messages, the last three of them when they are due. -/
def thirdsRun : List (World × Operation) :=
  [(⟨0, thirdsDisk⟩, .play), (⟨0, thirdsDisk⟩, .next), (⟨1000000000, thirdsDisk⟩, .next),
    (⟨1000000000, thirdsDisk⟩, .next), (⟨1000000000, thirdsDisk⟩, .next)]

theorem threePerSecond_valid : threePerSecond.validate = .ok () :=
  eq_ok_of_toOption (by decide +kernel)

theorem thirds_opens :
    openFile thirdsDisk "a" ⟨Binary64.ofNat 1, threePerSecond.playback.notifyInterval⟩ =
      .ok thirdsPlayer :=
  eq_ok_of_toOption (by decide +kernel)

/-- With a rate of three the interval lets four times through. -/
theorem thirds_per_second :
    threePerSecond.validate = .ok () ∧
    openFile thirdsDisk "a" ⟨Binary64.ofNat 1, threePerSecond.playback.notifyInterval⟩ =
      .ok thirdsPlayer ∧
    ∀ part ∈ ((Session.start thirdsPlayer Recorder.empty).run thirdsRun).parts,
      part.ticks = (Limiter.start 333333333).through part.logTimes ∧
      (part.ticks.filter (inSecond 333333333)).length ≤ perSecond 333333333 := by
  refine ⟨threePerSecond_valid, thirds_opens, ?_⟩
  intro part hpart
  obtain ⟨hticks, hsecond⟩ :=
    (ticks_per_second threePerSecond_valid thirds_opens Recorder.empty thirdsRun).1 part hpart
  exact ⟨hticks, (hsecond 333333333).1 (by decide)⟩

/-- A valid rate can be exceeded: of three times per second, four are told in one. -/
theorem ticks_exceed_rate :
    threePerSecond.validate = .ok () ∧ threePerSecond.playback.notifyHertz = 3 ∧
    openFile thirdsDisk "a" ⟨Binary64.ofNat 1, threePerSecond.playback.notifyInterval⟩ =
      .ok thirdsPlayer ∧
    ∃ part ∈ ((Session.start thirdsPlayer Recorder.empty).run thirdsRun).parts,
      part.ticks = [333333333, 666666666, 999999999, 1333333332] ∧
      3 < (part.ticks.filter (inSecond 333333333)).length := by
  exact ⟨threePerSecond_valid, rfl, thirds_opens, by decide +kernel⟩

end Player

end Replay
