import Replay.Proofs.Pacing.Sections
import Replay.Proofs.Pacing.Turns

/-!
The loop under virtual time goes through sections: each of its turns is a look, a read if the look has
found the playback playing, and the requests that come while it sleeps. What is said of all runs of
sections is so said of its runs. Main statement: `run_in_sections`.
-/

namespace Replay

/-- `f` takes one sink to another, whatever is given to them. -/
structure Sink.Carries {σ τ : Type} [Sink σ] [Sink τ] (f : σ → τ) : Prop where
  time : ∀ t s, f (Sink.time t s) = Sink.time t (f s)
  state : ∀ x s, f (Sink.state x s) = Sink.state x (f s)
  addChannel : ∀ c s,
    Sink.addChannel c (f s) = ((Sink.addChannel c s).1, f (Sink.addChannel c s).2)
  log : ∀ id payload t s, f (Sink.log id payload t s) = Sink.log id payload t (f s)

/-- A recorder of the calls that are traced, under the ids that the traced recorder gives. -/
def Traced.recorder (s : Traced Recorder) : Recorder := ⟨s.events, s.sink.topics⟩

theorem Traced.recorder_carries : Sink.Carries Traced.recorder :=
  ⟨fun _ _ => rfl, fun _ _ => rfl, fun _ _ => rfl, fun _ _ _ _ => rfl⟩

/-- What takes one sink to another takes them with their traces. -/
theorem Traced.map_carries {σ τ : Type} [Sink σ] [Sink τ] {f : σ → τ} (hf : Sink.Carries f) :
    Sink.Carries fun s : Traced σ => (⟨f s.sink, s.events⟩ : Traced τ) where
  time t s := congrArg (fun k => (⟨k, s.events ++ [.time t]⟩ : Traced τ)) (hf.time t s.sink)
  state x s := congrArg (fun k => (⟨k, s.events ++ [.state x]⟩ : Traced τ)) (hf.state x s.sink)
  addChannel c s := by simp [Sink.addChannel, hf.addChannel]
  log id payload t s :=
    congrArg (fun k => (⟨k, s.events ++ [.message id payload t]⟩ : Traced τ))
      (hf.log id payload t s.sink)

section Carries

variable {σ τ : Type} [Sink σ] [Sink τ] {f : σ → τ} (hf : Sink.Carries f)
include hf

theorem Player.channelFor_carried (c : Channel) (p : Player) (s : σ) :
    p.channelFor c (f s) =
      ((p.channelFor c s).1, (p.channelFor c s).2.1, f (p.channelFor c s).2.2) := by
  cases hfound : p.channels.find? (·.1 == c.topic) <;>
    simp [channelFor, hfound, hf.addChannel]

theorem Player.emit_carried (e : Recording.Entry) (tick : Bool) (p : Player) (s : σ) :
    p.emit e tick (f s) = ((p.emit e tick s).1, f (p.emit e tick s).2) := by
  have htime : (if tick then Sink.time e.logTime (f s) else f s) =
      f (if tick then Sink.time e.logTime s else s) := by
    cases tick with
    | false => rfl
    | true => exact (hf.time _ _).symm
  simp only [emit, htime, channelFor_carried hf, hf.log]

theorem Player.logNext_carried (w : World) (p : Player) (s : σ) :
    p.logNext w (f s) = ((p.logNext w s).1, (p.logNext w s).2.1, f (p.logNext w s).2.2) := by
  unfold logNext
  split <;> simp only [emit_carried hf]

theorem Pacing.look_carried {π : Type} [Source π] (wasEnded : Bool) (p : π) (s : σ) :
    look wasEnded p (f s) =
      ((look wasEnded p s).1, (look wasEnded p s).2.1, f (look wasEnded p s).2.2) := by
  unfold look
  simp only [← hf.state, apply_ite f]

end Carries

namespace Pacing

open Virtual

/-- What can be seen of a deed under virtual time. -/
def Deed.happenings {π : Type} : Deed π → List Happening
  | .looked _ calls => calls.map .event
  | .read _ _ result calls => calls.map .event ++ [.read result]
  | .answered _ _ _ answer => [.control answer]
  | .nothing => []

namespace Playback

variable {π σ : Type} [Source π] [Sink σ]

/-- What can be seen of a run, each with the world in which it happens. -/
def seen (b : Playback π σ) (es : List Section) : List (World × Happening) :=
  ((es.map Section.world).zip (b.deeds es)).flatMap fun x => x.2.happenings.map fun h => (x.1, h)

theorem seen_cons (b : Playback π σ) (e : Section) (es : List Section) :
    b.seen (e :: es) =
      ((b.act e).1.happenings.map fun h => (e.world, h)) ++ (b.step e).seen es := rfl

theorem seen_append (b : Playback π σ) (es es' : List Section) :
    b.seen (es ++ es') = b.seen es ++ (b.run es).seen es' := by
  induction es generalizing b with
  | nil => rfl
  | cons e es ih =>
    rw [List.cons_append, seen_cons, seen_cons, ih (b.step e), List.append_assoc]
    rfl

end Playback

namespace Virtual

def Setting.inWorld (g : Setting) (x : Nat × Happening) : World × Happening := (g.world x.1, x.2)

/-- The playback before the turn. -/
structure Turn.Of (x : Turn Player) (b : Playback Player Recorder) : Prop where
  player : b.source = x.player
  topics : b.sink.topics = x.topics
  wasEnded : b.wasEnded = x.wasEnded
  stage : b.stage = .look

/-- The requests that come before a time are sections. -/
theorem controls_in_sections {π σ : Type} [Source π] [Sink σ] (g : Setting) (t : Nat)
    (cs : List Control) (b : Playback π σ) :
    ∃ es, b.seen es = (controlsBefore g t cs b.source).1.map g.inWorld ∧
      b.run es = { b with source := (controlsBefore g t cs b.source).2.2 } := by
  induction cs generalizing b with
  | nil => exact ⟨[], rfl, rfl⟩
  | cons c cs ih =>
    unfold controlsBefore
    split
    · let e : Section := .request (g.world c.time) c.request
      obtain ⟨es, hseen, hrun⟩ := ih (b.step e)
      refine ⟨e :: es, ?_, hrun⟩
      rw [b.seen_cons, hseen]
      rfl
    · exact ⟨[], rfl, rfl⟩

/-- A playback is where a turn has led: before the next one, or at the end of the run. -/
def Turn.Reached (b : Playback Player Recorder) : Turn Player ⊕ Report → Prop
  | .inl y => y.Of b
  | .inr r => r.happenings = [] ∧ ∀ e, r.outcome = .failed e → b.stage = .failed e

theorem sleep_in_sections (g : Setting) (x : Turn Player) {b : Playback Player Recorder}
    (span : Nat) (h : b.stage = .look) :
    ∃ es, b.seen es = (x.sleep g span b.wasEnded b.source b.sink.topics).1.map g.inWorld ∧
      Turn.Reached (b.run es) (x.sleep g span b.wasEnded b.source b.sink.topics).2 := by
  obtain ⟨es, hseen, hrun⟩ := controls_in_sections g (min (wake x.time span) g.stop) x.controls b
  refine ⟨es, hseen, ?_⟩
  rw [hrun]
  by_cases hstop : g.stop ≤ wake x.time span
  · simp only [Turn.sleep, hstop, if_true]
    refine ⟨rfl, ?_⟩
    intro e he
    cases he
  · simp only [Turn.sleep, hstop, if_false]
    exact ⟨rfl, rfl, rfl, h⟩

section Turns

variable {g : Setting} {x : Turn Player} {b : Playback Player Recorder}

/-- A look alone, and the requests that come while the loop sleeps. -/
theorem idle_in_sections (h : x.Of b) (hp : x.player.status ≠ .playing) :
    ∃ es, b.seen es = (x.next g).1.map g.inWorld ∧ Turn.Reached (b.run es) (x.next g).2 := by
  obtain ⟨source, sink, wasEnded, stage⟩ := b
  obtain ⟨rfl, htopics, rfl, rfl⟩ := h
  let b : Playback Player Recorder := ⟨x.player, sink, x.wasEnded, .look⟩
  let e : Section := .loop (g.world x.time)
  let s : Traced Recorder := (look x.wasEnded x.player ⟨sink, []⟩).2.2
  let b' : Playback Player Recorder :=
    ⟨x.player, s.sink, decide (x.player.status = .ended), .look⟩
  have hlook : (look x.wasEnded x.player (⟨[], x.topics⟩ : Recorder)).2.2 = s.recorder := by
    rw [← htopics]
    exact congrArg (·.2.2) (look_carried Traced.recorder_carries x.wasEnded x.player ⟨sink, []⟩)
  have hact : b.act e = (.looked x.player s.events, b') := by
    simp [Playback.act, b, b', e, s, look, Source.status, hp]
  obtain ⟨es, hseen, hreached⟩ := sleep_in_sections g x (b := b') g.settings.idle rfl
  rw [next_idle hp, hlook]
  refine ⟨e :: es, ?_, ?_⟩
  · rw [b.seen_cons, Playback.step, hact, hseen]
    simp [Turn.seen, Traced.recorder, Deed.happenings, Setting.inWorld, Section.world, e, b',
      Source.status]
  · change Turn.Reached ((b.act e).2.run es) _
    rw [hact]
    exact hreached

/-- A look at a playback that is playing, and the read that follows it. -/
theorem read_in_sections (g : Setting) (h : x.Of b) (hp : x.player.status = .playing) :
    ∃ (r : Except Recording.Error (Option Nanos)) (q : Player) (s : Traced Recorder),
      x.player.logNext (g.world x.time) (⟨[], x.topics⟩ : Recorder) = (r, q, s.recorder) ∧
      ∀ es, ∃ es', b.run es' = (⟨q, s.sink, false, .after r⟩ : Playback Player Recorder).run es ∧
        b.seen es' = (x.seen s.recorder.events ++ [(x.time, Happening.read r)]).map g.inWorld ++
          (⟨q, s.sink, false, .after r⟩ : Playback Player Recorder).seen es := by
  obtain ⟨source, sink, wasEnded, stage⟩ := b
  obtain ⟨rfl, htopics, rfl, rfl⟩ := h
  let b : Playback Player Recorder := ⟨x.player, sink, x.wasEnded, .look⟩
  let b' : Playback Player Recorder := ⟨x.player, sink, false, .read⟩
  let e : Section := .loop (g.world x.time)
  have hlook : b.act e = (.looked x.player [], b') := by
    simp [Playback.act, b, b', e, look, Source.status, hp]
  have hcarried :=
    Player.logNext_carried Traced.recorder_carries (g.world x.time) x.player ⟨sink, []⟩
  obtain ⟨r, q, s, hlog⟩ : ∃ r q s, x.player.logNext (g.world x.time)
    (⟨sink, []⟩ : Traced Recorder) = (r, q, s) := ⟨_, _, _, rfl⟩
  have hread : b'.act e = (.read x.player q r s.events, ⟨q, s.sink, false, .after r⟩) := by
    simp only [Playback.act, b', e, Source.logNext, hlog]
  refine ⟨r, q, s, ?_, fun es => ⟨e :: e :: es, ?_, ?_⟩⟩
  · rw [hlog] at hcarried
    rw [← htopics]
    exact hcarried
  · change ((b.act e).2.act e).2.run es = _
    rw [hlook, hread]
  · rw [b.seen_cons, Playback.step, hlook, b'.seen_cons, Playback.step, hread]
    simp [Turn.seen, Traced.recorder, Deed.happenings, Setting.inWorld, Section.world, e]

/-- A look and a read, and if a message is kept the requests that come while the loop sleeps. -/
theorem playing_in_sections (h : x.Of b) (hp : x.player.status = .playing) :
    ∃ es, b.seen es = (x.next g).1.map g.inWorld ∧ Turn.Reached (b.run es) (x.next g).2 := by
  obtain ⟨r, q, s, hlog, hsections⟩ := read_in_sections g h hp
  cases r with
  | error cause =>
    have hnext : x.next g = (x.seen s.recorder.events ++ [(x.time, .read (.error cause))],
        .inr ⟨[], .failed cause, x.time⟩) := by
      simp [Turn.next, look, Source.status, hp, Source.logNext, hlog, Turn.seen]
    obtain ⟨es, hrun, hseen⟩ := hsections []
    rw [hnext]
    refine ⟨es, hseen.trans (List.append_nil _), ?_⟩
    rw [hrun]
    refine ⟨rfl, ?_⟩
    rintro _ ⟨rfl⟩
    rfl
  | ok read =>
    cases read with
    | none =>
      obtain ⟨es, hrun, hseen⟩ := hsections []
      rw [next_yield hp hlog]
      refine ⟨es, hseen.trans (List.append_nil _), ?_⟩
      rw [hrun]
      exact ⟨rfl, rfl, rfl, rfl⟩
    | some span =>
      obtain ⟨slept, hslept, hreached⟩ := sleep_in_sections g x (b := ⟨q, s.sink, false, .look⟩)
        (min span.toNat g.settings.maxSleep) rfl
      obtain ⟨es, hrun, hseen⟩ := hsections slept
      rw [next_sleep hp hlog]
      refine ⟨es, ?_, ?_⟩
      · refine hseen.trans (Eq.trans ?_ List.map_append.symm)
        exact congrArg (_ ++ ·) hslept
      · rw [hrun]
        exact hreached

end Turns

theorem next_in_sections (g : Setting) {x : Turn Player} {b : Playback Player Recorder}
    (h : x.Of b) :
    ∃ es, b.seen es = (x.next g).1.map g.inWorld ∧ Turn.Reached (b.run es) (x.next g).2 := by
  by_cases hp : x.player.status = .playing
  · exact playing_in_sections h hp
  · exact idle_in_sections h hp

/-- A run of the loop under virtual time is a run of sections, each at its time, and the loop has
failed in the one if it has in the other. -/
theorem run_in_sections (g : Setting) (turns : Nat) {x : Turn Player}
    {b : Playback Player Recorder} (h : x.Of b) :
    ∃ es, b.seen es = (x.run g turns).happenings.map g.inWorld ∧
      ∀ e, (x.run g turns).outcome = .failed e → (b.run es).stage = .failed e := by
  induction turns generalizing x b with
  | zero => exact ⟨[], rfl, nofun⟩
  | succ turns ih =>
    obtain ⟨es, hseen, hreached⟩ := next_in_sections g h
    rw [run_succ]
    generalize x.next g = happened at hseen hreached
    obtain ⟨seen, y | r⟩ := happened
    · obtain ⟨es', hseen', hfailed⟩ := ih hreached
      refine ⟨es ++ es', ?_, ?_⟩
      · rw [b.seen_append, hseen, hseen']
        exact List.map_append.symm
      · rw [b.run_append]
        exact hfailed
    · obtain ⟨hnone, hfailed⟩ := hreached
      refine ⟨es, ?_, hfailed⟩
      rw [hseen, Report.happenings_after, hnone, List.append_nil]

end Virtual

end Pacing

end Replay
