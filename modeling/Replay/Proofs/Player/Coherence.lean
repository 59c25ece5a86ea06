import Replay.Proofs.Player.Session

/-!
What the fields of a player say of each other. The speed stands in the player and in its timeline,
and the status says what the timeline, the kept message and the position have to be; every operation
leaves them in agreement, also one that fails.
-/

namespace Replay.Player

open Recording

/-- Speed, status, pace, kept message and position agree. -/
structure Coherent (p : Player) : Prop where
  speed_eq : ∀ x, p.pace = some x → x.timeline.speed = p.speed
  runs : p.status = .playing → ∀ x, p.pace = some x → x.timeline.paused = false
  rests : p.status = .paused → ∀ x, p.pace = some x → x.timeline.paused = true
  kept : p.pending.isSome → p.pace.isSome ∧ p.status ≠ .ended
  ended : p.status = .ended → p.pending = none ∧ p.currentTime = p.range.stop

/-- The speed asked for last. -/
def askedSpeed (x : Binary64) (os : List (World × Operation)) : Binary64 :=
  os.foldl (fun x o => match o.2 with | .setSpeed y => y | _ => x) x

variable {p : Player}

theorem coherent_of_openFile {d : Disk} {path : String} {o : Options}
    (h : openFile d path o = .ok p) : p.Coherent := by
  obtain ⟨_, _, hpending, hpace, _, hstatus, _⟩ := openFile_ok h
  exact ⟨by simp [hpace], by simp [hpace], by simp [hpace], by simp [hpending], by simp [hstatus]⟩

namespace Coherent

theorem play (h : p.Coherent) (now : Nanos) : (p.play now).Coherent := by
  unfold Player.play
  split
  · exact h
  · refine ⟨?_, ?_, nofun, ?_, nofun⟩
    · intro x hx
      obtain ⟨y, hy, rfl⟩ := Option.map_eq_some_iff.mp hx
      exact (y.timeline.speed_resume now).trans (h.speed_eq y hy)
    · intro _ x hx
      obtain ⟨y, _, rfl⟩ := Option.map_eq_some_iff.mp hx
      exact y.timeline.paused_resume now
    · intro hk
      exact ⟨by simpa using (h.kept hk).1, nofun⟩

theorem pause (h : p.Coherent) (now : Nanos) : (p.pause now).Coherent := by
  unfold Player.pause
  split
  · exact h
  · refine ⟨?_, nofun, ?_, ?_, nofun⟩
    · intro x hx
      obtain ⟨y, hy, rfl⟩ := Option.map_eq_some_iff.mp hx
      exact (y.timeline.speed_pause now).trans (h.speed_eq y hy)
    · intro _ x hx
      obtain ⟨y, _, rfl⟩ := Option.map_eq_some_iff.mp hx
      exact y.timeline.paused_pause now
    · intro hk
      exact ⟨by simpa using (h.kept hk).1, nofun⟩

theorem setSpeed (h : p.Coherent) (now : Nanos) (v : Binary64) : (p.setSpeed now v).Coherent := by
  refine ⟨?_, ?_, ?_, ?_, h.ended⟩
  · intro x hx
    obtain ⟨y, _, rfl⟩ := Option.map_eq_some_iff.mp hx
    exact y.timeline.speed_setSpeed now _
  · intro hs x hx
    obtain ⟨y, hy, rfl⟩ := Option.map_eq_some_iff.mp hx
    exact (y.timeline.paused_setSpeed now _).trans (h.runs hs y hy)
  · intro hs x hx
    obtain ⟨y, hy, rfl⟩ := Option.map_eq_some_iff.mp hx
    exact (y.timeline.paused_setSpeed now _).trans (h.rests hs y hy)
  · intro hk
    exact ⟨by simpa [Player.setSpeed] using (h.kept hk).1, (h.kept hk).2⟩

/-- A move leaves no pace and no kept message behind, and no end. -/
theorem seek {d : Disk} {t : Nanos} {q : Player} (hq : p.seek d t = .ok q) : q.Coherent := by
  obtain ⟨_, _, _, rfl⟩ := seek_ok hq
  refine ⟨nofun, fun _ => nofun, fun _ => nofun, nofun, ?_⟩
  intro hs
  dsimp only at hs
  split at hs
  · cases hs
  · rename_i hn
    exact absurd hs hn

/-- The pace for a message runs at the player's speed while it plays, also if it starts with it. -/
theorem paceFor (h : p.Coherent) (hp : p.status = .playing) (now : Nanos) (e : Entry) :
    (p.paceFor now e).timeline.speed = p.speed ∧
      (p.paceFor now e).timeline.paused = false := by
  unfold Player.paceFor
  cases hx : p.pace with
  | none => exact ⟨rfl, rfl⟩
  | some x => exact ⟨h.speed_eq x hx, h.runs hp x hx⟩

theorem logNext {σ : Type} [Sink σ] (h : p.Coherent) (w : World) (s : σ) :
    (p.logNext w s).2.1.Coherent := by
  rcases logNext_cases w p s with ⟨_, hlog⟩ | ⟨_, _, e, c, hlog⟩ | ⟨_, hnone, c, hlog⟩ |
    ⟨hp, e, c, span, _, hlog⟩ | ⟨hp, e, c, tick, hlog⟩ <;> rw [hlog]
  · exact h
  · exact ⟨h.speed_eq, h.runs, h.rests, h.kept, h.ended⟩
  · refine ⟨h.speed_eq, nofun, nofun, ?_, fun _ => ⟨hnone, rfl⟩⟩
    intro hk
    simp [hnone] at hk
  · obtain ⟨hspeed, hruns⟩ := h.paceFor hp w.now e
    have hplays : (keeping w.now e { p with cursor := c }).status = .playing := hp
    refine ⟨?_, ?_, ?_, fun _ => ⟨rfl, by simp [hplays]⟩, by simp [hplays]⟩
    · intro x hx
      obtain rfl := Option.some.inj hx
      exact hspeed
    · intro _ x hx
      obtain rfl := Option.some.inj hx
      exact hruns
    · simp [hplays]
  · obtain ⟨hspeed, hruns⟩ := h.paceFor hp w.now e
    obtain ⟨channels, hq⟩ := emit_player e tick (passing w.now e { p with cursor := c }) s
    simp only [hq]
    have hplays : (passing w.now e { p with cursor := c }).status = .playing := hp
    refine ⟨?_, ?_, ?_, nofun, ?_⟩
    · intro x hx
      obtain rfl := Option.some.inj hx
      exact hspeed
    · intro _ x hx
      obtain rfl := Option.some.inj hx
      exact hruns
    · intro hs
      simp [hplays] at hs
    · intro hs
      simp [hplays] at hs

end Coherent

variable {σ : Type} [Sink σ]

theorem logNext_range_speed (w : World) (p : Player) (s : σ) :
    (p.logNext w s).2.1.range = p.range ∧ (p.logNext w s).2.1.speed = p.speed := by
  rcases logNext_cases w p s with ⟨_, hlog⟩ | ⟨_, _, e, c, hlog⟩ | ⟨_, _, c, hlog⟩ |
    ⟨_, e, c, span, _, hlog⟩ | ⟨_, e, c, tick, hlog⟩ <;> rw [hlog]
  · exact ⟨rfl, rfl⟩
  · exact ⟨rfl, rfl⟩
  · exact ⟨rfl, rfl⟩
  · exact ⟨rfl, rfl⟩
  · obtain ⟨channels, hq⟩ := emit_player e tick (passing w.now e { p with cursor := c }) s
    simp only [hq]
    exact ⟨rfl, rfl⟩

/-- The range stays, and the speed is that which was asked for last. -/
theorem perform_range_speed (w : World) (p : Player) (s : σ) (o : Operation) {x : Binary64}
    (hx : p.speed = Speed.clamp x) :
    (p.perform w s o).2.1.range = p.range ∧
      (p.perform w s o).2.1.speed = Speed.clamp (askedSpeed x [(w, o)]) := by
  cases o with
  | play =>
    simp only [perform, play]
    split <;> exact ⟨rfl, hx⟩
  | pause =>
    simp only [perform, pause]
    split <;> exact ⟨rfl, hx⟩
  | setSpeed v => exact ⟨rfl, rfl⟩
  | seek t =>
    simp only [perform]
    split
    · rename_i q hq
      obtain ⟨_, _, _, rfl⟩ := seek_ok hq
      exact ⟨rfl, hx⟩
    · exact ⟨rfl, hx⟩
  | next =>
    obtain ⟨hrange, hspeed⟩ := logNext_range_speed w p s
    exact ⟨hrange, hspeed.trans hx⟩

theorem Coherent.perform (h : p.Coherent) (w : World) (s : σ) (o : Operation) :
    (p.perform w s o).2.1.Coherent := by
  cases o with
  | play => exact h.play w.now
  | pause => exact h.pause w.now
  | setSpeed v => exact h.setSpeed w.now v
  | seek t =>
    simp only [Player.perform]
    split
    · rename_i q hq
      exact Coherent.seek hq
    · exact h
  | next => exact h.logNext w s

theorem Session.player_step (x : Session σ) (w : World) (o : Operation) :
    (x.step w o).player = (x.player.perform w (⟨x.sink, []⟩ : Traced σ) o).2.1 := by
  unfold Session.step
  dsimp only
  split <;> rfl

theorem Coherent.run {x : Session σ} {v : Binary64} (h : x.player.Coherent)
    (hv : x.player.speed = Speed.clamp v) (os : List (World × Operation)) :
    (x.run os).player.Coherent ∧ (x.run os).player.range = x.player.range ∧
      (x.run os).player.speed = Speed.clamp (askedSpeed v os) := by
  induction os generalizing x v with
  | nil => exact ⟨h, rfl, hv⟩
  | cons o os ih =>
    have hstep := x.player_step o.1 o.2
    obtain ⟨hrange, hspeed⟩ := perform_range_speed o.1 x.player (⟨x.sink, []⟩ : Traced σ) o.2 hv
    obtain ⟨hall, hrange', hspeed'⟩ :=
      ih (hstep ▸ h.perform o.1 _ o.2) ((congrArg Player.speed hstep).trans hspeed)
    exact ⟨hall, hrange'.trans ((congrArg Player.range hstep).trans hrange), hspeed'⟩

/-- However an opened player is driven, with any clock and whether operations fail or not: its speed
is finite, not below the slowest one, and the one asked for last; its timeline has this speed, runs
while it plays and stands while it is paused; a message is kept only with a timeline and before the
end; at the end nothing is kept and the position is the end of the range; and the range is the one it
was opened with. -/
theorem coherent_after_any_run {d : Disk} {path : String} {o : Options}
    (hopen : openFile d path o = .ok p) (k : σ) (os : List (World × Operation)) :
    let q := ((Session.start p k).run os).player
    (∃ m, q.speed.value = .finite false m ∧ slowest ≤ m) ∧
    q.speed = Speed.clamp (askedSpeed o.initialSpeed os) ∧ q.Coherent ∧ q.range = p.range := by
  intro q
  have hspeed : p.speed = Speed.clamp o.initialSpeed := by
    obtain ⟨_, _, _, _, _, _, _, _, _, rfl⟩ := openFile_opened hopen
    rfl
  obtain ⟨hall, hrange, hasked⟩ := Coherent.run (x := Session.start p k)
    (coherent_of_openFile hopen) hspeed os
  exact ⟨⟨q.speed.magnitude, rfl, q.speed.slowest_le⟩, hasked, hall, hrange⟩

/-- A read that fails, two messages, one that is kept, a clock that goes back, a speed that is no
number, a pause and a move that fails. -/
def sampleDrive : List (World × Operation) :=
  [(⟨5, sampleDisk⟩, .play), (⟨5, sampleDisk.write "a" []⟩, .next), (⟨5, sampleDisk⟩, .next),
    (⟨5, sampleDisk⟩, .next), (⟨6, sampleDisk⟩, .next), (⟨2, sampleDisk⟩, .setSpeed .nan),
    (⟨8, sampleDisk⟩, .pause), (⟨8, sampleDisk.remove "a"⟩, .seek 4)]

theorem coherent_after_sampleDrive :
    openFile sampleDisk "a" .default = .ok samplePlayer ∧
    let q := ((Session.start samplePlayer Recorder.empty).run sampleDrive).player
    q.pending.isSome ∧ q.pace.isSome ∧ q.status = .paused ∧ q.currentTime = 3 ∧
    (∃ m, q.speed.value = .finite false m ∧ slowest ≤ m) ∧ q.speed = Speed.clamp .nan ∧
    q.Coherent ∧ q.range = ⟨3, 9⟩ := by
  refine ⟨sample_opens, by decide +kernel, by decide +kernel, by decide +kernel,
    by decide +kernel, ?_⟩
  exact coherent_after_any_run sample_opens Recorder.empty sampleDrive

end Replay.Player
