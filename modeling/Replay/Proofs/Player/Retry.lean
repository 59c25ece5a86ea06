import Replay.Proofs.Player.Session
import Replay.Proofs.Timeline.LogTime

/-!
A request that comes again at once. The speed is set anew each time and a move is made anew, but
nothing has passed that could be folded in and the cursor is put where it was put before, so that
the player stays as it is and the answer is the same. Main statement: `retry_changes_nothing`.
-/

namespace Replay

namespace Timeline

variable (t : Timeline) (now : Nanos)

/-- Of two changes of speed at one moment the second counts. -/
@[simp] theorem setSpeed_setSpeed (v v' : Speed) :
    (t.setSpeed now v).setSpeed now v' = t.setSpeed now v' := by
  cases h : t.paused <;> simp [setSpeed, passed, h]

@[simp] theorem resume_resume : (t.resume now).resume now = t.resume now := by
  simp [resume.eq_1 (t.resume now)]

@[simp] theorem pause_pause : (t.pause now).pause now = t.pause now := by
  simp [pause.eq_1 (t.pause now)]

/-- At one moment the speed may as well be set after a resumption. -/
theorem setSpeed_resume (v : Speed) :
    (t.resume now).setSpeed now v = (t.setSpeed now v).resume now := by
  cases h : t.paused <;> simp [setSpeed, resume, passed, h]

/-- While a timeline is paused, to set the speed that it has changes nothing. -/
theorem setSpeed_pause : (t.pause now).setSpeed now t.speed = t.pause now := by
  calc (t.pause now).setSpeed now t.speed
      = (t.pause now).setSpeed now (t.pause now).speed := by rw [speed_pause]
    _ = t.pause now := by rw [setSpeed, if_pos (t.paused_pause now)]

/-- What a request does to log time: the speed is set, and then the command is carried out. -/
def obey (c : Option Command) (v : Speed) : Timeline :=
  match c with
  | some .play => (t.setSpeed now v).resume now
  | some .pause => (t.setSpeed now v).pause now
  | none => t.setSpeed now v

@[simp] theorem obey_obey (c : Option Command) (v : Speed) :
    (t.obey now c v).obey now c v = t.obey now c v := by
  cases c with
  | none => simp [obey]
  | some c =>
    cases c with
    | play => simp [obey, setSpeed_resume]
    | pause =>
      have hkeep := (t.setSpeed now v).setSpeed_pause now
      rw [speed_setSpeed] at hkeep
      simp [obey, hkeep]

end Timeline

/-- The status that a command leads to. A player that has come to the end stays there. -/
def Status.obey (c : Option Command) : Status → Status
  | .ended => .ended
  | s =>
    match c with
    | some .play => .playing
    | some .pause => .paused
    | none => s

@[simp] theorem Status.obey_obey (c : Option Command) (s : Status) :
    (s.obey c).obey c = s.obey c := by
  cases s <;> rcases c with _ | _ | _ <;> rfl

theorem Status.obey_eq_ended_iff {c : Option Command} {s : Status} :
    s.obey c = .ended ↔ s = .ended := by
  cases s <;> rcases c with _ | _ | _ <;> simp [obey]

theorem Status.obey_of_ne_ended {c : Option Command} {s : Status} (h : s ≠ .ended) :
    s.obey c =
      match c with
      | some .play => .playing
      | some .pause => .paused
      | none => s := by
  cases s with
  | ended => exact absurd rfl h
  | paused => rfl
  | playing => rfl

namespace Player

open Recording

/-- What a request does after its move: the command counts for nothing once the end is reached. -/
def obey (now : Nanos) (r : Request) (p : Player) : Player :=
  { p with
    pace := p.pace.map fun x => { x with
      timeline := x.timeline.obey now (if p.status = .ended then none else r.command)
        (Speed.clamp r.speed) }
    status := p.status.obey r.command
    speed := Speed.clamp r.speed }

theorem command_setSpeed (w : World) (r : Request) (p : Player) :
    Source.command w r.command (Source.setSpeed w r.speed p) = p.obey w.now r := by
  have hspeed : Source.setSpeed w r.speed p = p.setSpeed w.now r.speed := rfl
  rw [hspeed]
  rcases hc : r.command with _ | _ | _ <;> cases hs : p.status <;> cases hp : p.pace <;>
    simp [Source.command, Source.play, Source.pause, Player.play, Player.pause, Player.setSpeed, obey,
      Timeline.obey, Status.obey, hc, hs, hp]

@[simp] theorem obey_obey (now : Nanos) (r : Request) (p : Player) :
    (p.obey now r).obey now r = p.obey now r := by
  cases hp : p.pace <;> simp [obey, Status.obey_eq_ended_iff, hp]

theorem openCursor_congr {d d' : Disk} {path : String} (h : d'.open? path = d.open? path)
    (s : Summary) (start : Nanos) : openCursor d' path s start = openCursor d path s start := by
  simp only [openCursor, h]

/-- A move that succeeded leads to the same place again, and one that failed fails again. -/
theorem seek_obey {d d' : Disk} {p : Player} (h : d'.open? p.path = d.open? p.path) (now : Nanos)
    (r : Request) (t : Nanos) :
    (p.obey now r).seek d' t =
      (p.seek d t).map fun q => { q with
        status := if p.status = .ended then .paused else p.status.obey r.command
        speed := Speed.clamp r.speed } := by
  have hcursor := openCursor_congr h p.summary (p.range.clamp t)
  simp only [seek, obey, hcursor, Status.obey_eq_ended_iff]
  cases openCursor d p.path p.summary (p.range.clamp t) <;> rfl

/-- What a request leads to: a move that succeeds puts the player elsewhere first. -/
theorem apply_eq (w : World) (r : Request) (p : Player) :
    (∃ t q, r.seek = some t ∧ p.seek w.disk t = .ok q ∧
      Source.apply w r p = (Source.snapshot true r.requestId (q.obey w.now r), q.obey w.now r)) ∨
    ((∀ t q, r.seek = some t → p.seek w.disk t ≠ .ok q) ∧
      Source.apply w r p = (Source.snapshot false r.requestId (p.obey w.now r), p.obey w.now r)) := by
  cases hr : r.seek with
  | none => exact Or.inr ⟨nofun, by simp [Source.apply, Source.move, hr, command_setSpeed]⟩
  | some t =>
    cases hq : p.seek w.disk t with
    | error e =>
      refine Or.inr ⟨?_, by simp [Source.apply, Source.move, Source.seek, hr, hq, command_setSpeed]⟩
      intro t' q ht
      simp [← Option.some.inj ht, hq]
    | ok q =>
      refine Or.inl ⟨t, q, rfl, hq, ?_⟩
      simp [Source.apply, Source.move, Source.seek, hr, hq, command_setSpeed]

/-- A move that succeeds puts the position into the range, stops log time and leaves the end. -/
theorem seek_state {d : Disk} {t : Nanos} {p q : Player} (h : p.seek d t = .ok q) :
    q.path = p.path ∧ q.pace = none ∧ q.currentTime = p.range.clamp t ∧
      q.status = if p.status = .ended then .paused else p.status := by
  obtain ⟨_, _, _, rfl⟩ := seek_ok h
  exact ⟨rfl, rfl, rfl, rfl⟩

theorem seek_not_ended {d : Disk} {t : Nanos} {p q : Player} (h : p.seek d t = .ok q) :
    q.status ≠ .ended := by
  obtain ⟨-, -, -, hstatus⟩ := seek_state h
  rw [hstatus]
  split <;> simp [*]

/-- A move from where it leads to leads there. -/
theorem seek_of_seek {d : Disk} {t : Nanos} {p q : Player} (h : p.seek d t = .ok q) :
    q.seek d t = .ok q := by
  obtain ⟨file, cursor, hcursor, rfl⟩ := seek_ok h
  cases hs : p.status <;> simp [seek, hcursor, Except.map]

theorem seek_again {d d' : Disk} {t : Nanos} {p q : Player} (h : p.seek d t = .ok q)
    (hfile : d'.open? p.path = d.open? p.path) (now : Nanos) (r : Request) :
    (q.obey now r).seek d' t = .ok (q.obey now r) := by
  obtain ⟨hpath, hpace, -, -⟩ := seek_state h
  rw [seek_obey (hpath ▸ hfile), seek_of_seek h]
  simp [Except.map, obey, hpace, seek_not_ended h]

/-- The second of two equal requests finds its move made or failing as before. -/
theorem apply_apply (p : Player) (r : Request) {w w' : World} (hnow : w'.now = w.now)
    (hfile : w'.disk.open? p.path = w.disk.open? p.path) :
    Source.apply w' r (Source.apply w r p).2 = Source.apply w r p := by
  rcases apply_eq w r p with ⟨t, q, ht, hq, happly⟩ | ⟨hstays, happly⟩
  · have hagain := seek_again hq hfile w.now r
    rw [happly]
    rcases apply_eq w' r (q.obey w.now r) with ⟨t', q', ht', hq', happly'⟩ | ⟨hno, -⟩
    · obtain rfl : t = t' := Option.some.inj (ht.symm.trans ht')
      obtain rfl : q.obey w.now r = q' := Except.ok.inj (hagain.symm.trans hq')
      rw [happly', hnow, obey_obey]
    · exact absurd hagain (hno t _ ht)
  · rw [happly]
    rcases apply_eq w' r (p.obey w.now r) with ⟨t, q, ht, hq, -⟩ | ⟨-, happly'⟩
    · rw [seek_obey hfile] at hq
      cases hfirst : p.seek w.disk t with
      | error e => simp [hfirst, Except.map] at hq
      | ok moved => exact absurd hfirst (hstays t moved ht)
    · rw [happly', hnow, obey_obey]

/-- However a player stands and whatever the clock reads, also a time before the last change of
speed: a request that comes again while the clock and the file of the recording are the same leaves
the player as it is, and is answered as it was before. The answer is the state of the player after
the request. The player is at the end if it was and has not been moved, and else plays or stands as
it is told to, or as before; its speed is the admissible one for the speed asked for; and its
position is where a move has put it, which is in the range of the recording, or as before. -/
theorem retry_changes_nothing (p : Player) (r : Request) {w w' : World} (hnow : w'.now = w.now)
    (hfile : w'.disk.open? p.path = w.disk.open? p.path) :
    let answer := (Source.apply w r p).1
    let q := (Source.apply w r p).2
    Source.apply w' r q = (answer, q) ∧
    answer = ⟨q.currentTime, q.speed.value, q.status, answer.didSeek, r.requestId⟩ ∧
    (answer.didSeek = true ↔ ∃ t moved, r.seek = some t ∧ p.seek w.disk t = .ok moved) ∧
    (q.status = .ended ↔ p.status = .ended ∧ answer.didSeek = false) ∧
    (q.status ≠ .ended → q.status =
      match r.command with
      | some .play => .playing
      | some .pause => .paused
      | none => if p.status = .ended then .paused else p.status) ∧
    q.speed = Speed.clamp r.speed ∧
    (answer.didSeek = false → q.currentTime = p.currentTime) ∧
    (∀ t, answer.didSeek = true → r.seek = some t → q.currentTime = p.range.clamp t) := by
  refine ⟨apply_apply p r hnow hfile, ?_⟩
  rcases apply_eq w r p with ⟨t, moved, ht, hmoved, happly⟩ | ⟨hstays, happly⟩ <;> rw [happly]
  · obtain ⟨-, -, htime, hstatus⟩ := seek_state hmoved
    have hended := seek_not_ended hmoved
    refine ⟨rfl, by simp [Source.snapshot, ht, hmoved], ?_, ?_, rfl, nofun, ?_⟩
    · simp [obey, Source.snapshot, Status.obey_eq_ended_iff, hended]
    · intro _
      exact (Status.obey_of_ne_ended hended).trans (by rw [hstatus])
    · intro t' _ ht'
      obtain rfl : t = t' := Option.some.inj (ht.symm.trans ht')
      exact htime
  · refine ⟨rfl, ?_, ?_, ?_, rfl, fun _ => rfl, nofun⟩
    · constructor
      · nofun
      · rintro ⟨t, moved, ht, hmoved⟩
        exact absurd hmoved (hstays t moved ht)
    · simp [obey, Source.snapshot, Status.obey_eq_ended_iff]
    · intro hne
      have hbefore : p.status ≠ .ended := fun h => hne (Status.obey_eq_ended_iff.mpr h)
      rw [if_neg hbefore]
      exact Status.obey_of_ne_ended hbefore

/-- While a message waits: a move beyond the end of the range, and the same with the file gone. -/
theorem sample_retried :
    let r : Request := ⟨some .pause, .nan, some 20, some "a"⟩
    let w : World := ⟨7, sampleDisk⟩
    let w' : World := ⟨7, { sampleDisk with names := ("b", 4) :: sampleDisk.names }⟩
    let gone : World := ⟨7, sampleDisk.remove "a"⟩
    let moved := Source.apply w r sampleWaiting
    let stayed := Source.apply gone r sampleWaiting
    w'.now = w.now ∧ w'.disk.open? sampleWaiting.path = w.disk.open? sampleWaiting.path ∧
    Source.apply w' r moved.2 = moved ∧
    moved.1 = ⟨9, (Speed.clamp .nan).value, .paused, true, some "a"⟩ ∧
    Source.apply gone r stayed.2 = stayed ∧
    stayed.1 = ⟨3, (Speed.clamp .nan).value, .paused, false, some "a"⟩ := by
  intro r w w' gone moved stayed
  have hnow : w'.now = w.now := rfl
  have hfile : w'.disk.open? sampleWaiting.path = w.disk.open? sampleWaiting.path := rfl
  have hstill : gone.now = gone.now := rfl
  obtain ⟨hmoved, -⟩ := retry_changes_nothing sampleWaiting r hnow hfile
  obtain ⟨hstayed, -⟩ := retry_changes_nothing sampleWaiting r hstill rfl
  exact ⟨hnow, hfile, hmoved, by decide +kernel, hstayed, by decide +kernel⟩

end Player

end Replay
