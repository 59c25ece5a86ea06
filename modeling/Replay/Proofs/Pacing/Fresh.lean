import Replay.Proofs.Pacing.Turns
import Replay.Proofs.Player.Reading
import Replay.Proofs.Timeline.Delay

/-!
Turns of a player, and the turns before its first message: until then log time does not run, nothing
is kept, and all messages from the place of the cursor on are still to come, whatever requests come
in between.
-/

namespace Replay

open Recording Player Pacing.Virtual

namespace Pacing.Virtual

/-- A message given to a recorder comes after its time and its channel, if these are told. -/
theorem emit_recorder (e : Entry) (tick : Bool) (p : Player) (topics : List String) :
    ∃ id channels before topics', p.emit e tick (⟨[], topics⟩ : Recorder) =
        ({ p with channels }, ⟨before ++ [.message id e.payload e.logTime], topics'⟩) ∧
      ∀ t, messagesIn (before.map fun x => (t, .event x)) = [] ∧
        statesIn (before.map fun x => (t, .event x)) = [] := by
  cases hfound : p.channels.find? (·.1 == e.channel.topic) with
  | some x =>
    refine ⟨x.2, p.channels, if tick then [.time e.logTime] else [], topics, ?_, ?_⟩
    · cases tick <;> simp [emit, channelFor, hfound, Sink.time, Sink.log]
    · cases tick <;> exact fun _ => ⟨rfl, rfl⟩
  | none =>
    let given := Recorder.idOf topics e.channel.topic
    refine ⟨given.1, p.channels ++ [(e.channel.topic, given.1)],
      (if tick then [.time e.logTime] else []) ++ [.channel given.1 e.channel], given.2, ?_, ?_⟩
    · cases tick <;> simp [emit, channelFor, hfound, Sink.time, Sink.log, Sink.addChannel, given]
    · cases tick <;> exact fun _ => ⟨rfl, rfl⟩

section Turns

variable {g : Setting} {x : Turn Player} {file : File}

theorem next_due (h : x.player.summary.Readable file)
    (hc : x.player.cursor.Sound x.player.summary) (hf : g.disk.recording x.player.file = file)
    (hp : x.player.status = .playing) {e : Entry} {es : List Entry}
    (hu : x.player.upcoming file = e :: es)
    (hdue : (x.player.paceFor (g.world x.time).now e).timeline.until? (g.world x.time).now
      e.logTime = none) :
    ∃ c channels topics seen, x.next g = (seen, .inl ⟨x.time, false, x.controls,
        { passing (g.world x.time).now e { x.player with cursor := c } with channels }, topics⟩) ∧
      c.Sound x.player.summary ∧ c.upcoming x.player.summary file = es ∧
      messagesIn seen = [(x.time, e.payload, e.logTime)] ∧ statesIn seen = [] := by
  obtain ⟨c, _, hs, hrest, ⟨span, hspan, _, _⟩ | ⟨_, hlog⟩⟩ :=
    logNext_next h hc hf hp hu (w := g.world x.time) (s := (⟨[], x.topics⟩ : Recorder))
  · rw [hdue] at hspan
    cases hspan
  · obtain ⟨id, channels, before, topics', hemit, hbefore⟩ := emit_recorder e
      ((x.player.paceFor (g.world x.time).now e).limiter.pass? e.logTime).isSome
      (passing (g.world x.time).now e { x.player with cursor := c }) x.topics
    rw [hemit] at hlog
    have hnext := next_yield (g := g) (x := x) hp hlog
    refine ⟨c, channels, topics', _, hnext, hs, hrest, ?_, ?_⟩
    · simp only [Turn.seen, List.map_append, messagesIn_append, (hbefore x.time).1]
      rfl
    · simp only [Turn.seen, List.map_append, statesIn_append, (hbefore x.time).2]
      rfl

theorem next_wait (h : x.player.summary.Readable file)
    (hc : x.player.cursor.Sound x.player.summary) (hf : g.disk.recording x.player.file = file)
    (hp : x.player.status = .playing) (hcontrols : x.controls = []) {e : Entry} {es : List Entry}
    (hu : x.player.upcoming file = e :: es) {span : Nanos}
    (hspan : (x.player.paceFor (g.world x.time).now e).timeline.until? (g.world x.time).now
      e.logTime = some span) (hz : span ≠ 0)
    (hstop : wake x.time (min span.toNat g.settings.maxSleep) < g.stop) :
    ∃ c, x.next g = ([(x.time, .read (.ok (some span)))],
        .inl ⟨wake x.time (min span.toNat g.settings.maxSleep), false, [],
          keeping (g.world x.time).now e { x.player with cursor := c }, x.topics⟩) ∧
      c.Sound x.player.summary ∧ c.upcoming x.player.summary file = es := by
  obtain ⟨c, _, hs, hrest, ⟨span', hspan', _, hlog⟩ | ⟨hdue, _⟩⟩ :=
    logNext_next h hc hf hp hu (w := g.world x.time) (s := (⟨[], x.topics⟩ : Recorder))
  · obtain rfl : span = span' := Option.some.inj (hspan.symm.trans hspan')
    refine ⟨c, ?_, hs, hrest⟩
    rw [next_sleep hp hlog, sleep_without_controls g hcontrols, if_neg (Nat.not_le_of_lt hstop)]
    rfl
  · rw [hspan] at hdue
    rcases hdue with hdue | hdue
    · cases hdue
    · exact absurd (Option.some.inj hdue) hz

theorem next_end (h : x.player.summary.Readable file)
    (hc : x.player.cursor.Sound x.player.summary) (hf : g.disk.recording x.player.file = file)
    (hp : x.player.status = .playing) (hu : x.player.upcoming file = []) :
    ∃ c, x.next g = ([(x.time, .read (.ok none))], .inl ⟨x.time, false, x.controls,
        { x.player with cursor := c, status := .ended, currentTime := x.player.range.stop },
        x.topics⟩) ∧
      c.start = x.player.cursor.start ∧ c.Sound x.player.summary ∧
      c.upcoming x.player.summary file = [] := by
  obtain ⟨c, hstart, hs, hrest, hlog⟩ :=
    logNext_end h hc hf hp hu (w := g.world x.time) (s := (⟨[], x.topics⟩ : Recorder))
  have hnext := next_yield (g := g) (x := x) hp hlog
  exact ⟨c, hnext, hstart, hs, hrest⟩

end Turns

end Pacing.Virtual

namespace Player

/-- A player that has given no message since its cursor was put. -/
structure Fresh (s : Summary) (path : String) (file : File) (ids : FileId → Prop) (p : Player) :
    Prop where
  summary_eq : p.summary = s
  path_eq : p.path = path
  file_mem : ids p.file
  sound : p.cursor.Sound s
  pace_eq : p.pace = none
  pending_eq : p.pending = none
  upcoming_eq : p.cursor.upcoming s file = s.entriesFrom file p.cursor.start

variable {s : Summary} {path : String} {file : File} {ids : FileId → Prop} {p q : Player}

theorem fresh_of_openFile {d : Disk} {o : Options} (h : openFile d path o = .ok p)
    (hread : p.summary.Readable file) (hkept : Kept path file ids d) :
    Fresh p.summary path file ids p := by
  obtain ⟨hpath, hopen, hpending, hpace, _, _, _⟩ := openFile_ok h
  obtain ⟨hid, hsound, hstart, hup⟩ := openCursor_readable hread hkept hopen
  exact ⟨rfl, hpath, hid, hsound, hpace, hpending, hstart.symm ▸ hup⟩

theorem Fresh.play (h : Fresh s path file ids p) (now : Nanos) :
    Fresh s path file ids (p.play now) := by
  unfold Player.play
  split
  · exact h
  · exact ⟨h.summary_eq, h.path_eq, h.file_mem, h.sound, by simp [h.pace_eq], h.pending_eq,
      h.upcoming_eq⟩

theorem Fresh.pause (h : Fresh s path file ids p) (now : Nanos) :
    Fresh s path file ids (p.pause now) := by
  unfold Player.pause
  split
  · exact h
  · exact ⟨h.summary_eq, h.path_eq, h.file_mem, h.sound, by simp [h.pace_eq], h.pending_eq,
      h.upcoming_eq⟩

theorem Fresh.setSpeed (h : Fresh s path file ids p) (now : Nanos) (v : Binary64) :
    Fresh s path file ids (p.setSpeed now v) :=
  ⟨h.summary_eq, h.path_eq, h.file_mem, h.sound, by simp [Player.setSpeed, h.pace_eq],
    h.pending_eq, h.upcoming_eq⟩

theorem Fresh.seek (h : Fresh s path file ids p) (hread : s.Readable file) {d : Disk}
    (hkept : Kept path file ids d) {t : Nanos} (hq : p.seek d t = .ok q) :
    Fresh s path file ids q := by
  obtain ⟨id, c, ho, rfl⟩ := seek_ok hq
  rw [h.summary_eq, h.path_eq] at ho
  obtain ⟨hid, hsound, hstart, hup⟩ := openCursor_readable hread hkept ho
  exact ⟨h.summary_eq, h.path_eq, hid, hsound, rfl, rfl, hstart.symm ▸ hup⟩

theorem Fresh.apply (h : Fresh s path file ids p) (hread : s.Readable file) {w : World}
    (hkept : Kept path file ids w.disk) (r : Request) :
    Fresh s path file ids (Source.apply w r p).2 := by
  have hmove : Fresh s path file ids (Source.move w r.seek p).2 := by
    cases hr : r.seek with
    | none => exact h
    | some t =>
      cases hq : p.seek w.disk t with
      | error e => simpa [Source.move, Source.seek, hq] using h
      | ok q => simpa [Source.move, Source.seek, hq] using h.seek hread hkept hq
  have hspeed := hmove.setSpeed w.now r.speed
  cases hr : r.command with
  | none => simpa [Source.apply, Source.command, Source.setSpeed, hr] using hspeed
  | some command =>
    cases command with
    | play =>
      simpa [Source.apply, Source.command, Source.setSpeed, Source.play, hr] using
        hspeed.play w.now
    | pause =>
      simpa [Source.apply, Source.command, Source.setSpeed, Source.pause, hr] using
        hspeed.pause w.now

theorem Fresh.controlsBefore (h : Fresh s path file ids p) (hread : s.Readable file)
    {g : Setting} (hkept : Kept path file ids g.disk) (t : Nat) (cs : List Control) :
    Fresh s path file ids (controlsBefore g t cs p).2.2 := by
  induction cs generalizing p with
  | nil => exact h
  | cons c cs ih =>
    unfold Pacing.Virtual.controlsBefore
    split
    · exact ih (h.apply hread hkept c.request)
    · exact h

theorem Fresh.sleep (h : Fresh s path file ids p) (hread : s.Readable file) {g : Setting}
    (hkept : Kept path file ids g.disk) {x y : Turn Player} {span : Nat} {ended : Bool}
    {topics : List String} (hy : (x.sleep g span ended p topics).2 = .inl y) :
    Fresh s path file ids y.player := by
  simp only [Turn.sleep] at hy
  split at hy
  · cases hy
  · obtain rfl := Sum.inl.inj hy
    exact h.controlsBefore hread hkept _ _

/-- A turn that gives no message leaves a player that has given none. -/
theorem Fresh.next {g : Setting} {x y : Turn Player} (h : Fresh s path file ids x.player)
    (hread : s.Readable file) (hkept : Kept path file ids g.disk)
    {seen : List (Nat × Happening)} (hnext : x.next g = (seen, .inl y))
    (hnone : messagesIn seen = []) : Fresh s path file ids y.player := by
  by_cases hp : x.player.status = .playing
  · have hread' : x.player.summary.Readable file := h.summary_eq.symm ▸ hread
    have hsound : x.player.cursor.Sound x.player.summary := h.summary_eq.symm ▸ h.sound
    have hf := hkept.content _ h.file_mem
    cases hu : x.player.upcoming file with
    | nil =>
      obtain ⟨c, hend, hstart, hs, hrest⟩ := next_end hread' hsound hf hp hu (g := g)
      rw [hend, Prod.mk.injEq] at hnext
      obtain rfl := Sum.inl.inj hnext.2
      have hempty := h.upcoming_eq
      simp only [upcoming, h.pending_eq, Option.toList_none, List.nil_append, h.summary_eq] at hu
      rw [hu] at hempty
      refine ⟨h.summary_eq, h.path_eq, h.file_mem, h.summary_eq ▸ hs, h.pace_eq, h.pending_eq, ?_⟩
      change c.upcoming s file = s.entriesFrom file c.start
      rw [hstart, ← hempty, ← h.summary_eq, hrest]
    | cons e es =>
      -- the message would start the timeline and be due at once
      have hdue : (x.player.paceFor (g.world x.time).now e).timeline.until? (g.world x.time).now
          e.logTime = none := by
        simp only [paceFor, h.pace_eq, Option.getD_none]
        exact Timeline.until_start _ _ _
      obtain ⟨c, channels, topics, seen', hgiven, _, _, hmessages, _⟩ :=
        next_due hread' hsound hf hp hu hdue
      rw [hgiven, Prod.mk.injEq] at hnext
      rw [← hnext.1, hmessages] at hnone
      cases hnone
  · rw [next_idle hp] at hnext
    exact h.sleep hread hkept (congrArg Prod.snd hnext)

theorem Fresh.passes {g : Setting} {x y : Turn Player} (h : Fresh s path file ids x.player)
    (hread : s.Readable file) (hkept : Kept path file ids g.disk)
    {seen : List (Nat × Happening)} (hpasses : Passes g x seen y)
    (hnone : messagesIn seen = []) : Fresh s path file ids y.player := by
  induction hpasses with
  | refl x => exact h
  | step hnext _ ih =>
    rw [messagesIn_append] at hnone
    obtain ⟨hfirst, hrest⟩ := List.append_eq_nil_iff.mp hnone
    exact ih (h.next hread hkept hnext hfirst) hrest

end Player

end Replay
