import Replay.Player
import Replay.Proofs.Recording.Written

/-!
What opening a recording and reading on lead to, said once. Main statements: `openFile_ok`, what a
player is after it is opened; `meet_cases`, a message is kept or it is due; `read_next`, reading on
meets the first of the upcoming messages.
-/

namespace Replay

/-- The name of a recording leads to files of one content only, and these stay as they are. The
name may be taken away, and given to another such file. -/
structure Recording.Kept (path : String) (file : File) (ids : FileId → Prop) (d : Disk) :
    Prop where
  named : ∀ id, d.open? path = some id → ids id
  content : ∀ id, ids id → d.recording id = file

namespace Recording.Kept

theorem written (path : String) (bs : Bytes) :
    Kept path (.plain bs) (· = 0) (Disk.empty.write path bs) where
  named := by simp [Disk.open?, Disk.write, Disk.empty]
  content := by
    rintro _ rfl
    rfl

theorem remove {path name : String} {file : File} {ids : FileId → Prop} {d : Disk}
    (h : Kept path file ids d) : Kept path file ids (d.remove name) where
  named := by
    by_cases hname : path = name
    · subst hname
      simp [Disk.open?_remove_self]
    · rw [Disk.open?_remove_of_ne d hname]
      exact h.named
  content := h.content

end Recording.Kept

namespace Player

open Recording

/-- The messages that a player has still to give: the one it keeps, then those before its cursor. -/
def upcoming (p : Player) (file : File) : List Entry :=
  p.pending.toList ++ p.cursor.upcoming p.summary file

theorem openCursor_ok {d : Disk} {path : String} {s : Summary} {start : Nanos} {id : FileId}
    {c : Cursor} (h : openCursor d path s start = .ok (id, c)) :
    d.open? path = some id ∧ Cursor.atTime s start = .ok c := by
  unfold openCursor at h
  cases hd : d.open? path with
  | none => simp [hd] at h
  | some found =>
    cases hc : Cursor.atTime s start with
    | error cause =>
      rw [hd, hc] at h
      cases h
    | ok cursor =>
      rw [hd, hc] at h
      obtain ⟨rfl, rfl⟩ := Prod.mk.inj (Except.ok.inj h)
      exact ⟨rfl, rfl⟩

/-- In a readable recording a cursor is put before exactly the messages from its start on. -/
theorem openCursor_readable {d : Disk} {path : String} {file : File} {ids : FileId → Prop}
    {s : Summary} {start : Nanos} {id : FileId} {c : Cursor} (hread : s.Readable file)
    (hkept : Kept path file ids d) (h : openCursor d path s start = .ok (id, c)) :
    ids id ∧ c.Sound s ∧ c.start = start ∧ c.upcoming s file = s.entriesFrom file start := by
  obtain ⟨hname, hat⟩ := openCursor_ok h
  obtain ⟨c', hat', hstart, hsound, hup⟩ := Cursor.atTime_upcoming hread start
  obtain rfl : c = c' := Except.ok.inj (hat.symm.trans hat')
  exact ⟨hkept.named id hname, hsound, hstart, hup⟩

/-- The player of a recording that is opened: paused before the start of its range. -/
def opened (path : String) (o : Options) (s : Summary) (statistics : Statistics) (file : FileId)
    (cursor : Cursor) : Player where
  path
  interval := o.interval
  summary := s
  range := ⟨statistics.startTime, statistics.endTime⟩
  file
  cursor
  pending := none
  pace := none
  currentTime := statistics.startTime
  status := .paused
  speed := Speed.clamp o.initialSpeed
  channels := []

/-- A recording whose summary has statistics is refused if these count messages and no chunk is
indexed; else it is opened if a cursor can be put at the start. -/
theorem openFile_eq {d : Disk} {path : String} (o : Options) {content : Bytes} {s : Summary}
    {statistics : Statistics} (hr : d.read? path = some content)
    (hs : Summary.ofFile content = .ok (some s)) (hst : s.statistics = some statistics) :
    openFile d path o =
      if 0 < statistics.messageCount && s.chunks.isEmpty then .error (.unindexed path)
      else (openCursor d path s statistics.startTime).map fun x =>
        opened path o s statistics x.1 x.2 := by
  simp only [openFile, hr, hs, hst, bind, Except.bind, throw, throwThe, MonadExceptOf.throw, pure,
    Except.pure]
  split
  · rfl
  · cases openCursor d path s statistics.startTime <;> rfl

theorem openFile_opened {d : Disk} {path : String} {o : Options} {p : Player}
    (h : openFile d path o = .ok p) :
    ∃ content s statistics file cursor, d.read? path = some content ∧
      Summary.ofFile content = .ok (some s) ∧ s.statistics = some statistics ∧
      openCursor d path s statistics.startTime = .ok (file, cursor) ∧
      p = opened path o s statistics file cursor := by
  cases hr : d.read? path with
  | none => simp [openFile, hr] at h
  | some content =>
    cases hs : Summary.ofFile content with
    | error e => simp [openFile, hr, hs, bind, Except.bind] at h
    | ok found =>
      cases found with
      | none =>
        simp [openFile, hr, hs, bind, Except.bind, throw, throwThe, MonadExceptOf.throw] at h
      | some s =>
        cases hst : s.statistics with
        | none =>
          simp [openFile, hr, hs, hst, bind, Except.bind, throw, throwThe,
            MonadExceptOf.throw] at h
        | some statistics =>
          rw [openFile_eq o hr hs hst] at h
          split at h
          · cases h
          · cases hc : openCursor d path s statistics.startTime with
            | error e => simp [hc, Except.map] at h
            | ok pair =>
              simp only [hc, Except.map, Except.ok.injEq] at h
              exact ⟨content, s, statistics, pair.1, pair.2, rfl, hs, hst, hc, h.symm⟩

/-- An opened player stands paused before the start of its range. -/
theorem openFile_ok {d : Disk} {path : String} {o : Options} {p : Player}
    (h : openFile d path o = .ok p) :
    p.path = path ∧ openCursor d path p.summary p.range.start = .ok (p.file, p.cursor) ∧
      p.pending = none ∧ p.pace = none ∧ p.currentTime = p.range.start ∧ p.status = .paused ∧
      p.channels = [] := by
  obtain ⟨_, _, _, _, _, _, _, _, hc, rfl⟩ := openFile_opened h
  exact ⟨rfl, hc, rfl, rfl, rfl, rfl, rfl⟩

/-- A move that succeeds puts the cursor anew and forgets the kept message and the pace. -/
theorem seek_ok {d : Disk} {t : Nanos} {p q : Player} (h : p.seek d t = .ok q) :
    ∃ file cursor, openCursor d p.path p.summary (p.range.clamp t) = .ok (file, cursor) ∧
      q = { p with
        file, cursor
        currentTime := p.range.clamp t
        pending := none
        pace := none
        status := if p.status = .ended then .paused else p.status } := by
  unfold seek at h
  cases ho : openCursor d p.path p.summary (p.range.clamp t) with
  | error e => simp [ho, Except.map] at h
  | ok pair =>
    simp only [ho, Except.map, Except.ok.injEq] at h
    exact ⟨pair.1, pair.2, rfl, h.symm⟩

/-- The player after it has kept a message that is not due. -/
def keeping (now : Nanos) (e : Entry) (p : Player) : Player :=
  { p with pending := some e, pace := some (p.paceFor now e) }

/-- The player after it has let a due message through. -/
def passing (now : Nanos) (e : Entry) (p : Player) : Player :=
  let pace := p.paceFor now e
  { p with
    pending := none
    pace := some { pace with limiter := (pace.limiter.pass? e.logTime).getD pace.limiter }
    currentTime := e.logTime }

/-- A message waits for as long as log time says, or it is due, and then its time is told if the
limiter lets it through. -/
theorem meet_cases (now : Nanos) (e : Entry) (p : Player) :
    (∃ span, (p.paceFor now e).timeline.until? now e.logTime = some span ∧ span ≠ 0 ∧
      p.meet now e = (.wait span, p.keeping now e)) ∨
    (((p.paceFor now e).timeline.until? now e.logTime = none ∨
        (p.paceFor now e).timeline.until? now e.logTime = some 0) ∧
      p.meet now e =
        (.due e ((p.paceFor now e).limiter.pass? e.logTime).isSome, p.passing now e)) := by
  unfold meet keeping passing
  cases hu : (p.paceFor now e).timeline.until? now e.logTime with
  | none => cases hl : (p.paceFor now e).limiter.pass? e.logTime <;> simp [hu, hl]
  | some span =>
    by_cases hz : span = 0
    · cases hl : (p.paceFor now e).limiter.pass? e.logTime <;> simp [hu, hl, hz]
    · simp [hu, hz]

variable {w : World} {p : Player} {file : File}

theorem read_end (h : p.summary.Readable file) (hc : p.cursor.Sound p.summary)
    (hf : w.disk.recording p.file = file) (hp : p.status = .playing)
    (hu : p.upcoming file = []) :
    ∃ c, c.start = p.cursor.start ∧ c.Sound p.summary ∧ c.upcoming p.summary file = [] ∧ p.read w =
      (.ok .nothing, { p with cursor := c, status := .ended, currentTime := p.range.stop }) := by
  obtain ⟨hpending, hcursor⟩ := List.append_eq_nil_iff.mp hu
  obtain ⟨c, hnext, hstart, hs, hrest⟩ := Cursor.next_upcoming h hc
  have hnone : p.pending = none := by simpa using hpending
  rw [hcursor] at hnext hrest
  refine ⟨c, hstart, hs, hrest, ?_⟩
  simp [read, hp, hnone, hf, hnext]

theorem read_next (h : p.summary.Readable file) (hc : p.cursor.Sound p.summary)
    (hf : w.disk.recording p.file = file) (hp : p.status = .playing) {e : Entry} {es : List Entry}
    (hu : p.upcoming file = e :: es) :
    ∃ c, c.start = p.cursor.start ∧ c.Sound p.summary ∧ c.upcoming p.summary file = es ∧
      p.read w = (.ok (({ p with cursor := c } : Player).meet w.now e).1,
        (({ p with cursor := c } : Player).meet w.now e).2) := by
  cases hpending : p.pending with
  | some kept =>
    simp only [upcoming, hpending, Option.toList_some, List.singleton_append, List.cons.injEq] at hu
    obtain ⟨rfl, hrest⟩ := hu
    refine ⟨p.cursor, rfl, hc, hrest, ?_⟩
    change p.read w = (.ok (p.meet w.now kept).1, (p.meet w.now kept).2)
    simp [read, hp, hpending]
  | none =>
    simp only [upcoming, hpending, Option.toList_none, List.nil_append] at hu
    obtain ⟨c, hnext, hstart, hs, hrest⟩ := Cursor.next_upcoming h hc
    rw [hu] at hnext hrest
    exact ⟨c, hstart, hs, hrest, by simp [read, hp, hpending, hf, hnext]⟩

/-- The message that comes next: the one that is kept, else the first behind the cursor as the file
stands. -/
def next? (w : World) (p : Player) : Option Entry :=
  match p.pending with
  | some e => some e
  | none =>
    match p.cursor.next p.summary (w.disk.recording p.file) with
    | (.ok found, _) => found
    | (.error _, _) => none

/-- The cursor behind the message that comes next. -/
def cursorPast (w : World) (p : Player) : Cursor :=
  match p.pending with
  | some _ => p.cursor
  | none => (p.cursor.next p.summary (w.disk.recording p.file)).2

theorem read_eq_meet (hp : p.status = .playing) {e : Entry} (h : p.next? w = some e) :
    p.read w = (.ok (({ p with cursor := p.cursorPast w } : Player).meet w.now e).1,
      (({ p with cursor := p.cursorPast w } : Player).meet w.now e).2) := by
  unfold next? at h
  cases hpending : p.pending with
  | some kept =>
    obtain rfl : kept = e := by simpa [hpending] using h
    have hpast : p.cursorPast w = p.cursor := by simp only [cursorPast, hpending]
    rw [hpast]
    change p.read w = (.ok (p.meet w.now kept).1, (p.meet w.now kept).2)
    simp [read, hp, hpending]
  | none =>
    rw [hpending] at h
    cases hnext : p.cursor.next p.summary (w.disk.recording p.file) with
    | mk result c =>
      cases result with
      | error e => simp [hnext] at h
      | ok found =>
        obtain rfl : found = some e := by simpa [hnext] using h
        simp [read, hp, hpending, hnext, cursorPast]

theorem read_of_next? (hp : p.status = .playing) {e : Entry} (h : p.next? w = some e) :
    ∃ c, p.read w = (.ok (({ p with cursor := c } : Player).meet w.now e).1,
      (({ p with cursor := c } : Player).meet w.now e).2) :=
  ⟨p.cursorPast w, read_eq_meet hp h⟩

/-- All that reading can do, whatever the file holds: nothing; the cursor alone moves, which fails
or comes to the end; or the next message is met. -/
theorem read_cases (w : World) (p : Player) :
    (p.status ≠ .playing ∧ p.read w = (.ok .nothing, p)) ∨
    (p.status = .playing ∧ p.pending = none ∧ ∃ e c,
      p.read w = (.error e, { p with cursor := c })) ∨
    (p.status = .playing ∧ p.pending = none ∧ ∃ c, p.read w =
      (.ok .nothing, { p with cursor := c, status := .ended, currentTime := p.range.stop })) ∨
    (p.status = .playing ∧ ∃ e c, p.next? w = some e ∧
      p.read w = (.ok (({ p with cursor := c } : Player).meet w.now e).1,
        (({ p with cursor := c } : Player).meet w.now e).2)) := by
  by_cases hp : p.status = .playing
  · cases hfound : p.next? w with
    | some e =>
      obtain ⟨c, hr⟩ := read_of_next? hp hfound
      exact Or.inr (Or.inr (Or.inr ⟨hp, e, c, rfl, hr⟩))
    | none =>
      have hpending : p.pending = none := by
        cases hkept : p.pending with
        | none => rfl
        | some e => simp [next?, hkept] at hfound
      simp only [next?, hpending] at hfound
      cases hnext : p.cursor.next p.summary (w.disk.recording p.file) with
      | mk result c =>
        cases result with
        | error e =>
          exact Or.inr (Or.inl ⟨hp, hpending, e, c, by simp [read, hp, hpending, hnext]⟩)
        | ok found =>
          obtain rfl : found = none := by simpa [hnext] using hfound
          exact Or.inr (Or.inr (Or.inl ⟨hp, hpending, c, by simp [read, hp, hpending, hnext]⟩))
  · exact Or.inl ⟨hp, by simp [read, hp]⟩

variable {σ : Type} [Sink σ] {s : σ}

theorem logNext_of_not_playing (hp : p.status ≠ .playing) : p.logNext w s = (.ok none, p, s) := by
  simp [logNext, read, hp]

theorem logNext_end (h : p.summary.Readable file) (hc : p.cursor.Sound p.summary)
    (hf : w.disk.recording p.file = file) (hp : p.status = .playing)
    (hu : p.upcoming file = []) :
    ∃ c, c.start = p.cursor.start ∧ c.Sound p.summary ∧ c.upcoming p.summary file = [] ∧
      p.logNext w s =
      (.ok none, { p with cursor := c, status := .ended, currentTime := p.range.stop }, s) := by
  obtain ⟨c, hstart, hs, hrest, hr⟩ := read_end h hc hf hp hu
  exact ⟨c, hstart, hs, hrest, by simp only [logNext, hr]⟩

/-- Reading on takes the first of the upcoming messages: it is kept, and the time to wait for it
told, or it goes to the sink. -/
theorem logNext_next (h : p.summary.Readable file) (hc : p.cursor.Sound p.summary)
    (hf : w.disk.recording p.file = file) (hp : p.status = .playing) {e : Entry} {es : List Entry}
    (hu : p.upcoming file = e :: es) :
    ∃ c, c.start = p.cursor.start ∧ c.Sound p.summary ∧ c.upcoming p.summary file = es ∧
      ((∃ span, (p.paceFor w.now e).timeline.until? w.now e.logTime = some span ∧ span ≠ 0 ∧
        p.logNext w s = (.ok (some span), keeping w.now e { p with cursor := c }, s)) ∨
      (((p.paceFor w.now e).timeline.until? w.now e.logTime = none ∨
          (p.paceFor w.now e).timeline.until? w.now e.logTime = some 0) ∧
        p.logNext w s = (.ok none, emit e ((p.paceFor w.now e).limiter.pass? e.logTime).isSome
          (passing w.now e { p with cursor := c }) s))) := by
  obtain ⟨c, hstart, hs, hrest, hr⟩ := read_next h hc hf hp hu
  refine ⟨c, hstart, hs, hrest, ?_⟩
  rcases meet_cases w.now e { p with cursor := c } with ⟨span, hspan, hz, hm⟩ | ⟨hdue, hm⟩
  · exact Or.inl ⟨span, hspan, hz, by simp only [logNext, hr, hm]⟩
  · exact Or.inr ⟨hdue, by simp only [logNext, hr, hm]; rfl⟩

/-- What giving a message to the sink does to the player: it may learn the id of a topic. -/
theorem emit_player (e : Entry) (tick : Bool) (p : Player) (s : σ) :
    ∃ channels, (p.emit e tick s).1 = { p with channels } := by
  have hfor : ∀ s : σ, ∃ channels, (p.channelFor e.channel s).2.1 = { p with channels } := by
    intro s
    unfold channelFor
    split
    · exact ⟨p.channels, rfl⟩
    · exact ⟨_, rfl⟩
  exact hfor _

/-- A message that reading on meets is kept, or it goes to the sink. -/
theorem logNext_of_meets {e : Entry} {c : Cursor} (s : σ)
    (hr : p.read w = (.ok (({ p with cursor := c } : Player).meet w.now e).1,
      (({ p with cursor := c } : Player).meet w.now e).2)) :
    (∃ span, span ≠ 0 ∧
      p.logNext w s = (.ok (some span), keeping w.now e { p with cursor := c }, s)) ∨
    (∃ tick, p.logNext w s =
      (.ok none, emit e tick (passing w.now e { p with cursor := c }) s)) := by
  rcases meet_cases w.now e { p with cursor := c } with ⟨span, _, hz, hm⟩ | ⟨_, hm⟩
  · exact Or.inl ⟨span, hz, by simp only [logNext, hr, hm]⟩
  · exact Or.inr ⟨_, by simp only [logNext, hr, hm]; rfl⟩

/-- All that reading on can do, whatever the file holds: nothing; the cursor alone moves, which
fails or comes to the end; or a message is kept or goes to the sink. -/
theorem logNext_cases (w : World) (p : Player) (s : σ) :
    (p.status ≠ .playing ∧ p.logNext w s = (.ok none, p, s)) ∨
    (p.status = .playing ∧ p.pending = none ∧ ∃ e c,
      p.logNext w s = (.error e, { p with cursor := c }, s)) ∨
    (p.status = .playing ∧ p.pending = none ∧ ∃ c, p.logNext w s =
      (.ok none, { p with cursor := c, status := .ended, currentTime := p.range.stop }, s)) ∨
    (p.status = .playing ∧ ∃ e c, ∃ span, span ≠ 0 ∧
      p.logNext w s = (.ok (some span), keeping w.now e { p with cursor := c }, s)) ∨
    (p.status = .playing ∧ ∃ e c tick, p.logNext w s =
      (.ok none, emit e tick (passing w.now e { p with cursor := c }) s)) := by
  rcases p.read_cases w with ⟨hp, _⟩ | ⟨hp, hpending, e, c, hr⟩ | ⟨hp, hpending, c, hr⟩ |
    ⟨hp, e, c, _, hr⟩
  · exact Or.inl ⟨hp, logNext_of_not_playing hp⟩
  · exact Or.inr (Or.inl ⟨hp, hpending, e, c, by simp only [logNext, hr]⟩)
  · exact Or.inr (Or.inr (Or.inl ⟨hp, hpending, c, by simp only [logNext, hr]⟩))
  · rcases logNext_of_meets s hr with ⟨span, hkept⟩ | ⟨tick, hdue⟩
    · exact Or.inr (Or.inr (Or.inr (Or.inl ⟨hp, e, c, span, hkept⟩)))
    · exact Or.inr (Or.inr (Or.inr (Or.inr ⟨hp, e, c, tick, hdue⟩)))

def samplePlayer : Player where
  path := "a"
  interval := Limiter.defaultInterval
  summary := sampleSummary
  range := ⟨3, 9⟩
  file := 0
  cursor := ⟨3, [], sampleSummary.chunks⟩
  pending := none
  pace := none
  currentTime := 3
  status := .paused
  speed := Speed.clamp (Binary64.ofNat 1)
  channels := []

theorem sample_opens : openFile sampleDisk "a" .default = .ok samplePlayer :=
  eq_ok_of_toOption (by decide +kernel)

theorem sampleDisk_kept {d : Disk} (h : d = sampleDisk ∨ d = sampleDisk.remove "a") :
    Kept "a" sample (· = 0) d := by
  rcases h with rfl | rfl
  · exact .written "a" sample.bytes
  · exact .remove (.written "a" sample.bytes)

end Player

end Replay
