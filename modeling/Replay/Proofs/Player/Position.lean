import Replay.Proofs.Player.Failure
import Replay.Proofs.Recording.Ahead

/-!
The position of a player. Where the statistics of a recording bound its log times, the position
never leaves their range; and where the log times are stored in order, it only moves forward until
it is moved, be the clock set back, reads failing or the end reached. Main statement:
`position_stays_and_advances`.
-/

namespace Replay

theorem TimeRange.clamp_le_stop (r : TimeRange) (t : Nanos) : r.clamp t ≤ r.stop :=
  Std.min_le_right

theorem TimeRange.start_le_clamp {r : TimeRange} (h : r.start ≤ r.stop) (t : Nanos) :
    r.start ≤ r.clamp t := by
  have hmax : r.start ≤ max t r.start := by
    change r.start ≤ if t ≤ r.start then r.start else t
    split
    · exact UInt64.le_refl _
    · exact UInt64.le_of_lt (UInt64.not_le.mp ‹_›)
  exact Std.le_min_iff.mpr ⟨hmax, h⟩

namespace Recording

/-- The statistics of a summary bound the log times of its messages. -/
structure Summary.Bounded (s : Summary) (file : File) (statistics : Statistics) : Prop where
  statistics_eq : s.statistics = some statistics
  start_le_end : statistics.startTime ≤ statistics.endTime
  within : ∀ e ∈ s.entries file,
    statistics.startTime ≤ e.logTime ∧ e.logTime ≤ statistics.endTime

/-- The log times of a recording are stored in order. -/
def Summary.InOrder (s : Summary) (file : File) : Prop :=
  (s.entries file).Pairwise fun a b => a.logTime ≤ b.logTime

instance (s : Summary) (file : File) : Decidable (s.InOrder file) :=
  inferInstanceAs (Decidable (List.Pairwise _ _))

end Recording

namespace Player

open Recording

/-- Two players of one recording, and of the same file. -/
structure SameRecording (p q : Player) : Prop where
  path_eq : q.path = p.path
  summary_eq : q.summary = p.summary
  range_eq : q.range = p.range
  file_eq : q.file = p.file

/-- What an operation other than a move does to the position and to the messages to come, with the
calls that it makes. -/
inductive Goes (file : File) (p q : Player) (events : List Event) : Prop where
  | stays (ahead : q.upcoming file = p.upcoming file) (time : q.currentTime = p.currentTime)
    (none : events = [])
  | ends (before : p.upcoming file = []) (after : q.upcoming file = [])
    (time : q.currentTime = p.range.stop) (none : events = [])
  | gives (e : Entry) (id : ChannelId) (ahead : p.upcoming file = e :: q.upcoming file)
    (time : q.currentTime = e.logTime)
    (one : events.filter Event.isMessage = [.message id e.payload e.logTime])

variable {file : File} {w : World} {p : Player}

/-- What reading does to the messages to come, whatever the file holds. -/
theorem read_ahead (hf : w.disk.recording p.file = file) :
    (p.status ≠ .playing ∧ p.read w = (.ok .nothing, p)) ∨
    (∃ e c, upcoming { p with cursor := c } file = p.upcoming file ∧
      p.read w = (.error e, { p with cursor := c })) ∨
    (p.upcoming file = [] ∧ ∃ c, upcoming { p with cursor := c } file = [] ∧ p.read w =
      (.ok .nothing, { p with cursor := c, status := .ended, currentTime := p.range.stop })) ∨
    (∃ e c, p.upcoming file = e :: c.upcoming p.summary file ∧
      p.read w = (.ok (({ p with cursor := c } : Player).meet w.now e).1,
        (({ p with cursor := c } : Player).meet w.now e).2)) := by
  by_cases hp : p.status = .playing
  · right
    cases hpending : p.pending with
    | some e =>
      refine Or.inr (Or.inr ⟨e, p.cursor, by simp [upcoming, hpending], ?_⟩)
      change p.read w = (.ok (p.meet w.now e).1, (p.meet w.now e).2)
      simp [read, hp, hpending]
    | none =>
      have hturn := (Cursor.next_turned p.summary file p.cursor).2
      cases hnext : p.cursor.next p.summary file with
      | mk result c =>
        rw [hnext] at hturn
        cases result with
        | error e =>
          have hsame : c.upcoming p.summary file = p.cursor.upcoming p.summary file := hturn
          exact Or.inl ⟨e, c, by simp [upcoming, hpending, hsame],
            by simp [read, hp, hpending, hf, hnext]⟩
        | ok found =>
          cases found with
          | none =>
            obtain ⟨hbefore, hafter⟩ :
                p.cursor.upcoming p.summary file = [] ∧ c.upcoming p.summary file = [] := hturn
            exact Or.inr (Or.inl ⟨by simp [upcoming, hpending, hbefore], c,
              by simp [upcoming, hafter], by simp [read, hp, hpending, hf, hnext]⟩)
          | some e =>
            have hfirst : p.cursor.upcoming p.summary file = e :: c.upcoming p.summary file := hturn
            exact Or.inr (Or.inr ⟨e, c, by simp [upcoming, hpending, hfirst],
              by simp [read, hp, hpending, hf, hnext]⟩)
  · exact Or.inl ⟨hp, by simp [read, hp]⟩

variable {σ : Type} [Sink σ]

theorem logNext_goes (hf : w.disk.recording p.file = file) {s : σ} {q : Player} {k : Traced σ}
    {r : Except Error (Option Nanos)} (h : p.logNext w (⟨s, []⟩ : Traced σ) = (r, q, k)) :
    p.SameRecording q ∧ Goes file p q k.events := by
  rcases read_ahead hf with ⟨_, hr⟩ | ⟨e, c, hahead, hr⟩ | ⟨hbefore, c, hafter, hr⟩ |
    ⟨e, c, hahead, hr⟩
  · simp only [logNext, hr] at h
    cases h
    exact ⟨⟨rfl, rfl, rfl, rfl⟩, .stays rfl rfl rfl⟩
  · simp only [logNext, hr] at h
    cases h
    exact ⟨⟨rfl, rfl, rfl, rfl⟩, .stays hahead rfl rfl⟩
  · simp only [logNext, hr] at h
    cases h
    exact ⟨⟨rfl, rfl, rfl, rfl⟩, .ends hbefore hafter rfl rfl⟩
  · rcases logNext_of_meets (⟨s, []⟩ : Traced σ) hr with ⟨span, _, hlog⟩ | ⟨tick, hlog⟩
    · rw [hlog] at h
      cases h
      exact ⟨⟨rfl, rfl, rfl, rfl⟩, .stays hahead.symm rfl rfl⟩
    · obtain ⟨id, channels, sink, before, hemit, hno, _⟩ :=
        emit_traced e tick (passing w.now e { p with cursor := c }) s
      rw [hlog, hemit] at h
      cases h
      exact ⟨⟨rfl, rfl, rfl, rfl⟩, .gives e id hahead rfl (by simp [hno, Event.isMessage])⟩

/-- Whether an operation was a move that succeeded, by its result. -/
def madeMove : Operation → Except Error (Option Nanos) → Bool
  | .seek _, .ok _ => true
  | _, _ => false

/-- A step is a move that succeeds, or it goes on with the present part. -/
theorem Session.step_moves_or_goes (x : Session σ) (o : Operation)
    (hf : w.disk.recording x.player.file = file) :
    (∃ t q, o = .seek t ∧ x.player.seek w.disk t = .ok q ∧ madeMove o (x.result w o) = true ∧
      x.step w o = ⟨q, x.sink, x.parts, ⟨x.player.range.clamp t, []⟩⟩) ∨
    (x.player.SameRecording (x.step w o).player ∧ ∃ events,
      (x.step w o).part.events = x.part.events ++ events ∧
      Goes file x.player (x.step w o).player events) := by
  rcases x.step_cases w o with ⟨_, q, ⟨_, _, _, rfl, _⟩, hx⟩ | ⟨t, q, rfl, hq, hx⟩ | ⟨rfl, _, hx⟩
  · right
    rw [hx]
    exact ⟨⟨rfl, rfl, rfl, rfl⟩, [], (List.append_nil _).symm, .stays rfl rfl rfl⟩
  · exact Or.inl ⟨t, q, rfl, hq, by simp [madeMove, result, perform, hq], hx⟩
  · right
    obtain ⟨r, q, k, hlog⟩ : ∃ r q k,
        x.player.logNext w (⟨x.sink, []⟩ : Traced σ) = (r, q, k) := ⟨_, _, _, rfl⟩
    obtain ⟨hsame, hgoes⟩ := logNext_goes hf hlog
    rw [hx r q k hlog]
    exact ⟨hsame, k.events, rfl, hgoes⟩

/-- A player is on the recording that was opened: what it has still to give is of that, and its
position is in the range. -/
structure OnRecording (s : Summary) (path : String) (file : File) (ids : FileId → Prop)
    (statistics : Statistics) (p : Player) : Prop where
  summary_eq : p.summary = s
  path_eq : p.path = path
  range_eq : p.range = ⟨statistics.startTime, statistics.endTime⟩
  file_mem : ids p.file
  ahead : (p.upcoming file).Sublist (s.entries file)
  start_le : statistics.startTime ≤ p.currentTime
  le_end : p.currentTime ≤ statistics.endTime

/-- What is still to come is not before the position. -/
def Before (file : File) (p : Player) : Prop := ∀ e ∈ p.upcoming file, p.currentTime ≤ e.logTime

section

variable {s : Summary} {path : String} {ids : FileId → Prop} {statistics : Statistics} {q : Player}

theorem OnRecording.goes (h : OnRecording s path file ids statistics p)
    (hb : s.Bounded file statistics) (hsame : p.SameRecording q) {events : List Event}
    (hgoes : Goes file p q events) : OnRecording s path file ids statistics q := by
  have hids := hsame.file_eq.symm ▸ h.file_mem
  have hrange := hsame.range_eq.trans h.range_eq
  cases hgoes with
  | stays hahead htime _ =>
    exact ⟨hsame.summary_eq.trans h.summary_eq, hsame.path_eq.trans h.path_eq, hrange, hids,
      hahead ▸ h.ahead, htime ▸ h.start_le, htime ▸ h.le_end⟩
  | ends _ hafter htime _ =>
    have hend : q.currentTime = statistics.endTime := by rw [htime, h.range_eq]
    exact ⟨hsame.summary_eq.trans h.summary_eq, hsame.path_eq.trans h.path_eq, hrange, hids,
      by simp [hafter], hend ▸ hb.start_le_end, hend ▸ UInt64.le_refl _⟩
  | gives e id hahead htime _ =>
    have hall := hahead ▸ h.ahead
    obtain ⟨hstart, hend⟩ := hb.within e (hall.subset List.mem_cons_self)
    exact ⟨hsame.summary_eq.trans h.summary_eq, hsame.path_eq.trans h.path_eq, hrange, hids,
      (List.sublist_cons_self _ _).trans hall, htime ▸ hstart, htime ▸ hend⟩

/-- Where the log times are in order, the position moves forward: over the messages that are given,
which are between the old and the new one, and at last to the end of the range. -/
theorem OnRecording.advances (h : OnRecording s path file ids statistics p)
    (ho : s.InOrder file) (hbefore : p.Before file) {events : List Event}
    (hgoes : Goes file p q events) : p.currentTime ≤ q.currentTime ∧ q.Before file ∧
      ∀ id payload t, .message id payload t ∈ events → p.currentTime ≤ t ∧ t ≤ q.currentTime := by
  cases hgoes with
  | stays hahead htime hnone =>
    refine ⟨htime ▸ UInt64.le_refl _, ?_, by simp [hnone]⟩
    rw [Before, hahead, htime]
    exact hbefore
  | ends _ hafter htime hnone =>
    refine ⟨?_, by simp [Before, hafter], by simp [hnone]⟩
    rw [htime, h.range_eq]
    exact h.le_end
  | gives e id hahead htime hone =>
    have hle : p.currentTime ≤ e.logTime := hbefore e (hahead ▸ List.mem_cons_self)
    have hsorted : (e :: q.upcoming file).Pairwise fun a b => a.logTime ≤ b.logTime :=
      ho.sublist (hahead ▸ h.ahead)
    refine ⟨htime ▸ hle, ?_, ?_⟩
    · rw [Before, htime]
      exact (List.pairwise_cons.mp hsorted).1
    · intro id' payload t hm
      have hmem : .message id' payload t ∈ events.filter Event.isMessage :=
        List.mem_filter.mpr ⟨hm, rfl⟩
      rw [hone, List.mem_singleton] at hmem
      cases hmem
      exact ⟨hle, htime ▸ UInt64.le_refl _⟩

/-- A cursor that is put at a time is before messages that are not earlier. -/
theorem openCursor_ahead {d : Disk} {start : Nanos} {id : FileId} {c : Cursor}
    (hkept : Kept path file ids d) (h : openCursor d path s start = .ok (id, c)) :
    ids id ∧ (c.upcoming s file).Sublist (s.entries file) ∧
      ∀ e ∈ c.upcoming s file, start ≤ e.logTime := by
  obtain ⟨hname, hat⟩ := openCursor_ok h
  have hsub := (Cursor.atTime_sublist file hat).2
  refine ⟨hkept.named id hname, hsub.trans List.filter_sublist, ?_⟩
  intro e he
  exact of_decide_eq_true (List.mem_filter.mp (hsub.subset he)).2

/-- A move that succeeds puts the position into the range, and before what is to come. -/
theorem OnRecording.moved (h : OnRecording s path file ids statistics p)
    (hb : s.Bounded file statistics) {d : Disk} (hkept : Kept path file ids d) {t : Nanos}
    (hq : p.seek d t = .ok q) : OnRecording s path file ids statistics q ∧ q.Before file ∧
      q.currentTime = p.range.clamp t := by
  obtain ⟨id, c, hcursor, rfl⟩ := seek_ok hq
  rw [h.summary_eq, h.path_eq] at hcursor
  obtain ⟨hid, hahead, hstart⟩ := openCursor_ahead hkept hcursor
  have hrange : p.range.start ≤ p.range.stop := by
    rw [h.range_eq]
    exact hb.start_le_end
  have hlow := TimeRange.start_le_clamp hrange t
  have hhigh := p.range.clamp_le_stop t
  rw [h.range_eq] at hlow hhigh
  refine ⟨⟨h.summary_eq, h.path_eq, h.range_eq, hid, ?_, ?_, ?_⟩, ?_, rfl⟩
  · simpa [upcoming, h.summary_eq] using hahead
  · simpa [h.range_eq] using hlow
  · simpa [h.range_eq] using hhigh
  · simpa [Before, upcoming, h.summary_eq] using hstart

theorem onRecording_of_openFile {d : Disk} {o : Options} (hopen : openFile d path o = .ok p)
    (hb : p.summary.Bounded file statistics) (hkept : Kept path file ids d) :
    OnRecording p.summary path file ids statistics p ∧ p.Before file := by
  obtain ⟨_, s, st, id, c, _, _, hst, hcursor, rfl⟩ := openFile_opened hopen
  obtain rfl : st = statistics := Option.some.inj (hst.symm.trans hb.statistics_eq)
  obtain ⟨hid, hahead, hstart⟩ := openCursor_ahead hkept hcursor
  exact ⟨⟨rfl, rfl, rfl, hid, hahead, UInt64.le_refl _, hb.start_le_end⟩, hstart⟩

end

section

variable {s : Summary} {path : String} {ids : FileId → Prop} {statistics : Statistics}
  {x : Session σ}

theorem OnRecording.step (h : OnRecording s path file ids statistics x.player)
    (hb : s.Bounded file statistics) (hkept : Kept path file ids w.disk) (o : Operation) :
    OnRecording s path file ids statistics (x.step w o).player ∧
      (s.InOrder file → x.player.Before file → (x.step w o).player.Before file) := by
  rcases x.step_moves_or_goes o (hkept.content _ h.file_mem) with ⟨t, q, _, hq, _, hx⟩ |
    ⟨hsame, events, _, hgoes⟩
  · rw [hx]
    obtain ⟨hall, hbefore, _⟩ := h.moved hb hkept hq
    exact ⟨hall, fun _ _ => hbefore⟩
  · exact ⟨h.goes hb hsame hgoes, fun ho hbefore => (h.advances ho hbefore hgoes).2.1⟩

theorem OnRecording.run (h : OnRecording s path file ids statistics x.player)
    (hb : s.Bounded file statistics) {os : List (World × Operation)}
    (hkept : ∀ o ∈ os, Kept path file ids o.1.disk) :
    OnRecording s path file ids statistics (x.run os).player ∧
      (s.InOrder file → x.player.Before file → (x.run os).player.Before file) := by
  induction os generalizing x with
  | nil => exact ⟨h, fun _ hbefore => hbefore⟩
  | cons o os ih =>
    obtain ⟨hstep, hnext⟩ := h.step hb (hkept o (by simp)) o.2
    obtain ⟨hall, hrest⟩ := ih hstep fun o' ho' => hkept o' (by simp [ho'])
    exact ⟨hall, fun ho hbefore => hrest ho (hnext ho hbefore)⟩

/-- Until it is moved, a player goes forward, and what it gives is not before where it was. -/
theorem OnRecording.run_advances (h : OnRecording s path file ids statistics x.player)
    (hb : s.Bounded file statistics) (ho : s.InOrder file) (hbefore : x.player.Before file)
    {os : List (World × Operation)} (hkept : ∀ o ∈ os, Kept path file ids o.1.disk)
    (hstay : ∀ y ∈ x.outcomes os, madeMove y.1.2 y.2 = false) :
    x.player.currentTime ≤ (x.run os).player.currentTime ∧ ∃ events,
      (x.run os).part.events = x.part.events ++ events ∧
      ∀ id payload t, .message id payload t ∈ events →
        x.player.currentTime ≤ t ∧ t ≤ (x.run os).player.currentTime := by
  induction os generalizing x with
  | nil => exact ⟨UInt64.le_refl _, [], (List.append_nil _).symm, by simp⟩
  | cons o os ih =>
    have hfirst := hkept o (by simp)
    rcases x.step_moves_or_goes o.2 (hfirst.content _ h.file_mem) with ⟨t, q, _, _, hmade, _⟩ |
      ⟨hsame, events, hevents, hgoes⟩
    · rw [hstay (o, x.result o.1 o.2) (by simp [Session.outcomes])] at hmade
      cases hmade
    · obtain ⟨hle, hnext, hgiven⟩ := h.advances ho hbefore hgoes
      obtain ⟨hle', events', hevents', hgiven'⟩ := ih (h.goes hb hsame hgoes) hnext
        (fun o' ho' => hkept o' (by simp [ho'])) fun y hy => hstay y (by simp [Session.outcomes, hy])
      refine ⟨UInt64.le_trans hle hle', events ++ events', ?_, ?_⟩
      · rw [← List.append_assoc, ← hevents]
        exact hevents'
      · intro id payload t hm
        rcases List.mem_append.mp hm with hm | hm
        · obtain ⟨hlow, hhigh⟩ := hgiven id payload t hm
          exact ⟨hlow, UInt64.le_trans hhigh hle'⟩
        · obtain ⟨hlow, hhigh⟩ := hgiven' id payload t hm
          exact ⟨UInt64.le_trans hle hlow, hhigh⟩

/-- However a player of a recording is driven that its statistics bound, also one in which not all
can be read: its position is in the range of the statistics. Where moreover the log times are stored
in order, the position never goes back before the player is moved, whatever else is done and
whatever the clock reads, and each message given meanwhile is between the old position and the new
one; so after a move it is not below the time moved to, within the range, and no earlier message is
given, until the next move. -/
theorem position_stays_and_advances {d : Disk} {o : Options} (hopen : openFile d path o = .ok p)
    (hkept : Kept path file ids d) (hb : p.summary.Bounded file statistics) (k : σ)
    (os : List (World × Operation)) (hos : ∀ o ∈ os, Kept path file ids o.1.disk) :
    let x := (Session.start p k).run os
    (x.player.range = ⟨statistics.startTime, statistics.endTime⟩ ∧
      statistics.startTime ≤ x.player.currentTime ∧
      x.player.currentTime ≤ statistics.endTime) ∧
    (p.summary.InOrder file → ∀ more : List (World × Operation),
      (∀ o ∈ more, Kept path file ids o.1.disk) →
      (∀ y ∈ x.outcomes more, madeMove y.1.2 y.2 = false) →
      x.player.currentTime ≤ (x.run more).player.currentTime ∧ ∃ events,
        (x.run more).part.events = x.part.events ++ events ∧
        ∀ id payload t, .message id payload t ∈ events →
          x.player.currentTime ≤ t ∧ t ≤ (x.run more).player.currentTime) ∧
    (p.summary.InOrder file → ∀ w t q, Kept path file ids w.disk →
      x.player.seek w.disk t = .ok q → ∀ more : List (World × Operation),
      (∀ o ∈ more, Kept path file ids o.1.disk) →
      (∀ y ∈ (x.step w (.seek t)).outcomes more, madeMove y.1.2 y.2 = false) →
      let y := (x.step w (.seek t)).run more
      x.player.range.clamp t ≤ y.player.currentTime ∧
      ∀ id payload l, .message id payload l ∈ y.part.events → x.player.range.clamp t ≤ l) := by
  intro x
  obtain ⟨hbegin, hfirst⟩ := onRecording_of_openFile hopen hb hkept
  obtain ⟨h, hbefore⟩ := OnRecording.run (x := Session.start p k) hbegin hb hos
  refine ⟨⟨h.range_eq, h.start_le, h.le_end⟩, ?_, ?_⟩
  · intro ho more hmore hstay
    exact h.run_advances hb ho (hbefore ho hfirst) hmore hstay
  · intro ho w t q hw hq more hmore hstay y
    have hx : x.step w (.seek t) = ⟨q, x.sink, x.parts, ⟨x.player.range.clamp t, []⟩⟩ := by
      simp [Session.step, perform, hq]
    obtain ⟨hmoved, hahead, htime⟩ := h.moved hb hw hq
    have hrun := OnRecording.run_advances (x := x.step w (.seek t)) (hx ▸ hmoved) hb ho
      (hx ▸ hahead) hmore hstay
    obtain ⟨hle, events, hevents, hgiven⟩ := hrun
    simp only [hx, htime, List.nil_append] at hle hevents hgiven
    refine ⟨?_, ?_⟩
    · simpa [y, hx] using hle
    · intro id payload l hm
      have hm' : .message id payload l ∈ events := by simpa [y, hx, hevents] using hm
      exact (hgiven id payload l hm').1

end

/-- The messages of the sample in the order of log time; the summary is the same. -/
def orderly : File := .plain (writtenFile "/a" [[⟨1, 3, [2]⟩, ⟨1, 5, [1]⟩, ⟨1, 9, [3]⟩]])

def orderlyDisk : Disk := Disk.empty.write "a" orderly.bytes

/-- The first message, a second that has to wait, and a clock that goes back. -/
def orderlyBegin : List (World × Operation) :=
  [(⟨7, orderlyDisk⟩, .play), (⟨7, orderlyDisk⟩, .next), (⟨8, orderlyDisk⟩, .next),
    (⟨2, orderlyDisk⟩, .setSpeed .nan)]

def orderlyBegun : Session Recorder := (Session.start samplePlayer Recorder.empty).run orderlyBegin

/-- A move that fails, and then on to the end. -/
def orderlyEnd : List (World × Operation) :=
  [(⟨2, orderlyDisk.remove "a"⟩, .seek 0), (⟨2, orderlyDisk⟩, .next), (⟨900, orderlyDisk⟩, .next),
    (⟨900, orderlyDisk⟩, .next)]

theorem orderly_bounded : sampleSummary.Bounded orderly ⟨3, 3, 9⟩ where
  statistics_eq := rfl
  start_le_end := by decide
  within := by decide +kernel

theorem orderlyDisk_kept {d : Disk} (h : d = orderlyDisk ∨ d = orderlyDisk.remove "a") :
    Kept "a" orderly (· = 0) d := by
  rcases h with rfl | rfl
  · exact .written "a" orderly.bytes
  · exact .remove (.written "a" orderly.bytes)

theorem orderly_position_advances :
    openFile orderlyDisk "a" .default = .ok samplePlayer ∧
    Kept "a" orderly (· = 0) orderlyDisk ∧ sampleSummary.Bounded orderly ⟨3, 3, 9⟩ ∧
    sampleSummary.InOrder orderly ∧ 3 ≤ orderlyBegun.player.currentTime ∧
    orderlyBegun.player.currentTime ≤ (orderlyBegun.run orderlyEnd).player.currentTime ∧
    (∃ q, orderlyBegun.player.seek orderlyDisk 4 = .ok q) ∧
    let y := (orderlyBegun.step ⟨2, orderlyDisk⟩ (.seek 4)).run orderlyEnd
    4 ≤ y.player.currentTime ∧ (∀ id payload l, .message id payload l ∈ y.part.events → 4 ≤ l) ∧
    y.part.messages = [.message 1 [1] 5, .message 1 [3] 9] := by
  have hopens : openFile orderlyDisk "a" .default = .ok samplePlayer :=
    eq_ok_of_toOption (by decide +kernel)
  have hdisks : ∀ o ∈ orderlyBegin ++ orderlyEnd,
      o.1.disk = orderlyDisk ∨ o.1.disk = orderlyDisk.remove "a" := by
    simp [orderlyBegin, orderlyEnd]
  have hbegin : ∀ o ∈ orderlyBegin, Kept "a" orderly (· = 0) o.1.disk :=
    fun o ho => orderlyDisk_kept (hdisks o (List.mem_append_left _ ho))
  have hmore : ∀ o ∈ orderlyEnd, Kept "a" orderly (· = 0) o.1.disk :=
    fun o ho => orderlyDisk_kept (hdisks o (List.mem_append_right _ ho))
  have hkept : Kept "a" orderly (· = 0) orderlyDisk := orderlyDisk_kept (.inl rfl)
  have horder : sampleSummary.InOrder orderly := by decide +kernel
  have hclamp : orderlyBegun.player.range.clamp 4 = 4 := by decide +kernel
  have hseek : orderlyBegun.player.seek orderlyDisk 4 = .ok { orderlyBegun.player with
      cursor := ⟨4, [], sampleSummary.chunks⟩
      pending := none
      pace := none
      currentTime := 4 } := eq_ok_of_toOption (by decide +kernel)
  have hbegun : (Session.start samplePlayer Recorder.empty).run orderlyBegin = orderlyBegun := rfl
  obtain ⟨⟨_, hstart, _⟩, hforward, hmoved⟩ := position_stays_and_advances hopens hkept
    orderly_bounded Recorder.empty orderlyBegin hbegin
  rw [hbegun] at hstart hforward hmoved
  obtain ⟨hlater, -⟩ := hforward horder orderlyEnd hmore (by decide +kernel)
  obtain ⟨hle, hgiven⟩ := hmoved horder ⟨2, orderlyDisk⟩ 4 _ hkept hseek orderlyEnd hmore
    (by decide +kernel)
  rw [hclamp] at hle hgiven
  exact ⟨hopens, hkept, orderly_bounded, horder, hstart, hlater, ⟨_, hseek⟩, hle, hgiven,
    by decide +kernel⟩

end Player

end Replay
