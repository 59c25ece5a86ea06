import Replay.Proofs.Player.Delivery
import Replay.Proofs.Player.Due

/-!
Playing a recording to its end by nothing but reading on, with a clock that goes on by the waits
that are asked for. Main statement: `plays_to_the_end`, every message is given after two waits at
most, and then the end is reached.
-/

namespace Replay.Player

open Recording

/-- What a call has answered, and what it has told the sink. -/
structure Reply where
  answer : Except Recording.Error (Option Nanos)
  events : List Event

/-- The time that is waited after a call. -/
def Reply.wait (c : Reply) : Nat :=
  match c.answer with
  | .ok (some span) => span.toNat
  | _ => 0

/-- A call that asks for a wait. -/
def Reply.waiting (span : Nanos) : Reply := ⟨.ok (some span), []⟩

/-- A call that has nothing to give. -/
def Reply.idle : Reply := ⟨.ok none, []⟩

/-- A run of reading on alone: the clock, what it has come to, and its calls. -/
structure PlayThrough (σ : Type) where
  clock : Nat
  session : Session σ
  calls : List Reply

/-- The messages are given one after the other, each after two waits at most, and after them one
call at least has nothing to give. -/
inductive PlaysOut : List Entry → List Reply → Prop where
  | ended (n : Nat) : PlaysOut [] (List.replicate (n + 1) .idle)
  | message {e : Entry} {es : List Entry} {waits : List Nanos} {id : ChannelId}
      {events : List Event} {rest : List Reply} (hwaits : waits.length ≤ 2)
      (hevents : events.filter Event.isMessage = [.message id e.payload e.logTime])
      (hrest : PlaysOut es rest) :
      PlaysOut (e :: es) (waits.map .waiting ++ ⟨.ok none, events⟩ :: rest)

namespace PlayThrough

variable {σ : Type} [Sink σ]

/-- Reads on once, with the disk as it is then, and waits as it is asked for. -/
def call (x : PlayThrough σ) (d : Disk) : PlayThrough σ :=
  let w : World := ⟨UInt64.ofNat x.clock, d⟩
  let (answer, _, k) := x.session.player.logNext w (⟨x.session.sink, []⟩ : Traced σ)
  let c : Reply := ⟨answer, k.events⟩
  ⟨x.clock + c.wait, x.session.step w .next, x.calls ++ [c]⟩

def run (x : PlayThrough σ) (ds : List Disk) : PlayThrough σ := ds.foldl call x

@[simp] theorem run_nil (x : PlayThrough σ) : x.run [] = x := rfl

@[simp] theorem run_cons (x : PlayThrough σ) (d : Disk) (ds : List Disk) :
    x.run (d :: ds) = (x.call d).run ds := rfl

theorem run_append (x : PlayThrough σ) (ds ds' : List Disk) :
    x.run (ds ++ ds') = (x.run ds).run ds' := List.foldl_append

theorem clock_le_run (x : PlayThrough σ) (ds : List Disk) : x.clock ≤ (x.run ds).clock := by
  induction ds generalizing x with
  | nil => exact Nat.le_refl _
  | cons d ds ih => exact Nat.le_trans (Nat.le_add_right _ _) (ih (x.call d))

/-- A player before a call: it plays a recording and has `es` still to give. -/
structure Awaiting (s : Summary) (path : String) (file : File) (ids : FileId → Prop)
    (x : PlayThrough σ) (es : List Entry) : Prop where
  delivering : Delivering s path file ids x.session
  playing : x.session.player.status = .playing
  upcoming_eq : x.session.player.upcoming file = es

/-- A run from `x` to `y` has given all of `es` and come to the end. -/
structure Finishes (file : File) (es : List Entry) (x y : PlayThrough σ) : Prop where
  ended : y.session.player.status = .ended
  upcoming_eq : y.session.player.upcoming file = []
  played : ∃ calls, y.calls = x.calls ++ calls ∧ PlaysOut es calls

variable {s : Summary} {path : String} {file : File} {ids : FileId → Prop} {x y z : PlayThrough σ}
  {e : Entry} {es : List Entry} {d : Disk} {t : Timeline}

omit [Sink σ] in
/-- A run that gives a message first. -/
theorem Finishes.message (h : Finishes file es y z) {waits : List Nanos} {id : ChannelId}
    {events : List Event} (hwaits : waits.length ≤ 2)
    (hevents : events.filter Event.isMessage = [.message id e.payload e.logTime])
    (hcalls : y.calls = x.calls ++ (waits.map .waiting ++ [⟨.ok none, events⟩])) :
    Finishes file (e :: es) x z := by
  obtain ⟨calls, hrest, hout⟩ := h.played
  refine ⟨h.ended, h.upcoming_eq, _, ?_, .message hwaits hevents hout⟩
  rw [hrest, hcalls, List.append_assoc, List.append_assoc]
  rfl

theorem call_eq {r : Except Recording.Error (Option Nanos)} {q : Player} {k : Traced σ}
    (hlog : x.session.player.logNext ⟨UInt64.ofNat x.clock, d⟩ (⟨x.session.sink, []⟩ : Traced σ) =
      (r, q, k)) :
    x.call d = ⟨x.clock + (⟨r, k.events⟩ : Reply).wait,
      ⟨q, k.sink, x.session.earlier,
        { x.session.part with events := x.session.part.events ++ k.events }⟩,
      x.calls ++ [⟨r, k.events⟩]⟩ := by
  simp only [call, Session.step, perform, hlog]

/-- A player that does not play has nothing to give. -/
theorem call_of_not_playing (hp : x.session.player.status ≠ .playing) (d : Disk) :
    x.call d = { x with calls := x.calls ++ [.idle] } := by
  rw [call_eq (logNext_of_not_playing hp), List.append_nil]
  rfl

theorem run_of_not_playing (hp : x.session.player.status ≠ .playing) (ds : List Disk) :
    x.run ds = { x with calls := x.calls ++ List.replicate ds.length .idle } := by
  induction ds generalizing x with
  | nil => simp
  | cons d ds ih =>
    have hrest := ih (x := { x with calls := x.calls ++ [.idle] }) hp
    rw [← call_of_not_playing hp d] at hrest
    rw [run_cons, hrest, call_of_not_playing hp d]
    simp [List.replicate_succ]

/-- After the last message a call comes to the end. -/
theorem Awaiting.ends (h : Awaiting s path file ids x []) (hread : s.Readable file)
    (hkept : Kept path file ids d) :
    (x.call d).session.player.status = .ended ∧ (x.call d).session.player.upcoming file = [] ∧
      (x.call d).calls = x.calls ++ [.idle] := by
  have hsummary := h.delivering.summary_eq
  obtain ⟨c, -, -, hrest, hlog⟩ := logNext_end (hsummary.symm ▸ hread)
    (hsummary.symm ▸ h.delivering.sound) (hkept.content _ h.delivering.file_mem) h.playing
    h.upcoming_eq (w := ⟨UInt64.ofNat x.clock, d⟩) (s := (⟨x.session.sink, []⟩ : Traced σ))
  rw [call_eq hlog]
  have hpending := (List.append_eq_nil_iff.mp h.upcoming_eq).1
  exact ⟨rfl, List.append_eq_nil_iff.mpr ⟨hpending, hrest⟩, rfl⟩

/-- Before a message a call asks for a wait or gives the message, as the timeline for it says; the
timeline runs on. -/
theorem Awaiting.next (h : Awaiting s path file ids x (e :: es)) (hread : s.Readable file)
    (hkept : Kept path file ids d)
    (ht : (x.session.player.paceFor (UInt64.ofNat x.clock) e).timeline = t) :
    (x.call d).session.player.pace.map Pace.timeline = some t ∧
    ((∃ span, t.until? (UInt64.ofNat x.clock) e.logTime = some span ∧
      (x.call d).clock = x.clock + span.toNat ∧ (x.call d).calls = x.calls ++ [.waiting span] ∧
      Awaiting s path file ids (x.call d) (e :: es)) ∨
    (t.until? (UInt64.ofNat x.clock) e.logTime = none ∧
      (∃ id events, (x.call d).calls = x.calls ++ [⟨.ok none, events⟩] ∧
        events.filter Event.isMessage = [.message id e.payload e.logTime]) ∧
      Awaiting s path file ids (x.call d) es)) := by
  subst ht
  have hsummary := h.delivering.summary_eq
  have hstep : Delivering s path file ids (x.call d).session :=
    h.delivering.step hread (w := ⟨UInt64.ofNat x.clock, d⟩) hkept .next
  obtain ⟨c, -, -, hrest, ⟨span, huntil, -, hlog⟩ | ⟨huntil, hlog⟩⟩ :=
    logNext_next (hsummary.symm ▸ hread) (hsummary.symm ▸ h.delivering.sound)
      (hkept.content _ h.delivering.file_mem) h.playing h.upcoming_eq
      (w := ⟨UInt64.ofNat x.clock, d⟩) (s := (⟨x.session.sink, []⟩ : Traced σ))
  · rw [call_eq hlog] at hstep ⊢
    exact ⟨rfl, Or.inl ⟨span, huntil, rfl, rfl, hstep, h.playing, congrArg (e :: ·) hrest⟩⟩
  · obtain ⟨id, channels, sink, before, hemit, hno, -, -⟩ := emit_traced e
      ((x.session.player.paceFor (UInt64.ofNat x.clock) e).limiter.pass? e.logTime).isSome
      (passing (UInt64.ofNat x.clock) e { x.session.player with cursor := c }) x.session.sink
    rw [hemit] at hlog
    have hmessage : (before ++ [Event.message id e.payload e.logTime]).filter Event.isMessage =
        [.message id e.payload e.logTime] := by
      rw [List.filter_append, hno]
      rfl
    have hdue := huntil.resolve_right (Timeline.until?_ne_zero _)
    rw [call_eq hlog] at hstep ⊢
    exact ⟨rfl, Or.inr ⟨hdue, ⟨id, _, rfl, hmessage⟩, hstep, h.playing, hrest⟩⟩

omit [Sink σ] in
theorem timeline_paceFor {p : Player} (h : p.pace.map Pace.timeline = some t) (now : Nanos)
    (e : Entry) : (p.paceFor now e).timeline = t := by
  obtain ⟨pace, hpace, rfl⟩ := Option.map_eq_some_iff.mp h
  rw [paceFor_of_some hpace]

/-- On a timeline that runs a message is given after two waits at most. -/
theorem Awaiting.message (h : Awaiting s path file ids x (e :: es)) (hread : s.Readable file)
    (ht : x.session.player.pace.map Pace.timeline = some t) (hrun : t.paused = false)
    (hanchor : t.anchor.toNat ≤ x.clock) (hnear : e.logTime.toNat - t.base.toNat < 1 <<< 51)
    {ds : List Disk} (hkept : ∀ d ∈ ds, Kept path file ids d) (hmany : 3 ≤ ds.length)
    (hclock : (x.run ds).clock < UInt64.size) :
    ∃ (used rest : List Disk) (waits : List Nanos) (id : ChannelId) (events : List Event),
      ds = used ++ rest ∧ used.length = waits.length + 1 ∧ waits.length ≤ 2 ∧
      events.filter Event.isMessage = [.message id e.payload e.logTime] ∧
      (x.run used).calls = x.calls ++ (waits.map .waiting ++ [⟨.ok none, events⟩]) ∧
      (x.run used).session.player.pace.map Pace.timeline = some t ∧
      Awaiting s path file ids (x.run used) es := by
  obtain ⟨d₁, d₂, d₃, ds, rfl⟩ : ∃ d₁ d₂ d₃ rest, ds = d₁ :: d₂ :: d₃ :: rest := by
    match ds, hmany with
    | d₁ :: d₂ :: d₃ :: rest, _ => exact ⟨d₁, d₂, d₃, rest, rfl⟩
  obtain ⟨hty, ⟨span, hwait, hnow, hcalls, hy⟩ | ⟨-, ⟨id, events, hcalls, hmessage⟩, hy⟩⟩ :=
    h.next hread (hkept d₁ (by simp)) (timeline_paceFor ht _ e)
  · obtain ⟨htz, ⟨again, hagain, hthen, hmore, hz⟩ | ⟨-, ⟨id, events, hmore, hmessage⟩, hz⟩⟩ :=
      hy.next hread (hkept d₂ (by simp)) (timeline_paceFor hty _ e)
    · obtain ⟨hlast, ⟨third, hthird, _⟩ | ⟨-, ⟨id, events, hgiven, hmessage⟩, hgive⟩⟩ :=
        hz.next hread (hkept d₃ (by simp)) (timeline_paceFor htz _ e)
      · rw [run_cons, run_cons] at hclock
        have hfits := Nat.lt_of_le_of_lt (clock_le_run ((x.call d₁).call d₂) (d₃ :: ds)) hclock
        rw [hthen, hnow] at hthird hfits
        rw [hnow] at hagain
        rw [t.until?_after_second_wait hrun hanchor hnear hwait hagain hfits] at hthird
        cases hthird
      · refine ⟨[d₁, d₂, d₃], ds, [span, again], id, events, rfl, rfl, Nat.le_refl 2, hmessage, ?_⟩
        simp only [run_cons, run_nil]
        refine ⟨?_, hlast, hgive⟩
        rw [hgiven, hmore, hcalls, List.append_assoc, List.append_assoc]
        rfl
    · refine ⟨[d₁, d₂], d₃ :: ds, [span], id, events, rfl, rfl, Nat.le_succ 1, hmessage, ?_⟩
      simp only [run_cons, run_nil]
      refine ⟨?_, htz, hz⟩
      rw [hmore, hcalls, List.append_assoc]
      rfl
  · exact ⟨[d₁], d₂ :: d₃ :: ds, [], id, events, rfl, rfl, Nat.zero_le 2, hmessage, hcalls, hty, hy⟩

/-- After the last message the end is reached, and nothing more is given. -/
theorem Awaiting.stops (h : Awaiting s path file ids x []) (hread : s.Readable file)
    {ds : List Disk} (hkept : ∀ d ∈ ds, Kept path file ids d) (hmany : 1 ≤ ds.length) :
    Finishes file [] x (x.run ds) := by
  obtain ⟨d, ds, rfl⟩ := List.exists_cons_of_length_pos hmany
  obtain ⟨hended, hnone, hcalls⟩ := h.ends hread (hkept d List.mem_cons_self)
  rw [run_cons, run_of_not_playing (by rw [hended]; decide), hcalls, List.append_assoc]
  exact ⟨hended, hnone, _, rfl, .ended ds.length⟩

/-- On a timeline that runs all messages are given, and then the end is reached. -/
theorem Awaiting.plays (h : Awaiting s path file ids x es) (hread : s.Readable file)
    (ht : x.session.player.pace.map Pace.timeline = some t) (hrun : t.paused = false)
    (hanchor : t.anchor.toNat ≤ x.clock)
    (hnear : ∀ e ∈ es, e.logTime.toNat - t.base.toNat < 1 <<< 51) {ds : List Disk}
    (hkept : ∀ d ∈ ds, Kept path file ids d) (hmany : 3 * es.length + 1 ≤ ds.length)
    (hclock : (x.run ds).clock < UInt64.size) :
    Finishes file es x (x.run ds) := by
  induction es generalizing x ds with
  | nil => exact h.stops hread hkept hmany
  | cons e es ih =>
    rw [List.length_cons] at hmany
    obtain ⟨used, rest, waits, id, events, rfl, hused, hwaits, hmessage, hcalls, hty, hy⟩ :=
      h.message hread ht hrun hanchor (hnear e List.mem_cons_self) hkept (by omega) hclock
    rw [List.length_append] at hmany
    rw [run_append] at hclock ⊢
    have hrest : Finishes file es (x.run used) ((x.run used).run rest) :=
      ih hy hty (Nat.le_trans hanchor (clock_le_run x used))
        (fun e' he => hnear e' (List.mem_cons_of_mem e he))
        (fun d hd => hkept d (List.mem_append_right used hd)) (by omega) hclock
    exact hrest.message hwaits hmessage hcalls

/-- A player that has given nothing yet starts a timeline with the first message, which is given at
once; so it plays to the end if all messages are near the first. -/
theorem Awaiting.plays_from_first (h : Awaiting s path file ids x es) (hread : s.Readable file)
    (hpace : x.session.player.pace = none)
    (hnear : ∀ first ∈ es.head?, ∀ e ∈ es, e.logTime.toNat < first.logTime.toNat + 1 <<< 51)
    {ds : List Disk} (hkept : ∀ d ∈ ds, Kept path file ids d)
    (hmany : 3 * es.length + 1 ≤ ds.length) (hclock : (x.run ds).clock < UInt64.size) :
    Finishes file es x (x.run ds) := by
  cases es with
  | nil => exact h.stops hread hkept hmany
  | cons e es =>
    obtain ⟨d, ds, rfl⟩ := List.exists_cons_of_length_pos (Nat.le_trans (by omega) hmany)
    rw [List.length_cons, List.length_cons] at hmany
    rw [run_cons] at hclock ⊢
    obtain ⟨ht, ⟨span, hwait, _⟩ | ⟨_, ⟨id, events, hcalls, hmessage⟩, hy⟩⟩ :=
      h.next hread (hkept d List.mem_cons_self)
        (congrArg Pace.timeline (paceFor_of_none hpace (UInt64.ofNat x.clock) e))
    · rw [Timeline.until_start] at hwait
      cases hwait
    · have hanchor : (UInt64.ofNat x.clock).toNat ≤ (x.call d).clock := by
        rw [UInt64.toNat_ofNat']
        exact Nat.le_trans (Nat.mod_le _ _) (Nat.le_add_right _ _)
      have hrest : Finishes file es (x.call d) ((x.call d).run ds) := by
        refine hy.plays hread ht rfl hanchor ?_ (fun d' hd => hkept d' (List.mem_cons_of_mem d hd))
          (by omega) hclock
        intro e' he
        have := hnear e rfl e' (List.mem_cons_of_mem e he)
        rw [Timeline.base_start]
        omega
      have hwaits : ([] : List Nanos).length ≤ 2 := Nat.zero_le 2
      exact hrest.message hwaits hmessage hcalls

theorem delivering_run (h : Delivering s path file ids x.session) (hread : s.Readable file)
    {ds : List Disk} (hkept : ∀ d ∈ ds, Kept path file ids d) :
    Delivering s path file ids (x.run ds).session := by
  induction ds generalizing x with
  | nil => exact h
  | cons d ds ih =>
    exact ih (h.step hread (w := ⟨UInt64.ofNat x.clock, d⟩) (hkept d List.mem_cons_self) .next)
      fun d' hd => hkept d' (List.mem_cons_of_mem d hd)

/-- Reading on stays in its part. -/
theorem start_run (x : PlayThrough σ) (ds : List Disk) :
    (x.run ds).session.part.start = x.session.part.start := by
  induction ds generalizing x with
  | nil => rfl
  | cons d ds ih =>
    rw [run_cons, ih, call_eq rfl]

end PlayThrough

/-- However a player of a readable recording was driven: if it plays and has given no message since
it was opened or moved, then reading on, with a clock that goes on by the waits that are asked for
and does not overflow, gives all the messages from there on, at any speed, and comes to the end.
Each message takes three calls at most, of which all but the last ask for a wait; so three calls for
each message and one more are enough. The log times have to be less than 2^51 nanoseconds above that
of the first message given. -/
theorem plays_to_the_end {σ : Type} [Sink σ] {d : Disk} {path : String} {file : File}
    {ids : FileId → Prop} {o : Options} {p : Player} (hopen : openFile d path o = .ok p)
    (hread : p.summary.Readable file) (hkept : Kept path file ids d) (k : σ)
    (os : List (World × Operation)) (hos : ∀ o ∈ os, Kept path file ids o.1.disk) :
    let x := (Session.start p k).run os
    let es := p.summary.entriesFrom file x.part.start
    x.player.status = .playing → x.part.messages = [] →
    (∀ first ∈ es.head?, ∀ e ∈ es, e.logTime.toNat < first.logTime.toNat + 1 <<< 51) →
    ∀ (clock : Nat) (ds : List Disk), (∀ d ∈ ds, Kept path file ids d) →
      3 * es.length + 1 ≤ ds.length →
      let y := (PlayThrough.mk clock x []).run ds
      y.clock < UInt64.size →
      y.session.player.status = .ended ∧
      y.session.part.messages.map some = es.map y.session.player.logging ∧ PlaysOut es y.calls := by
  intro x es hplays hnone hnear clock ds hds hmany y hclock
  have hbegun : x.Begun := (Session.begun_start hopen k).run os
  have hx : Delivering p.summary path file ids x :=
    (Delivering.start hopen hread hkept k).run hread hos
  have hupcoming : x.player.upcoming file = es := by
    obtain ⟨given, hall, hgiven⟩ := hx.present
    rw [hnone, List.map_nil, eq_comm, List.map_eq_nil_iff] at hgiven
    rw [hgiven, List.nil_append] at hall
    exact hall.symm
  have hstart : PlayThrough.Awaiting p.summary path file ids ⟨clock, x, []⟩ es :=
    ⟨hx, hplays, hupcoming⟩
  obtain ⟨hended, hrest, calls, hcalls, hout⟩ : PlayThrough.Finishes file es ⟨clock, x, []⟩ y :=
    hstart.plays_from_first hread (hbegun hnone) hnear hds hmany hclock
  refine ⟨hended, ?_, hcalls ▸ hout⟩
  have hy : Delivering p.summary path file ids y.session :=
    PlayThrough.delivering_run hx hread hds
  have hpart : y.session.part.start = x.part.start := PlayThrough.start_run _ ds
  rw [hy.upcoming_eq_nil_iff.mp hrest, hpart]

/-- The sample at half the speed, moved to 4 while it plays. -/
def sampleMoving : List (World × Operation) :=
  [(⟨0, sampleDisk⟩, .play), (⟨0, sampleDisk⟩, .setSpeed (Binary64.nearest false Magnitude.one 2)),
    (⟨7, sampleDisk⟩, .seek 4)]

def sampleMoved : Session Recorder := (Session.start samplePlayer Recorder.empty).run sampleMoving

def samplePlayedOut : PlayThrough Recorder :=
  (PlayThrough.mk 100 sampleMoved []).run (List.replicate 7 sampleDisk)

/-- The second of the two messages is given when the clock has gone on by 8. -/
theorem sample_plays_to_the_end :
    openFile sampleDisk "a" .default = .ok samplePlayer ∧ samplePlayer.summary.Readable sample ∧
    Kept "a" sample (· = 0) sampleDisk ∧ (∀ o ∈ sampleMoving, o.1.disk = sampleDisk) ∧
    sampleMoved.player.status = .playing ∧ sampleMoved.part.messages = [] ∧
    samplePlayer.summary.entriesFrom sample sampleMoved.part.start = [sampleFirst, sampleThird] ∧
    samplePlayedOut.clock = 108 ∧ samplePlayedOut.session.player.status = .ended ∧
    samplePlayedOut.session.part.messages.map some =
      [sampleFirst, sampleThird].map samplePlayedOut.session.player.logging ∧
    PlaysOut [sampleFirst, sampleThird] samplePlayedOut.calls := by
  have hkept : Kept "a" sample (· = 0) sampleDisk := sampleDisk_kept (.inl rfl)
  have hmoving : ∀ o ∈ sampleMoving, o.1.disk = sampleDisk := by simp [sampleMoving]
  have hplays : sampleMoved.player.status = .playing := by decide +kernel
  have hnone : sampleMoved.part.messages = [] := by decide +kernel
  have hentries : samplePlayer.summary.entriesFrom sample sampleMoved.part.start =
      [sampleFirst, sampleThird] := by decide +kernel
  have hclock : samplePlayedOut.clock = 108 := by decide +kernel
  have hfits : samplePlayedOut.clock < UInt64.size := by
    rw [hclock]
    decide
  obtain ⟨hended, hmessages, hout⟩ := plays_to_the_end sample_opens sample_readable hkept
    Recorder.empty sampleMoving (fun o ho => (hmoving o ho).symm ▸ hkept) hplays hnone
    (hentries ▸ by decide) 100 (List.replicate 7 sampleDisk)
    (fun d hd => List.eq_of_mem_replicate hd ▸ hkept) (hentries ▸ by decide) hfits
  exact ⟨sample_opens, sample_readable, hkept, hmoving, hplays, hnone, hentries, hclock, hended,
    hentries ▸ hmessages, hentries ▸ hout⟩

end Replay.Player
