import Replay.Proofs.Player.InStep
import Replay.Proofs.Player.PlayThrough

/-!
A run of a player, and the same run with interludes: in each the player is paused, time goes by, and
it is resumed. Main statement: `interludes_are_invisible`, nothing but the clock tells the two runs
apart.
-/

namespace Replay.Player

open Recording

/-- A player with its sink, and the clock that it reads. -/
structure Timed (σ : Type) where
  clock : Clock
  player : Player
  sink : σ

inductive Action where
  | advance (span : Nanos)
  /-- An operation, with the disk as it is then. -/
  | perform (d : Disk) (o : Operation)

/-- What leaves a paused player paused, whatever it is told. -/
inductive Idling where
  | advance (span : Nanos)
  | next
  | pause

def Idling.action (d : Disk) : Idling → Action
  | .advance span => .advance span
  | .next => .perform d .next
  | .pause => .perform d .pause

/-- An action of a run, or an interlude between two of them. -/
inductive Passage where
  | action (a : Action)
  | interlude (d : Disk) (idling : List Idling)

namespace Passage

/-- What a passage is in the run with interludes. -/
def actions : Passage → List Action
  | .action a => [a]
  | .interlude d idling => .perform d .pause :: idling.map (·.action d) ++ [.perform d .play]

/-- What a passage is in the run without them. -/
def plain : Passage → List Action
  | .action a => [a]
  | .interlude _ _ => []

def fullRun (ps : List Passage) : List Action := ps.flatMap actions

def plainRun (ps : List Passage) : List Action := ps.flatMap plain

end Passage

namespace Action

def span : Action → Nanos
  | .advance span => span
  | .perform _ _ => 0

/-- A speed that is set is a whole number. -/
def Whole : Action → Prop
  | .perform _ (.setSpeed v) => v.Whole
  | _ => True

instance : DecidablePred Whole
  | .perform _ (.setSpeed v) => inferInstanceAs (Decidable v.Whole)
  | .perform _ .play | .perform _ .pause | .perform _ (.seek _) | .perform _ .next
  | .advance _ => inferInstanceAs (Decidable True)

/-- The wall time in which actions happen. -/
def duration (as : List Action) : Nat := (as.map fun a => a.span.toNat).sum

theorem duration_append (as bs : List Action) :
    duration (as ++ bs) = duration as + duration bs := by
  simp [duration]

end Action

/-- A player that is paused is left as it is by a pause. -/
theorem Coherent.pause_eq {p : Player} (h : p.Coherent) (hp : p.status = .paused) (now : Nanos) :
    p.pause now = p := by
  have hpace : (p.pace.map fun x => { x with timeline := x.timeline.pause now }) = p.pace := by
    cases hx : p.pace with
    | none => rfl
    | some x => simp [Timeline.pause, h.rests hp x hx]
  rw [Player.pause, if_neg (by simp [hp]), hpace, ← hp]

open Player.Action Player.Passage

namespace Timed

variable {σ : Type}

/-- If the timeline runs, the product of the time since its anchor and its speed has 53 bits. -/
def Small (x : Timed σ) : Prop :=
  ∀ pace ∈ x.player.pace, pace.timeline.paused = false →
    pace.timeline.speed.Small (Nanos.minus x.clock.now pace.timeline.anchor)

instance (x : Timed σ) : Decidable x.Small := inferInstanceAs (Decidable (∀ _ ∈ _, _))

variable [Sink σ]

/-- What an action is answered, and what it leads to. -/
def act (x : Timed σ) : Action → Reply × Timed σ
  | .advance span => (.idle, { x with clock := x.clock.advance span })
  | .perform d o =>
    let (answer, player, k) := x.player.perform ⟨x.clock.now, d⟩ (⟨x.sink, []⟩ : Traced σ) o
    (⟨answer, k.events⟩, ⟨x.clock, player, k.sink⟩)

def run (x : Timed σ) (as : List Action) : Timed σ := as.foldl (fun x a => (x.act a).2) x

def replies (x : Timed σ) : List Action → List Reply
  | [] => []
  | a :: as => (x.act a).1 :: (x.act a).2.replies as

/-- What a run without interludes has to be and where these may stand: the products have 53 bits,
the speeds that are set are whole numbers, and an interlude comes while the player plays. -/
def Admits (x : Timed σ) : List Passage → Prop
  | [] => x.Small
  | .action a :: ps => x.Small ∧ a.Whole ∧ (x.act a).2.Admits ps
  | .interlude _ _ :: ps => x.player.status = .playing ∧ x.Admits ps

def decideAdmits (x : Timed σ) : (ps : List Passage) → Decidable (x.Admits ps)
  | [] => inferInstanceAs (Decidable x.Small)
  | .action a :: ps =>
    have := decideAdmits (x.act a).2 ps
    inferInstanceAs (Decidable (_ ∧ _ ∧ _))
  | .interlude _ _ :: ps =>
    have := decideAdmits x ps
    inferInstanceAs (Decidable (_ ∧ _))

instance (x : Timed σ) : DecidablePred x.Admits := x.decideAdmits

variable {x y : Timed σ} {d : Disk}

theorem run_append (x : Timed σ) (as bs : List Action) : x.run (as ++ bs) = (x.run as).run bs :=
  List.foldl_append

theorem replies_append (x : Timed σ) (as bs : List Action) :
    x.replies (as ++ bs) = x.replies as ++ (x.run as).replies bs := by
  induction as generalizing x with
  | nil => rfl
  | cons a as ih => exact congrArg ((x.act a).1 :: ·) (ih _)

theorem clock_act (x : Timed σ) (a : Action) : (x.act a).2.clock = x.clock.advance a.span := by
  cases a with
  | advance span => rfl
  | perform d o => simp [act, span, Clock.advance]

theorem toNat_clock_run (x : Timed σ) {as : List Action}
    (h : x.clock.now.toNat + duration as < UInt64.size) :
    (x.run as).clock.now.toNat = x.clock.now.toNat + duration as := by
  induction as generalizing x with
  | nil => rfl
  | cons a as ih =>
    have hduration : duration (a :: as) = a.span.toNat + duration as := rfl
    rw [hduration] at h ⊢
    have hfirst : x.clock.now.toNat + a.span.toNat < UInt64.size := by omega
    have hnow : (x.act a).2.clock.now.toNat = x.clock.now.toNat + a.span.toNat := by
      rw [clock_act, Clock.advance, UInt64.toNat_add, Nat.mod_eq_of_lt hfirst]
    have hrest := ih (x.act a).2 (by omega)
    rw [hnow, Nat.add_assoc] at hrest
    exact hrest

theorem Admits.small {ps : List Passage} (h : x.Admits ps) : x.Small := by
  induction ps with
  | nil => exact h
  | cons p ps ih =>
    cases p with
    | action a => exact h.1
    | interlude d idling => exact ih h.2

/-- Two players in step, with the same sink; the second clock has not been read earlier. -/
structure InStep (x y : Timed σ) : Prop where
  clock_le : x.clock.now ≤ y.clock.now
  player : x.player.InStep x.clock.now y.clock.now y.player
  sink_eq : y.sink = x.sink
  coherent : x.player.Coherent
  coherent' : y.player.Coherent
  whole : x.player.speed.Whole

/-- The player is paused, and so is its timeline. -/
structure Rests (x : Timed σ) : Prop where
  paused : x.player.status = .paused
  coherent : x.player.Coherent

theorem perform_whole {a : Action} (ha : a.Whole) (h : x.player.speed.Whole) :
    (x.act a).2.player.speed.Whole := by
  cases a with
  | advance span => exact h
  | perform d o =>
    have hspeed := (perform_range_speed ⟨x.clock.now, d⟩ x.player (⟨x.sink, []⟩ : Traced σ) o
      (Speed.clamp_value x.player.speed).symm).2
    have hset : (x.act (.perform d o)).2.player.speed =
      (x.player.perform ⟨x.clock.now, d⟩ (⟨x.sink, []⟩ : Traced σ) o).2.1.speed := rfl
    rw [hset, hspeed]
    cases o with
    | setSpeed v => exact Speed.whole_clamp ha
    | play | pause | seek | next => exact (Speed.clamp_value x.player.speed).symm ▸ h

/-- What happens in both runs is answered alike and leaves them in step. -/
theorem InStep.act (h : x.InStep y) {a : Action} (ha : a.Whole) (hsmall : (x.act a).2.Small)
    (hclock : y.clock.now.toNat + a.span.toNat < UInt64.size) :
    (y.act a).1 = (x.act a).1 ∧ (x.act a).2.InStep (y.act a).2 := by
  have hwhole := perform_whole ha h.whole
  cases a with
  | advance span =>
    refine ⟨rfl, ?_, ?_, h.sink_eq, h.coherent, h.coherent', h.whole⟩
    · have hle := UInt64.le_iff_toNat_le.mp h.clock_le
      change y.clock.now.toNat + span.toNat < UInt64.size at hclock
      have hclock₀ := Nat.lt_of_le_of_lt (Nat.add_le_add_right hle span.toNat) hclock
      simp only [Timed.act, Clock.advance]
      rw [UInt64.le_iff_toNat_le, UInt64.toNat_add, UInt64.toNat_add, Nat.mod_eq_of_lt hclock,
        Nat.mod_eq_of_lt hclock₀]
      exact Nat.add_le_add_right hle _
    · exact h.player.advance h.coherent h.whole h.clock_le hclock fun pace hpace => hsmall pace hpace
  | perform d o =>
    have halike := h.player.perform d (⟨x.sink, []⟩ : Traced σ) o
    have hcoherent := h.coherent.perform ⟨x.clock.now, d⟩ (⟨x.sink, []⟩ : Traced σ) o
    have hcoherent' := h.coherent'.perform ⟨y.clock.now, d⟩ (⟨x.sink, []⟩ : Traced σ) o
    rw [Timed.act, Timed.act, h.sink_eq]
    exact ⟨congrArg₂ Reply.mk halike.answer_eq (congrArg Traced.events halike.sink_eq),
      h.clock_le, halike.player, congrArg Traced.sink halike.sink_eq, hcoherent,
      hcoherent', hwhole⟩

/-- A paused player gives no answer and stays as it is, while its clock goes on. -/
theorem Rests.act (h : x.Rests) (d : Disk) (i : Idling) :
    x.act (i.action d) = (.idle, { x with clock := x.clock.advance (i.action d).span }) := by
  cases i with
  | advance span => rfl
  | next =>
    have hquiet : x.player.logNext ⟨x.clock.now, d⟩ (⟨x.sink, []⟩ : Traced σ) =
        (.ok none, x.player, ⟨x.sink, []⟩) := logNext_of_not_playing (by simp [h.paused])
    simp [Idling.action, Timed.act, perform, hquiet, span, Clock.advance, Reply.idle]
  | pause => simp [Idling.action, Timed.act, perform, h.coherent.pause_eq h.paused, span, Clock.advance, Reply.idle]

theorem Rests.run (h : x.Rests) (d : Disk) (is : List Idling) :
    ∃ clock, x.run (is.map (·.action d)) = { x with clock } ∧
      x.replies (is.map (·.action d)) = List.replicate is.length .idle := by
  induction is generalizing x with
  | nil => exact ⟨x.clock, rfl, rfl⟩
  | cons i is ih =>
    have hact := h.act d i
    obtain ⟨clock, hrun, hreplies⟩ :=
      ih (x := { x with clock := x.clock.advance (i.action d).span }) ⟨h.paused, h.coherent⟩
    refine ⟨clock, ?_, ?_⟩
    · rw [List.map_cons, Timed.run, List.foldl_cons, hact]
      exact hrun
    · rw [List.map_cons, replies, hact, hreplies]
      rfl

/-- An interlude tells nothing, and leaves what was in step in step. -/
theorem InStep.interlude (h : x.InStep y) (hp : x.player.status = .playing) (d : Disk)
    (is : List Idling)
    (hclock : y.clock.now.toNat + duration (Passage.interlude d is).actions < UInt64.size) :
    y.replies (Passage.interlude d is).actions = List.replicate (is.length + 2) .idle ∧
      x.InStep (y.run (Passage.interlude d is).actions) := by
  have hstatus : y.player.status = .playing := h.player.status_eq.trans hp
  let z : Timed σ := { y with player := y.player.pause y.clock.now }
  have hpause : y.act (.perform d .pause) = (.idle, z) := rfl
  have hrests : z.Rests := ⟨by simp [z, Player.pause, hstatus], h.coherent'.pause _⟩
  obtain ⟨clock, hrun, hreplies⟩ := hrests.run d is
  have hend : y.run (Passage.interlude d is).actions =
      ⟨clock, (y.player.pause y.clock.now).play clock.now, y.sink⟩ := by
    rw [Passage.actions, List.cons_append, run, List.foldl_cons, hpause]
    change z.run (is.map (·.action d) ++ [.perform d .play]) = _
    rw [run_append, hrun]
    rfl
  have hlater := y.toNat_clock_run hclock
  rw [hend] at hlater ⊢
  refine ⟨?_, ?_, h.player.interlude h.coherent hp clock.now, h.sink_eq, h.coherent,
    (h.coherent'.pause _).play _, h.whole⟩
  · rw [Passage.actions, List.cons_append, replies, hpause, replies_append, hreplies, hrun,
      List.replicate_succ, List.replicate_succ']
    rfl
  · refine UInt64.le_trans h.clock_le (UInt64.le_iff_toNat_le.mpr ?_)
    rw [hlater]
    exact Nat.le_add_right _ _

/-- As far as they go the two runs stay in step. What is left is admitted from there, and its time
left on the clock. -/
theorem InStep.run (h : x.InStep y) {before behind : List Passage}
    (hadmits : x.Admits (before ++ behind))
    (hclock : y.clock.now.toNat + duration (fullRun (before ++ behind)) < UInt64.size) :
    (x.run (plainRun before)).InStep (y.run (fullRun before)) ∧
      (x.run (plainRun before)).Admits behind ∧
      (y.run (fullRun before)).clock.now.toNat + duration (fullRun behind) < UInt64.size := by
  induction before generalizing x y with
  | nil => exact ⟨h, hadmits, hclock⟩
  | cons p before ih =>
    have hfull : fullRun (p :: before) = p.actions ++ fullRun before := rfl
    have hplain : plainRun (p :: before) = p.plain ++ plainRun before := rfl
    have hduration : duration (fullRun (p :: (before ++ behind))) =
        duration p.actions + duration (fullRun (before ++ behind)) := duration_append _ _
    rw [List.cons_append, hduration] at hclock
    have hfirst : y.clock.now.toNat + duration p.actions < UInt64.size := by omega
    have hstep : (x.run p.plain).InStep (y.run p.actions) ∧
        (x.run p.plain).Admits (before ++ behind) := by
      cases p with
      | action a =>
        obtain ⟨-, ha, hrest⟩ := hadmits
        exact ⟨(h.act ha hrest.small hfirst).2, hrest⟩
      | interlude d is => exact ⟨(h.interlude hadmits.1 d is hfirst).2, hadmits.2⟩
    rw [hfull, hplain, run_append, run_append]
    refine ih hstep.1 hstep.2 ?_
    rw [y.toNat_clock_run hfirst]
    omega

omit [Sink σ] in
theorem inStep_of_openFile {path : String} {o : Options} {p : Player}
    (hopen : openFile d path o = .ok p) (hwhole : o.initialSpeed.Whole) (clock : Clock) (s : σ) :
    InStep ⟨clock, p, s⟩ ⟨clock, p, s⟩ := by
  have hcoherent := coherent_of_openFile hopen
  obtain ⟨_, _, _, hpace, -⟩ := openFile_ok hopen
  have hspeed : p.speed.Whole := by
    obtain ⟨_, _, _, _, _, _, _, _, _, rfl⟩ := openFile_opened hopen
    exact Speed.whole_clamp hwhole
  exact ⟨UInt64.le_refl _, inStep_of_no_pace hpace _ _, rfl, hcoherent, hcoherent, hspeed⟩

end Timed

variable {σ : Type} [Sink σ]

/-- A recording is opened at a speed that is a whole number, and played, moved, paused and read from
at will, whatever the disk holds on the way; speeds that are set are whole numbers, and the time for
which log time runs has 53 bits, also multiplied by the speed. At moments at which the player plays
it is paused, and resumed after any mix of time, reading and further pauses, and no reading of the
clock is beyond the largest word. Then every operation of the run is answered as it is without the
pauses, with the same wait or error and the same calls of the sink; what happens in between is
answered with nothing and tells the sink nothing; and at each moment of the run position, status,
speed and sink are the same. -/
theorem interludes_are_invisible {d : Disk} {path : String} {o : Options} {p : Player}
    (hopen : openFile d path o = .ok p) (hwhole : o.initialSpeed.Whole) (clock : Clock) (s : σ)
    {ps : List Passage} (hadmits : Timed.Admits ⟨clock, p, s⟩ ps)
    (hclock : clock.now.toNat + duration (fullRun ps) < UInt64.size) :
    let x : Timed σ := ⟨clock, p, s⟩
    (∀ before a behind, ps = before ++ .action a :: behind →
      ((x.run (fullRun before)).act a).1 = ((x.run (plainRun before)).act a).1) ∧
    (∀ before d is behind, ps = before ++ .interlude d is :: behind →
      (x.run (fullRun before)).replies (Passage.interlude d is).actions =
        List.replicate (is.length + 2) .idle) ∧
    (∀ before behind, ps = before ++ behind →
      let y := x.run (plainRun before)
      let z := x.run (fullRun before)
      z.player.currentTime = y.player.currentTime ∧ z.player.status = y.player.status ∧
        z.player.speed = y.player.speed ∧ z.sink = y.sink) := by
  intro x
  have hstart : x.InStep x := Timed.inStep_of_openFile hopen hwhole clock s
  refine ⟨?_, ?_, ?_⟩
  · rintro before a behind rfl
    obtain ⟨hstep, ⟨-, ha, hrest⟩, hroom⟩ := hstart.run hadmits hclock
    have hspan : duration (fullRun (.action a :: behind)) =
        a.span.toNat + duration (fullRun behind) := duration_append [a] _
    exact (hstep.act ha hrest.small (by omega)).1
  · rintro before d is behind rfl
    obtain ⟨hstep, hadmits', hroom⟩ := hstart.run hadmits hclock
    have hspan : duration (fullRun (.interlude d is :: behind)) =
        duration (Passage.interlude d is).actions + duration (fullRun behind) := duration_append _ _
    exact (hstep.interlude hadmits'.1 d is (by omega)).1
  · rintro before behind rfl
    obtain ⟨hstep, -⟩ := hstart.run hadmits hclock
    obtain ⟨pace, hplayer, -⟩ := hstep.player
    refine ⟨?_, ?_, ?_, hstep.sink_eq⟩ <;> rw [hplayer]

/-- Two messages are given and a third waits, at a speed that is doubled meanwhile. -/
def sampleWait : List Passage :=
  [.action (.perform sampleDisk .play), .interlude sampleDisk [.advance 70, .next, .pause],
    .action (.perform sampleDisk .next), .action (.perform sampleDisk .next),
    .interlude sampleDisk [.next], .action (.perform sampleDisk .next), .action (.advance 1),
    .action (.perform sampleDisk (.setSpeed (Binary64.ofNat 2))), .action (.advance 1)]

/-- The third is given, and after a move that fails and one that succeeds the first again. -/
def sampleRest : List Passage :=
  [.action (.advance 1), .action (.perform sampleDisk .next),
    .action (.perform .empty (.seek 4)), .action (.perform sampleDisk (.seek 4)),
    .interlude sampleDisk [.advance 9], .action (.perform sampleDisk .next)]

theorem interludes_in_sample :
    let x : Timed Recorder := ⟨⟨5⟩, samplePlayer, .empty⟩
    let idling : List Idling := [.pause, .advance 1000, .pause]
    let before := sampleWait ++ [.interlude sampleDisk idling]
    let ps := before ++ .action (.perform sampleDisk .next) :: sampleRest
    let y := x.run (plainRun before)
    let z := x.run (fullRun before)
    openFile sampleDisk "a" .default = .ok samplePlayer ∧ Options.default.initialSpeed.Whole ∧
    x.Admits ps ∧ (5 : Nanos).toNat + duration (fullRun ps) < UInt64.size ∧
    (z.act (.perform sampleDisk .next)).1 = (y.act (.perform sampleDisk .next)).1 ∧
    (y.act (.perform sampleDisk .next)).1.answer.toOption = some (some 1) ∧
    (x.run (fullRun sampleWait)).replies (Passage.interlude sampleDisk idling).actions =
      List.replicate 5 .idle ∧
    (x.run (fullRun ps)).sink = (x.run (plainRun ps)).sink ∧
    (x.run (plainRun ps)).sink.events.length = 5 ∧ y.clock = ⟨7⟩ ∧ z.clock = ⟨1077⟩ := by
  intro x idling before ps y z
  have hwhole : Options.default.initialSpeed.Whole := by decide +kernel
  have hadmits : x.Admits ps := by decide +kernel
  have hclock : (5 : Nanos).toNat + duration (fullRun ps) < UInt64.size := by decide +kernel
  obtain ⟨hanswers, hquiet, hstates⟩ :=
    interludes_are_invisible sample_opens hwhole ⟨5⟩ Recorder.empty hadmits hclock
  obtain ⟨-, -, -, hsink⟩ := hstates ps [] (List.append_nil _).symm
  exact ⟨sample_opens, hwhole, hadmits, hclock, hanswers before _ sampleRest rfl,
    by decide +kernel, hquiet sampleWait sampleDisk idling _ (List.append_assoc _ _ _), hsink,
    by decide +kernel, by decide +kernel, by decide +kernel⟩

end Replay.Player
