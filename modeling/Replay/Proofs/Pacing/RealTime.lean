import Replay.Proofs.Number.Exact
import Replay.Proofs.Pacing.Fresh

/-!
Playing at the speed of real time, under virtual time. A message is given to the sink at the first
whole millisecond at which it and all messages before it are due, however the sleeps are cut, and
the end is told once, together with the last message.
-/

namespace Replay

open Recording Player Pacing.Virtual

namespace Timeline

variable {l₀ l now₀ now : Nanos} {speed : Speed}

theorem toNat_current_start : ((start l₀ speed now₀).current now).toNat =
    min (l₀.toNat + (speed.logSpan (Nanos.minus now now₀)).toNat) Nanos.top.toNat := by
  have hl₀ := l₀.toNat_lt_size
  have hsize : UInt64.size = Nanos.top.toNat + 1 := rfl
  simp only [start, current, base, passed, Bool.false_eq_true, if_false, Nanos.toNat_plus,
    UInt64.toNat_zero]
  omega

theorem until_start_of_le (h : l ≤ (start l₀ speed now₀).current now) :
    (start l₀ speed now₀).until? now l = none := if_pos h

theorem until_start_of_lt (h : (start l₀ speed now₀).current now < l) :
    (start l₀ speed now₀).until? now l =
      some (speed.wallSpan (l - (start l₀ speed now₀).current now)) :=
  if_neg (UInt64.not_le.mpr h)

/-- At the speed of real time a log time is due when as much time has passed as lies between it and
the start. -/
theorem until_one {t₀ t : Nat} (ht : t₀ ≤ t) (hclock : t < 1 <<< 63)
    (hnear : t < t₀ + 1 <<< 53) (hl : l.toNat < l₀.toNat + 1 <<< 53) :
    (t₀ + (l.toNat - l₀.toNat) ≤ t ∧
      (start l₀ Speed.one (UInt64.ofNat t₀)).until? (UInt64.ofNat t) l = none) ∨
    (t < t₀ + (l.toNat - l₀.toNat) ∧ ∃ span,
      (start l₀ Speed.one (UInt64.ofNat t₀)).until? (UInt64.ofNat t) l = some span ∧
      span.toNat = t₀ + (l.toNat - l₀.toNat) - t) := by
  have hl' := l.toNat_lt_size
  have hsize : UInt64.size = Nanos.top.toNat + 1 := rfl
  have htop : 1 <<< 63 < UInt64.size := by decide
  have hnow : ∀ u, u < 1 <<< 63 → (UInt64.ofNat u).toNat = u := fun u hu =>
    UInt64.toNat_ofNat_of_lt' (Nat.lt_trans hu htop)
  have hpassed : (Nanos.minus (UInt64.ofNat t) (UInt64.ofNat t₀)).toNat = t - t₀ := by
    rw [Nanos.toNat_minus, hnow t hclock, hnow t₀ (Nat.lt_of_le_of_lt ht hclock)]
  have hspan : (Nanos.minus (UInt64.ofNat t) (UInt64.ofNat t₀)).toNat < 1 <<< 53 := by omega
  have hcurrent := @toNat_current_start l₀ (UInt64.ofNat t₀) (UInt64.ofNat t) Speed.one
  rw [Speed.logSpan_one hspan, hpassed] at hcurrent
  rcases UInt64.lt_or_le ((start l₀ Speed.one (UInt64.ofNat t₀)).current (UInt64.ofNat t)) l with
    hlt | hle
  · refine Or.inr ⟨?_, _, until_start_of_lt hlt, ?_⟩
    · rw [UInt64.lt_iff_toNat_lt, hcurrent] at hlt
      omega
    · have hsub := UInt64.toNat_sub_of_le _ _ (UInt64.le_of_lt hlt)
      rw [UInt64.lt_iff_toNat_lt] at hlt
      rw [hcurrent] at hsub hlt
      rw [Speed.wallSpan_one (by omega), hsub]
      omega
  · refine Or.inl ⟨?_, until_start_of_le hle⟩
    rw [UInt64.le_iff_toNat_le, hcurrent] at hle
    omega

end Timeline

namespace Pacing.Virtual

/-- The first whole millisecond at which log time `l` is due, if log time is `l₀` at `t₀`. -/
def dueAt (t₀ : Nat) (l₀ l : Nanos) : Nat := wake t₀ (l.toNat - l₀.toNat)

/-- The time at which all messages of a list are due, by the times at which log times are. -/
def allDueAt (due : Nanos → Nat) (es : List Entry) : Nat :=
  (es.map fun e => due e.logTime).foldr max 0

theorem allDueAt_nil (due : Nanos → Nat) : allDueAt due [] = 0 := rfl

theorem allDueAt_cons (due : Nanos → Nat) (e : Entry) (es : List Entry) :
    allDueAt due (e :: es) = max (due e.logTime) (allDueAt due es) := by
  unfold allDueAt
  rw [List.map_cons, List.foldr_cons]

theorem dueAt_self {t₀ : Nat} (h : 1000000 ∣ t₀) (l₀ : Nanos) : dueAt t₀ l₀ l₀ = t₀ := by
  apply Nat.le_antisymm
  · exact wake_le h (by omega)
  · exact Nat.le_trans (Nat.le_add_right _ _) (le_wake _ _)

/-- A player before a turn that has given messages since `t₀`, when log time was `l₀`, and has `es`
still to give. -/
structure OnPace (g : Setting) (s : Summary) (file : File) (t₀ : Nat) (l₀ : Nanos)
    (x : Turn Player) (es : List Entry) : Prop where
  summary_eq : x.player.summary = s
  content_eq : g.disk.recording x.player.file = file
  sound : x.player.cursor.Sound s
  playing : x.player.status = .playing
  speed_eq : x.player.speed = Speed.one
  pace : ∃ limiter, x.player.pace = some ⟨.start l₀ Speed.one (UInt64.ofNat t₀), limiter⟩
  upcoming_eq : x.player.upcoming file = es
  controls_eq : x.controls = []
  wasEnded_eq : x.wasEnded = false
  since : t₀ ≤ x.time
  whole : 1000000 ∣ x.time
  near : x.time < t₀ + 1 <<< 53
  clock : x.time < 1 <<< 63

variable {g : Setting} {s : Summary} {file : File} {t₀ : Nat} {l₀ : Nanos} {x : Turn Player}
  {e : Entry} {es : List Entry}

theorem OnPace.until_eq (h : OnPace g s file t₀ l₀ x es) (e : Entry) :
    (x.player.paceFor (g.world x.time).now e).timeline.until? (g.world x.time).now e.logTime =
      (Timeline.start l₀ Speed.one (UInt64.ofNat t₀)).until? (UInt64.ofNat x.time) e.logTime := by
  obtain ⟨limiter, hpace⟩ := h.pace
  simp only [paceFor, hpace, Option.getD_some, Setting.world]

theorem OnPace.give (h : OnPace g s file t₀ l₀ x (e :: es)) (hread : s.Readable file)
    (hnear : e.logTime.toNat < l₀.toNat + 1 <<< 52) (hdue : dueAt t₀ l₀ e.logTime ≤ x.time) :
    ∃ seen y, x.next g = (seen, .inl y) ∧ y.time = x.time ∧ y.player.range = x.player.range ∧
      OnPace g s file t₀ l₀ y es ∧ messagesIn seen = [(x.time, e.payload, e.logTime)] ∧
      statesIn seen = [] := by
  have huntil := h.until_eq e
  have hfar : e.logTime.toNat < l₀.toNat + 1 <<< 53 := by omega
  rcases Timeline.until_one h.since h.clock h.near hfar with ⟨_, hnone⟩ | ⟨hlt, _⟩
  · rw [hnone] at huntil
    obtain ⟨c, channels, topics, seen, hnext, hs, hrest, hmessages, hstates⟩ :=
      next_due (h.summary_eq.symm ▸ hread) (h.summary_eq.symm ▸ h.sound) h.content_eq h.playing
        h.upcoming_eq huntil
    obtain ⟨limiter, hpace⟩ := h.pace
    refine ⟨seen, _, hnext, rfl, rfl, ?_, hmessages, hstates⟩
    exact {
      summary_eq := h.summary_eq
      content_eq := h.content_eq
      sound := h.summary_eq ▸ hs
      playing := h.playing
      speed_eq := h.speed_eq
      pace := ⟨_, by simp only [passing, paceFor, hpace, Option.getD_some]; rfl⟩
      upcoming_eq := hrest
      controls_eq := h.controls_eq
      wasEnded_eq := rfl
      since := h.since
      whole := h.whole
      near := h.near
      clock := h.clock }
  · have hle := le_wake t₀ (e.logTime.toNat - l₀.toNat)
    simp only [dueAt] at hdue
    omega

/-- A turn before the next message is due sleeps, and not longer than until it is due. -/
theorem OnPace.sleep (h : OnPace g s file t₀ l₀ x (e :: es)) (hread : s.Readable file)
    (hsleep : 0 < g.settings.maxSleep) (hnear : e.logTime.toNat < l₀.toNat + 1 <<< 52)
    (hclock : dueAt t₀ l₀ e.logTime < 1 <<< 63) (hstop : dueAt t₀ l₀ e.logTime < g.stop)
    (hdue : x.time < dueAt t₀ l₀ e.logTime) :
    ∃ span y, x.next g = ([(x.time, .read (.ok (some span)))], .inl y) ∧ x.time < y.time ∧
      y.time ≤ dueAt t₀ l₀ e.logTime ∧ y.player.range = x.player.range ∧
      OnPace g s file t₀ l₀ y (e :: es) := by
  have huntil := h.until_eq e
  have hfar : e.logTime.toNat < l₀.toNat + 1 <<< 53 := by omega
  rcases Timeline.until_one h.since h.clock h.near hfar with ⟨hle, _⟩ | ⟨hlt, span, hspan, hto⟩
  · have hpast : dueAt t₀ l₀ e.logTime ≤ x.time := wake_le h.whole hle
    omega
  · rw [hspan] at huntil
    have hz : span ≠ 0 := by
      rintro rfl
      rw [UInt64.toNat_zero] at hto
      omega
    have hlower : x.time + min span.toNat g.settings.maxSleep ≤
        wake x.time (min span.toNat g.settings.maxSleep) := le_wake _ _
    have hupper : wake x.time (min span.toNat g.settings.maxSleep) ≤ dueAt t₀ l₀ e.logTime := by
      refine wake_le (dvd_wake _ _) ?_
      have := le_wake t₀ (e.logTime.toNat - l₀.toNat)
      simp only [dueAt]
      omega
    have hdist : dueAt t₀ l₀ e.logTime < t₀ + 1 <<< 53 := by
      simp only [dueAt, wake]
      omega
    obtain ⟨c, hnext, hs, hrest⟩ :=
      next_wait (h.summary_eq.symm ▸ hread) (h.summary_eq.symm ▸ h.sound) h.content_eq h.playing
        h.controls_eq h.upcoming_eq huntil hz (Nat.lt_of_le_of_lt hupper hstop)
    obtain ⟨limiter, hpace⟩ := h.pace
    have hlater : x.time < wake x.time (min span.toNat g.settings.maxSleep) := by omega
    refine ⟨span, _, hnext, hlater, hupper, rfl, ?_⟩
    exact {
      summary_eq := h.summary_eq
      content_eq := h.content_eq
      sound := h.summary_eq ▸ hs
      playing := h.playing
      speed_eq := h.speed_eq
      pace := ⟨limiter, by simp only [keeping, paceFor, hpace, Option.getD_some]⟩
      upcoming_eq := by
        simp only [upcoming, keeping, Option.toList_some, List.singleton_append, hrest]
      controls_eq := rfl
      wasEnded_eq := rfl
      since := Nat.le_trans h.since (Nat.le_of_lt hlater)
      whole := dvd_wake _ _
      near := Nat.lt_of_le_of_lt hupper hdist
      clock := Nat.lt_of_le_of_lt hupper hclock }

/-- Sleeping goes on until the next message is due, and not longer. -/
theorem OnPace.wait (h : OnPace g s file t₀ l₀ x (e :: es)) (hread : s.Readable file)
    (hsleep : 0 < g.settings.maxSleep) (hnear : e.logTime.toNat < l₀.toNat + 1 <<< 52)
    (hclock : dueAt t₀ l₀ e.logTime < 1 <<< 63) (hstop : dueAt t₀ l₀ e.logTime < g.stop)
    (hdue : x.time ≤ dueAt t₀ l₀ e.logTime) :
    ∃ seen y, Passes g x seen y ∧ y.time = dueAt t₀ l₀ e.logTime ∧
      y.player.range = x.player.range ∧ OnPace g s file t₀ l₀ y (e :: es) ∧
      messagesIn seen = [] ∧ statesIn seen = [] := by
  -- every turn comes nearer to the time at which the message is due
  induction hn : dueAt t₀ l₀ e.logTime - x.time using Nat.strongRecOn generalizing x with
  | ind n ih =>
    rcases Nat.eq_or_lt_of_le hdue with heq | hlt
    · exact ⟨[], x, .refl x, heq, rfl, h, rfl, rfl⟩
    · obtain ⟨span, u, hnext, hlater, hupper, hurange, hu⟩ :=
        h.sleep hread hsleep hnear hclock hstop hlt
      have hless : dueAt t₀ l₀ e.logTime - u.time < n := by omega
      obtain ⟨seen, y, hpasses, htime, hrange, hy, hmessages, hstates⟩ :=
        ih _ hless hu hupper rfl
      exact ⟨_, y, .step hnext hpasses, htime, hrange.trans hurange, hy, hmessages, hstates⟩

/-- The next message is given at the time at which it is due, or at once if that is past. -/
theorem OnPace.one (h : OnPace g s file t₀ l₀ x (e :: es)) (hread : s.Readable file)
    (hsleep : 0 < g.settings.maxSleep) (hnear : e.logTime.toNat < l₀.toNat + 1 <<< 52)
    (hclock : dueAt t₀ l₀ e.logTime < 1 <<< 63) (hstop : dueAt t₀ l₀ e.logTime < g.stop) :
    ∃ seen y, Passes g x seen y ∧ y.time = max x.time (dueAt t₀ l₀ e.logTime) ∧
      y.player.range = x.player.range ∧ OnPace g s file t₀ l₀ y es ∧
      messagesIn seen = [(max x.time (dueAt t₀ l₀ e.logTime), e.payload, e.logTime)] ∧
      statesIn seen = [] := by
  rcases Nat.le_total (dueAt t₀ l₀ e.logTime) x.time with hle | hle
  · obtain ⟨seen, y, hnext, htime, hrange, hy, hmessages, hstates⟩ := h.give hread hnear hle
    rw [Nat.max_eq_left hle]
    exact ⟨seen, y, .single hnext, htime, hrange, hy, hmessages, hstates⟩
  · obtain ⟨slept, u, hpasses, hutime, hurange, hu, hnone, hquiet⟩ :=
      h.wait hread hsleep hnear hclock hstop hle
    obtain ⟨seen, y, hnext, htime, hrange, hy, hmessages, hstates⟩ :=
      hu.give hread hnear (Nat.le_of_eq hutime.symm)
    rw [Nat.max_eq_right hle, ← hutime]
    refine ⟨slept ++ seen, y, hpasses.trans (.single hnext), htime, hrange.trans hurange, hy,
      ?_, ?_⟩
    · rw [messagesIn_append, hnone, hmessages, List.nil_append]
    · rw [statesIn_append, hquiet, hstates, List.nil_append]

/-- All messages are given, each at the time at which it and those before it are due. -/
theorem OnPace.all (h : OnPace g s file t₀ l₀ x es) (hread : s.Readable file)
    (hsleep : 0 < g.settings.maxSleep) (hnear : ∀ e ∈ es, e.logTime.toNat < l₀.toNat + 1 <<< 52)
    (hclock : allDueAt (dueAt t₀ l₀) es < 1 <<< 63) (hstop : allDueAt (dueAt t₀ l₀) es < g.stop) :
    ∃ seen y, Passes g x seen y ∧ y.time = max x.time (allDueAt (dueAt t₀ l₀) es) ∧
      y.player.range = x.player.range ∧ OnPace g s file t₀ l₀ y [] ∧
      messagesIn seen = es.mapIdx (fun k e =>
        (max x.time (allDueAt (dueAt t₀ l₀) (es.take (k + 1))), e.payload, e.logTime)) ∧
      statesIn seen = [] := by
  induction es generalizing x with
  | nil => exact ⟨[], x, .refl x, by rw [allDueAt_nil, Nat.max_zero], rfl, h, rfl, rfl⟩
  | cons e es ih =>
    rw [allDueAt_cons, Nat.max_lt] at hclock hstop
    obtain ⟨seen, y, hpasses, htime, hrange, hy, hmessages, hstates⟩ :=
      h.one hread hsleep (hnear e (by simp)) hclock.1 hstop.1
    obtain ⟨rest, z, hrest, hztime, hzrange, hz, hall, hquiet⟩ :=
      ih hy (fun e' he' => hnear e' (by simp [he'])) hclock.2 hstop.2
    refine ⟨seen ++ rest, z, hpasses.trans hrest, ?_, hzrange.trans hrange, hz, ?_, ?_⟩
    · rw [hztime, htime, allDueAt_cons, Nat.max_assoc]
    · rw [messagesIn_append, hmessages, hall, htime, List.mapIdx_cons, List.singleton_append]
      simp only [List.take_succ_cons, List.take_zero, allDueAt_cons, allDueAt_nil,
        Nat.max_assoc, Nat.max_zero]
    · rw [statesIn_append, hstates, hquiet, List.nil_append]

/-- The first message starts log time, and is given at once. -/
theorem first_on_pace {path : String} {ids : FileId → Prop}
    (h : x.player.Fresh s path file ids) (hread : s.Readable file)
    (hkept : Kept path file ids g.disk) (hfirst : messagesIn (x.next g).1 ≠ [])
    (hwhole : 1000000 ∣ x.time) (hclock : x.time < 1 <<< 63) (hcontrols : x.controls = [])
    (hspeed : x.player.speed = Speed.one)
    (hes : s.entriesFrom file x.player.cursor.start = e :: es) :
    ∃ seen y, x.next g = (seen, .inl y) ∧ y.time = x.time ∧ y.player.range = x.player.range ∧
      OnPace g s file x.time e.logTime y es ∧
      messagesIn seen = [(x.time, e.payload, e.logTime)] ∧ statesIn seen = [] := by
  have hu : x.player.upcoming file = e :: es := by
    rw [upcoming, h.pending_eq, h.summary_eq, h.upcoming_eq, hes]
    rfl
  have hp : x.player.status = .playing := by
    exact Decidable.byContradiction fun hp => hfirst (messagesIn_idle hp)
  have hf := hkept.content _ h.file_mem
  have hpace : x.player.paceFor (g.world x.time).now e =
      ⟨.start e.logTime Speed.one (UInt64.ofNat x.time), .start x.player.interval⟩ := by
    simp only [paceFor, h.pace_eq, Option.getD_none, hspeed, Setting.world]
  have hdue : (x.player.paceFor (g.world x.time).now e).timeline.until? (g.world x.time).now
      e.logTime = none := by
    rw [hpace]
    exact Timeline.until_start _ _ _
  obtain ⟨c, channels, topics, seen, hnext, hs, hrest, hmessages, hstates⟩ :=
    next_due (h.summary_eq.symm ▸ hread) (h.summary_eq.symm ▸ h.sound) hf hp hu hdue
  refine ⟨seen, _, hnext, rfl, rfl, ?_, hmessages, hstates⟩
  exact {
    summary_eq := h.summary_eq
    content_eq := hf
    sound := h.summary_eq ▸ hs
    playing := hp
    speed_eq := hspeed
    pace := ⟨_, congrArg (fun pace : Pace => some (Pace.mk pace.timeline _)) hpace⟩
    upcoming_eq := hrest
    controls_eq := hcontrols
    wasEnded_eq := rfl
    since := Nat.le_refl _
    whole := hwhole
    near := by dsimp only; omega
    clock := hclock }

theorem quiet_after_end {y : Turn Player} (he : y.player.status = .ended)
    (hw : y.wasEnded = true) (hc : y.controls = []) (turns : Nat) :
    messagesIn (y.run g turns).happenings = [] ∧ statesIn (y.run g turns).happenings = [] := by
  induction turns generalizing y with
  | zero => exact ⟨rfl, rfl⟩
  | succ turns ih =>
    have hlook : look y.wasEnded y.player (⟨[], y.topics⟩ : Recorder) =
        (false, true, ⟨[], y.topics⟩) := by simp [look, Source.status, he, hw]
    have hidle : Source.status y.player ≠ .playing := by simp [Source.status, he]
    have hended : decide (Source.status y.player = .ended) = true := by simp [Source.status, he]
    rw [run_succ, next_idle hidle, hlook, hended, sleep_without_controls g hc]
    by_cases hstop : g.stop ≤ wake y.time g.settings.idle
    · simp only [hstop, if_true]
      exact ⟨rfl, rfl⟩
    · simp only [hstop, if_false]
      exact ih he rfl rfl

theorem end_told_once {y : Turn Player} (he : y.player.status = .ended)
    (hw : y.wasEnded = false) (hc : y.controls = []) (turns : Nat) :
    messagesIn (y.run g (turns + 1)).happenings = [] ∧
      statesIn (y.run g (turns + 1)).happenings =
        [(y.time, Source.snapshot false none y.player)] := by
  have hlook : look y.wasEnded y.player (⟨[], y.topics⟩ : Recorder) =
      (false, true, ⟨[.state (Source.snapshot false none y.player)], y.topics⟩) := by
    simp [look, Source.status, he, hw, Sink.state]
  have hidle : Source.status y.player ≠ .playing := by simp [Source.status, he]
  have hended : decide (Source.status y.player = .ended) = true := by simp [Source.status, he]
  rw [run_succ, next_idle hidle, hlook, hended, sleep_without_controls g hc]
  by_cases hstop : g.stop ≤ wake y.time g.settings.idle
  · simp only [hstop, if_true]
    exact ⟨rfl, rfl⟩
  · simp only [hstop, if_false, Report.happenings_after, messagesIn_append, statesIn_append]
    have hquiet := quiet_after_end (g := g)
      (y := ⟨wake y.time g.settings.idle, true, [], y.player, y.topics⟩) he rfl rfl turns
    rw [hquiet.1, hquiet.2]
    exact ⟨rfl, rfl⟩

/-- From the first message on, at the speed of real time and without further requests: every message
is given at the first whole millisecond at which it and all before it are due, whatever the longest
sleep is, and the end is told once, together with the last message. -/
theorem emits_when_due {d : Disk} {path : String} {o : Options} {ids : FileId → Prop}
    {x₀ : Turn Player} {seen : List (Nat × Happening)}
    (hopen : openFile d path o = .ok x₀.player) (hread : x₀.player.summary.Readable file)
    (hkept : Kept path file ids d) (hkept' : Kept path file ids g.disk)
    (hpasses : Passes g x₀ seen x) (hnone : messagesIn seen = [])
    (hfirst : messagesIn (x.next g).1 ≠ []) (hwhole : 1000000 ∣ x.time)
    (hcontrols : x.controls = []) (hspeed : x.player.speed = Speed.one)
    (hsleep : 0 < g.settings.maxSleep)
    (hes : x₀.player.summary.entriesFrom file x.player.cursor.start = e :: es)
    (hnear : ∀ e' ∈ es, e'.logTime.toNat < e.logTime.toNat + 1 <<< 52)
    (hclock : allDueAt (dueAt x.time e.logTime) (e :: es) < 1 <<< 63)
    (hstop : allDueAt (dueAt x.time e.logTime) (e :: es) < g.stop) :
    ∃ n, ∀ turns, n ≤ turns → ∃ rest, (x₀.run g turns).happenings = seen ++ rest ∧
      messagesIn rest = (e :: es).mapIdx (fun k e' =>
        (allDueAt (dueAt x.time e.logTime) ((e :: es).take (k + 1)), e'.payload, e'.logTime)) ∧
      statesIn rest = [(allDueAt (dueAt x.time e.logTime) (e :: es),
        ⟨x.player.range.stop, Speed.one.value, .ended, false, none⟩)] := by
  have hfresh := (fresh_of_openFile hopen hread hkept).passes hread hkept' hpasses hnone
  rw [allDueAt_cons, dueAt_self hwhole, Nat.max_lt] at hclock hstop
  obtain ⟨given, y, hnext, hytime, hyrange, hy, hgiven, hgquiet⟩ :=
    first_on_pace hfresh hread hkept' hfirst hwhole hclock.1 hcontrols hspeed hes
  obtain ⟨all, z, hall, hztime, hzrange, hz, hmessages, hquiet⟩ :=
    hy.all hread hsleep hnear hclock.2 hstop.2
  obtain ⟨c, hend, _, _, _⟩ := next_end (hz.summary_eq.symm ▸ hread)
    (hz.summary_eq.symm ▸ hz.sound) hz.content_eq hz.playing hz.upcoming_eq
  -- the turns up to the one that finds the end
  obtain ⟨n, hn⟩ := (hpasses.trans (.step hnext (hall.trans (.single hend)))).run
  refine ⟨n + 1, ?_⟩
  intro turns hturns
  obtain ⟨k, rfl⟩ : ∃ k, turns = n + (k + 1) := ⟨turns - (n + 1), by omega⟩
  have htold := end_told_once (g := g) (y := ⟨z.time, false, z.controls, { z.player with
    cursor := c, status := .ended, currentTime := z.player.range.stop }, z.topics⟩) rfl rfl
    hz.controls_eq k
  refine ⟨_, by rw [hn, Report.happenings_after, List.append_assoc], ?_, ?_⟩
  · simp only [messagesIn_append, hgiven, hmessages, htold.1, hytime, messagesIn_read,
      List.append_nil, List.singleton_append, List.mapIdx_cons, List.take_succ_cons, List.take_zero, allDueAt_cons, allDueAt_nil,
      dueAt_self hwhole, Nat.max_zero]
  · have hrange : z.player.range = x.player.range := hzrange.trans hyrange
    have hall : z.time = allDueAt (dueAt x.time e.logTime) (e :: es) := by
      rw [hztime, hytime, allDueAt_cons, dueAt_self hwhole]
    simp only [statesIn_append, hgquiet, hquiet, statesIn_read, List.nil_append]
    rw [htold.2, hall]
    simp only [Source.snapshot, Source.currentTime, Source.speed, Source.status, hrange, hz.speed_eq]

/-- The longest sleep is a nanosecond. -/
def sampleSetting : Setting := ⟨sampleDisk, ⟨10000000, 1⟩, 1000000000⟩

def sampleTurn : Turn Player where
  time := 0
  wasEnded := false
  controls := [⟨0, ⟨some .play, Binary64.ofNat 1, none, none⟩⟩]
  player := samplePlayer
  topics := []

def samplePlaying : Turn Player where
  time := 10000000
  wasEnded := false
  controls := []
  player := { samplePlayer with status := .playing }
  topics := []

def sampleEntries : List Entry :=
  [(5, [1]), (3, [2]), (9, [3])].map fun (t, payload) => ⟨⟨"/a", "json", none⟩, t, payload⟩

theorem sample_emits_when_due :
    ∃ seen, Passes sampleSetting sampleTurn seen samplePlaying ∧ messagesIn seen = [] ∧
    messagesIn (samplePlaying.next sampleSetting).1 ≠ [] ∧
    ∃ n, ∀ turns, n ≤ turns → ∃ rest,
      (sampleTurn.run sampleSetting turns).happenings = seen ++ rest ∧
      messagesIn rest = [(10000000, [1], 5), (10000000, [2], 3), (11000000, [3], 9)] ∧
      statesIn rest = [(11000000, ⟨9, Binary64.ofNat 1, .ended, false, none⟩)] := by
  have hpasses := Passes.single (g := sampleSetting) (x := sampleTurn) (y := samplePlaying) rfl
  have hentries : sampleTurn.player.summary.entriesFrom sample
      samplePlaying.player.cursor.start = sampleEntries := by decide +kernel
  have hfirst : messagesIn (samplePlaying.next sampleSetting).1 ≠ [] := by decide +kernel
  obtain ⟨n, hn⟩ := emits_when_due sample_opens sample_readable (sampleDisk_kept (.inl rfl))
    (sampleDisk_kept (.inl rfl)) hpasses rfl hfirst (by decide) rfl rfl (by decide) hentries
    (by decide) (by decide) (by decide)
  refine ⟨_, hpasses, rfl, hfirst, n, ?_⟩
  intro turns hturns
  obtain ⟨rest, hrest, hmessages, hstates⟩ := hn turns hturns
  refine ⟨rest, hrest, hmessages.trans (by decide +kernel), hstates.trans ?_⟩
  rw [Speed.value_one]
  decide +kernel

end Pacing.Virtual

end Replay
