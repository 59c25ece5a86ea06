import Replay.Proofs.Player.Coherence
import Replay.Proofs.Timeline.InStep

/-!
Two players that differ in nothing but where their timelines are anchored, by clocks that read
differently. What one does the other does too, with the same answer and the same calls of the sink,
and afterwards they are in step again; so they are after a pause of one of them.
-/

namespace Replay

namespace Pace

/-- Two paces whose timelines are in step. -/
structure InStep (now now' : Nanos) (x y : Pace) : Prop where
  limiter_eq : y.limiter = x.limiter
  timeline : x.timeline.InStep now now' y.timeline

/-- An operation on log time, which needs a pace that there is. -/
def retime (now : Nanos) (o : Timeline.Operation) (x : Option Pace) : Option Pace :=
  x.map fun x => { x with timeline := x.timeline.perform now o }

variable {now now' : Nanos} {x y : Option Pace}

theorem rel_map {r r' : Pace → Pace → Prop} {f g : Pace → Pace} (h : x.Rel r y)
    (himp : ∀ a b, x = some a → r a b → r' (f a) (g b)) : (x.map f).Rel r' (y.map g) := by
  cases h with
  | none => exact .none
  | some hab => exact .some (himp _ _ rfl hab)

theorem rel_retime (h : x.Rel (InStep now now') y) (o : Timeline.Operation) :
    (retime now o x).Rel (InStep now now') (retime now' o y) :=
  rel_map h fun _ _ _ hab => ⟨hab.limiter_eq, hab.timeline.perform o⟩

theorem rel_getD (h : x.Rel (InStep now now') y) {a b : Pace} (hab : a.InStep now now' b) :
    (x.getD a).InStep now now' (y.getD b) := by
  cases h with
  | none => exact hab
  | some h => exact h

end Pace

namespace Player

open Recording

/-- Two players that differ in their paces alone, which are in step. -/
def InStep (now now' : Nanos) (p q : Player) : Prop :=
  ∃ pace, q = { p with pace } ∧ p.pace.Rel (Pace.InStep now now') pace

/-- The same answer and the same sink, with players that are in step. -/
structure Alike {σ : Type} (now now' : Nanos)
    (x y : Except Error (Option Nanos) × Player × σ) : Prop where
  answer_eq : y.1 = x.1
  sink_eq : y.2.2 = x.2.2
  player : x.2.1.InStep now now' y.2.1

variable {now now' : Nanos} {p q : Player}

theorem read_of_pending {w : World} (hp : p.status = .playing) {e : Entry}
    (he : p.pending = some e) : p.read w = (.ok (p.meet w.now e).1, (p.meet w.now e).2) := by
  simp [read, hp, he]

theorem read_of_next {w : World} (hp : p.status = .playing) (hpending : p.pending = none)
    {result : Except Error (Option Entry)} {c : Cursor}
    (hnext : p.cursor.next p.summary (w.disk.recording p.file) = (result, c)) :
    p.read w = match result with
      | .error e => (.error e, { p with cursor := c })
      | .ok none =>
        (.ok .nothing, { p with cursor := c, status := .ended, currentTime := p.range.stop })
      | .ok (some e) => (.ok (({ p with cursor := c } : Player).meet w.now e).1,
        (({ p with cursor := c } : Player).meet w.now e).2) := by
  rcases result with e | _ | e <;> simp [read, hp, hpending, hnext]

theorem inStep_of_no_pace (hp : p.pace = none) (now now' : Nanos) : p.InStep now now' p := by
  refine ⟨none, ?_, ?_⟩
  · rw [← hp]
  · rw [hp]
    exact .none

namespace InStep

theorem status_eq (h : p.InStep now now' q) : q.status = p.status := by
  obtain ⟨_, rfl, -⟩ := h
  rfl

theorem pending_eq (h : p.InStep now now' q) : q.pending = p.pending := by
  obtain ⟨_, rfl, -⟩ := h
  rfl

theorem play (h : p.InStep now now' q) : (p.play now).InStep now now' (q.play now') := by
  obtain ⟨pace, rfl, hpace⟩ := h
  unfold Player.play
  split
  · exact ⟨pace, rfl, hpace⟩
  · exact ⟨_, rfl, Pace.rel_retime hpace .resume⟩

theorem pause (h : p.InStep now now' q) : (p.pause now).InStep now now' (q.pause now') := by
  obtain ⟨pace, rfl, hpace⟩ := h
  unfold Player.pause
  split
  · exact ⟨pace, rfl, hpace⟩
  · exact ⟨_, rfl, Pace.rel_retime hpace .pause⟩

theorem setSpeed (h : p.InStep now now' q) (v : Binary64) :
    (p.setSpeed now v).InStep now now' (q.setSpeed now' v) := by
  obtain ⟨pace, rfl, hpace⟩ := h
  exact ⟨_, rfl, Pace.rel_retime hpace (.setSpeed v)⟩

/-- A move leaves no pace behind. -/
theorem seek (h : p.InStep now now' q) (d : Disk) (t : Nanos) : q.seek d t = p.seek d t := by
  obtain ⟨pace, rfl, -⟩ := h
  rfl

theorem paceFor (h : p.InStep now now' q) (e : Entry) :
    (p.paceFor now e).InStep now now' (q.paceFor now' e) := by
  obtain ⟨pace, rfl, hpace⟩ := h
  exact Pace.rel_getD hpace ⟨rfl, Timeline.inStep_start _ _ _ _⟩

theorem keeping (h : p.InStep now now' q) (e : Entry) :
    (p.keeping now e).InStep now now' (q.keeping now' e) := by
  have hpace := h.paceFor e
  obtain ⟨pace, rfl, -⟩ := h
  exact ⟨_, rfl, .some hpace⟩

theorem passing (h : p.InStep now now' q) (e : Entry) :
    (p.passing now e).InStep now now' (q.passing now' e) := by
  have hpace := h.paceFor e
  obtain ⟨pace, rfl, -⟩ := h
  refine ⟨_, rfl, .some ⟨?_, hpace.timeline⟩⟩
  rw [hpace.limiter_eq]

theorem meet (h : p.InStep now now' q) (e : Entry) :
    (q.meet now' e).1 = (p.meet now e).1 ∧ (p.meet now e).2.InStep now now' (q.meet now' e).2 := by
  have huntil := (h.paceFor e).timeline.until?_eq e.logTime
  have hlimiter := (h.paceFor e).limiter_eq
  rcases p.meet_cases now e with ⟨span, hspan, hz, hm⟩ | ⟨hdue, hm⟩
  · rcases q.meet_cases now' e with ⟨span', hspan', -, hm'⟩ | ⟨hdue', -⟩
    · obtain rfl : span' = span := by simpa [hspan, hspan'] using huntil
      rw [hm, hm']
      exact ⟨rfl, h.keeping e⟩
    · simp [huntil, hspan, hz] at hdue'
  · rcases q.meet_cases now' e with ⟨span', hspan', hz', -⟩ | ⟨-, hm'⟩
    · simp [← huntil, hspan', hz'] at hdue
    · rw [hm, hm', hlimiter]
      exact ⟨rfl, h.passing e⟩

theorem read (h : p.InStep now now' q) (d : Disk) :
    (q.read ⟨now', d⟩).1 = (p.read ⟨now, d⟩).1 ∧
      (p.read ⟨now, d⟩).2.InStep now now' (q.read ⟨now', d⟩).2 := by
  have hcursor : ∀ c, InStep now now' { p with cursor := c } { q with cursor := c } := by
    obtain ⟨pace, rfl, hpace⟩ := h
    exact fun c => ⟨pace, rfl, hpace⟩
  by_cases hp : p.status = .playing
  · have hq : q.status = .playing := h.status_eq.trans hp
    cases hpending : p.pending with
    | some e =>
      rw [read_of_pending hp hpending, read_of_pending hq (h.pending_eq.trans hpending)]
      exact ⟨congrArg Except.ok (h.meet e).1, (h.meet e).2⟩
    | none =>
      obtain ⟨result, c, hnext⟩ : ∃ result c,
        p.cursor.next p.summary (d.recording p.file) = (result, c) := ⟨_, _, rfl⟩
      have hnext' : q.cursor.next q.summary (d.recording q.file) = (result, c) := by
        obtain ⟨pace, rfl, -⟩ := h
        exact hnext
      rw [read_of_next hp hpending hnext, read_of_next hq (h.pending_eq.trans hpending) hnext']
      rcases result with e | _ | e
      · exact ⟨rfl, hcursor c⟩
      · obtain ⟨pace, rfl, hpace⟩ := h
        exact ⟨rfl, pace, rfl, hpace⟩
      · have hmeet := (hcursor c).meet e
        exact ⟨congrArg Except.ok hmeet.1, hmeet.2⟩
  · have hq : q.status ≠ .playing := h.status_eq ▸ hp
    simp only [Player.read, hp, hq, ne_eq, not_false_iff, if_true]
    exact ⟨trivial, h⟩

variable {σ : Type} [Sink σ]

theorem emit (h : p.InStep now now' q) (e : Entry) (tick : Bool) (s : σ) :
    (q.emit e tick s).2 = (p.emit e tick s).2 ∧
      (p.emit e tick s).1.InStep now now' (q.emit e tick s).1 := by
  obtain ⟨pace, rfl, hpace⟩ := h
  unfold Player.emit channelFor
  dsimp only
  cases p.channels.find? (·.1 == e.channel.topic) with
  | none => exact ⟨rfl, pace, rfl, hpace⟩
  | some x => exact ⟨rfl, pace, rfl, hpace⟩

theorem logNext (h : p.InStep now now' q) (d : Disk) (s : σ) :
    Alike now now' (p.logNext ⟨now, d⟩ s) (q.logNext ⟨now', d⟩ s) := by
  have hread := h.read d
  unfold Player.logNext
  obtain ⟨result, p', hp⟩ : ∃ result p', p.read ⟨now, d⟩ = (result, p') := ⟨_, _, rfl⟩
  obtain ⟨result', q', hq⟩ : ∃ result' q', q.read ⟨now', d⟩ = (result', q') := ⟨_, _, rfl⟩
  rw [hp, hq] at hread ⊢
  obtain ⟨rfl, hplayers⟩ : result' = result ∧ p'.InStep now now' q' := hread
  rcases result' with e | _ | span | ⟨e, tick⟩
  · exact ⟨rfl, rfl, hplayers⟩
  · exact ⟨rfl, rfl, hplayers⟩
  · exact ⟨rfl, rfl, hplayers⟩
  · obtain ⟨hsink, hemitted⟩ := hplayers.emit e tick s
    exact ⟨rfl, hsink, hemitted⟩

theorem perform (h : p.InStep now now' q) (d : Disk) (s : σ) (o : Operation) :
    Alike now now' (p.perform ⟨now, d⟩ s o) (q.perform ⟨now', d⟩ s o) := by
  cases o with
  | play => exact ⟨rfl, rfl, h.play⟩
  | pause => exact ⟨rfl, rfl, h.pause⟩
  | setSpeed v => exact ⟨rfl, rfl, h.setSpeed v⟩
  | seek t =>
    have hseek := h.seek d t
    simp only [Player.perform, hseek]
    cases hmoved : p.seek d t with
    | error e => exact ⟨rfl, rfl, h⟩
    | ok moved =>
      obtain ⟨_, _, _, rfl⟩ := seek_ok hmoved
      exact ⟨rfl, rfl, inStep_of_no_pace rfl now now'⟩
  | next => exact h.logNext d s

/-- The paces of a player have its speed, so that a whole speed is enough. -/
theorem advance (h : p.InStep now now' q) (hcoherent : p.Coherent) (hwhole : p.speed.Whole)
    {span : Nanos} (hle : now ≤ now') (hclock : now'.toNat + span.toNat < UInt64.size)
    (hsmall : ∀ x, p.pace = some x → x.timeline.paused = false →
      x.timeline.speed.Small (Nanos.minus (now + span) x.timeline.anchor)) :
    p.InStep (now + span) (now' + span) q := by
  obtain ⟨pace, rfl, hpace⟩ := h
  refine ⟨pace, rfl, ?_⟩
  have hlater : (p.pace.map id).Rel (Pace.InStep (now + span) (now' + span)) (pace.map id) := by
    refine Pace.rel_map hpace fun x y hx hxy => ⟨hxy.limiter_eq, ?_⟩
    have hspeed : x.timeline.speed.Whole := (hcoherent.speed_eq x hx).symm ▸ hwhole
    exact hxy.timeline.advance hspeed hle hclock (hsmall x hx)
  rwa [Option.map_id_fun, id, id] at hlater

/-- A player that is paused while the other one plays, and resumed when its clock reads `later`. -/
theorem interlude (h : p.InStep now now' q) (hcoherent : p.Coherent) (hp : p.status = .playing)
    (later : Nanos) : p.InStep now later ((q.pause now').play later) := by
  obtain ⟨pace, rfl, hpace⟩ := h
  have hresumed : (p.pace.map id).Rel (Pace.InStep now later)
      (pace.map fun x => { x with timeline := (x.timeline.pause now').resume later }) :=
    Pace.rel_map hpace fun x y hx hxy =>
      ⟨hxy.limiter_eq, hxy.timeline.interlude (hcoherent.runs hp x hx) later⟩
  rw [Option.map_id_fun, id] at hresumed
  refine ⟨_, ?_, hresumed⟩
  simp [Player.pause, Player.play, hp, Function.comp_def]

end InStep

end Player

end Replay
