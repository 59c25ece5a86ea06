import Replay.Pacing.Virtual

/-!
The runs of the loop under virtual time, turn by turn. A turn leads to the next one or ends the run
(`run_succ`), and a run from where some turns have led goes on as the whole run does
(`Passes.run`).
-/

namespace Replay.Pacing.Virtual

/-- The loop before a turn. -/
structure Turn (π : Type) where
  time : Nat
  wasEnded : Bool
  controls : List Control
  player : π
  topics : List String

variable {π : Type} [Source π]

namespace Turn

def run (g : Setting) (turns : Nat) (x : Turn π) : Report :=
  Virtual.run g turns x.time x.wasEnded x.controls x.player x.topics

def seen (x : Turn π) (es : List Event) : List (Nat × Happening) :=
  es.map fun e => (x.time, .event e)

/-- A sleep after the first sections: what happens in it, and the turn after it, or the report of a
run that is cut in it. -/
def sleep (g : Setting) (x : Turn π) (span : Nat) (ended : Bool) (p : π) (topics : List String) :
    List (Nat × Happening) × (Turn π ⊕ Report) :=
  let (seen, controls, p) := controlsBefore g (min (wake x.time span) g.stop) x.controls p
  (seen,
    if g.stop ≤ wake x.time span then .inr ⟨[], .cut, g.stop⟩
    else .inl ⟨wake x.time span, ended, controls, p, topics⟩)

/-- What happens in a turn, and the turn after it, or the report of a run that ends with it. -/
def next (g : Setting) (x : Turn π) : List (Nat × Happening) × (Turn π ⊕ Report) :=
  let (playing, ended, sink) := look x.wasEnded x.player (⟨[], x.topics⟩ : Recorder)
  let looked := x.seen sink.events
  if playing then
    match Source.logNext (g.world x.time) x.player (⟨[], sink.topics⟩ : Recorder) with
    | (.error e, _, sink) =>
      (looked ++ x.seen sink.events ++ [(x.time, .read (.error e))], .inr ⟨[], .failed e, x.time⟩)
    | (.ok read, p, sink) =>
      let seen := looked ++ x.seen sink.events ++ [(x.time, .read (.ok read))]
      match g.settings.pauseAfter read with
      | .yield => (seen, .inl ⟨x.time, ended, x.controls, p, sink.topics⟩)
      | .sleep span =>
        let (slept, y) := x.sleep g span ended p sink.topics
        (seen ++ slept, y)
  else
    let (slept, y) := x.sleep g g.settings.idle ended x.player sink.topics
    (looked ++ slept, y)

end Turn

@[simp] theorem Report.after_after (a b : List (Nat × Happening)) (r : Report) :
    (r.after b).after a = r.after (a ++ b) := by
  simp only [Report.after, List.append_assoc]

@[simp] theorem Report.happenings_after (a : List (Nat × Happening)) (r : Report) :
    (r.after a).happenings = a ++ r.happenings := rfl

theorem run_succ (g : Setting) (turns : Nat) (x : Turn π) :
    x.run g (turns + 1) =
      match x.next g with
      | (seen, .inl y) => (y.run g turns).after seen
      | (seen, .inr r) => r.after seen := by
  obtain ⟨t, wasEnded, controls, p, topics⟩ := x
  simp only [Turn.run, Virtual.run, Turn.next]
  obtain ⟨playing, ended, sink⟩ := look wasEnded p (⟨[], topics⟩ : Recorder)
  -- a sleep cuts the run or leads to the next turn
  have hsleep : ∀ (span : Nat) (q : π) (topics' : List String) (seen : List (Nat × Happening)),
      ((if g.stop ≤ wake t span then ⟨[], .cut, g.stop⟩
          else Virtual.run g turns (wake t span) ended
            (controlsBefore g (min (wake t span) g.stop) controls q).2.1
            (controlsBefore g (min (wake t span) g.stop) controls q).2.2 topics').after
        (controlsBefore g (min (wake t span) g.stop) controls q).1).after seen =
      match (seen ++ (Turn.sleep g ⟨t, wasEnded, controls, p, topics⟩ span ended q topics').1,
        (Turn.sleep g ⟨t, wasEnded, controls, p, topics⟩ span ended q topics').2) with
      | (seen, .inl y) => (Virtual.run g turns y.time y.wasEnded y.controls y.player y.topics).after
          seen
      | (seen, .inr r) => r.after seen := by
    intro span q topics' seen
    by_cases hstop : g.stop ≤ wake t span <;> simp [Turn.sleep, hstop]
  cases playing with
  | false => exact hsleep _ _ _ _
  | true =>
    obtain ⟨read, q, sink'⟩ := Source.logNext (g.world t) p (⟨[], sink.topics⟩ : Recorder)
    cases read with
    | error e =>
      simp only [Report.after, List.append_nil, if_true]
      rfl
    | ok read =>
      cases read with
      | none => rfl
      | some span => exact hsleep _ _ _ _

/-- Turns that lead from one to another, and what happens in them. -/
inductive Passes (g : Setting) : Turn π → List (Nat × Happening) → Turn π → Prop where
  | refl (x : Turn π) : Passes g x [] x
  | step {x y z : Turn π} {seen rest : List (Nat × Happening)} (h : x.next g = (seen, .inl y))
    (ht : Passes g y rest z) : Passes g x (seen ++ rest) z

theorem Passes.single {g : Setting} {x y : Turn π} {seen : List (Nat × Happening)}
    (h : x.next g = (seen, .inl y)) : Passes g x seen y := by
  have := Passes.step h (.refl y)
  rwa [List.append_nil] at this

theorem Passes.trans {g : Setting} {x y z : Turn π} {seen rest : List (Nat × Happening)}
    (h : Passes g x seen y) (ht : Passes g y rest z) : Passes g x (seen ++ rest) z := by
  induction h with
  | refl x => exact ht
  | step h _ ih =>
    rw [List.append_assoc]
    exact .step h (ih ht)

/-- A run goes on as the run does from where its first turns lead. -/
theorem Passes.run {g : Setting} {x y : Turn π} {seen : List (Nat × Happening)}
    (h : Passes g x seen y) :
    ∃ n, ∀ turns, x.run g (n + turns) = (y.run g turns).after seen := by
  induction h with
  | refl x => exact ⟨0, fun turns => by rw [Nat.zero_add]; rfl⟩
  | step h _ ih =>
    obtain ⟨n, hn⟩ := ih
    refine ⟨n + 1, ?_⟩
    intro turns
    rw [Nat.add_right_comm, run_succ, h]
    simp only [hn, Report.after_after]

/-- The messages among what happens, each with the time at which it is given to the sink. -/
def messagesIn (hs : List (Nat × Happening)) : List (Nat × Bytes × Nanos) :=
  hs.filterMap fun h =>
    match h with
    | (t, .event (.message _ payload l)) => some (t, payload, l)
    | _ => none

def statesIn (hs : List (Nat × Happening)) : List (Nat × State) :=
  hs.filterMap fun h =>
    match h with
    | (t, .event (.state x)) => some (t, x)
    | _ => none

@[simp] theorem messagesIn_append (as bs : List (Nat × Happening)) :
    messagesIn (as ++ bs) = messagesIn as ++ messagesIn bs := List.filterMap_append

@[simp] theorem statesIn_append (as bs : List (Nat × Happening)) :
    statesIn (as ++ bs) = statesIn as ++ statesIn bs := List.filterMap_append

@[simp] theorem messagesIn_read (t : Nat) (r : Except Recording.Error (Option Nanos)) :
    messagesIn [(t, .read r)] = [] := rfl

@[simp] theorem statesIn_read (t : Nat) (r : Except Recording.Error (Option Nanos)) :
    statesIn [(t, .read r)] = [] := rfl

/-- Requests are answered, but the loop gives and tells nothing. -/
theorem quiet_controlsBefore (g : Setting) (t : Nat) (cs : List Control) (p : π) :
    messagesIn (controlsBefore g t cs p).1 = [] ∧ statesIn (controlsBefore g t cs p).1 = [] := by
  induction cs generalizing p with
  | nil => exact ⟨rfl, rfl⟩
  | cons c cs ih =>
    unfold controlsBefore
    split
    · exact ih _
    · exact ⟨rfl, rfl⟩

theorem sleep_without_controls (g : Setting) {x : Turn π} (hc : x.controls = []) (span : Nat)
    (ended : Bool) (p : π) (topics : List String) :
    x.sleep g span ended p topics =
      ([], if g.stop ≤ wake x.time span then .inr ⟨[], .cut, g.stop⟩
        else .inl ⟨wake x.time span, ended, [], p, topics⟩) := by
  simp only [Turn.sleep, hc, controlsBefore]

theorem next_yield {g : Setting} {x : Turn π} (hp : Source.status x.player = .playing) {q : π}
    {k : Recorder} (hlog : Source.logNext (g.world x.time) x.player (⟨[], x.topics⟩ : Recorder) =
      (.ok none, q, k)) :
    x.next g = (x.seen k.events ++ [(x.time, .read (.ok none))],
      .inl ⟨x.time, false, x.controls, q, k.topics⟩) := by
  simp [Turn.next, look, hp, hlog, Settings.pauseAfter, Turn.seen]

/-- A turn that meets a message that is not due sleeps, but not longer than it may. -/
theorem next_sleep {g : Setting} {x : Turn π} (hp : Source.status x.player = .playing) {q : π}
    {k : Recorder} {span : Nanos}
    (hlog : Source.logNext (g.world x.time) x.player (⟨[], x.topics⟩ : Recorder) =
      (.ok (some span), q, k)) :
    x.next g = (x.seen k.events ++ [(x.time, .read (.ok (some span)))] ++
        (x.sleep g (min span.toNat g.settings.maxSleep) false q k.topics).1,
      (x.sleep g (min span.toNat g.settings.maxSleep) false q k.topics).2) := by
  simp [Turn.next, look, hp, hlog, Settings.pauseAfter, Turn.seen]

theorem next_idle {g : Setting} {x : Turn π} (hp : Source.status x.player ≠ .playing) :
    x.next g =
      (x.seen (look x.wasEnded x.player (⟨[], x.topics⟩ : Recorder)).2.2.events ++
        (x.sleep g g.settings.idle (decide (Source.status x.player = .ended)) x.player
          (look x.wasEnded x.player (⟨[], x.topics⟩ : Recorder)).2.2.topics).1,
      (x.sleep g g.settings.idle (decide (Source.status x.player = .ended)) x.player
        (look x.wasEnded x.player (⟨[], x.topics⟩ : Recorder)).2.2.topics).2) := by
  simp [Turn.next, look, hp]

theorem messagesIn_idle {g : Setting} {x : Turn π} (hp : Source.status x.player ≠ .playing) :
    messagesIn (x.next g).1 = [] := by
  have hsleep := fun t (p : π) => (quiet_controlsBefore g t x.controls p).1
  rw [next_idle hp, messagesIn_append]
  simp only [Turn.sleep, hsleep, look, Turn.seen]
  split <;> rfl

theorem le_wake (t span : Nat) : t + span ≤ wake t span := by
  unfold wake
  omega

theorem dvd_wake (t span : Nat) : 1000000 ∣ wake t span := Nat.dvd_mul_left _ _

/-- A sleep ends with the first whole millisecond that is not too early. -/
theorem wake_le {t span u : Nat} (hu : 1000000 ∣ u) (h : t + span ≤ u) : wake t span ≤ u := by
  obtain ⟨n, rfl⟩ := hu
  unfold wake
  omega

end Replay.Pacing.Virtual
