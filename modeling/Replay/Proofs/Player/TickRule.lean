import Replay.Proofs.Player.Due
import Replay.Proofs.Player.Ticks

/-!
Which messages have their time told. The time of a message is told just before the message, in the
same call, exactly if it is an interval above the time told last in the present part; nothing but a
message or a move that succeeds makes a difference to that. Main statement:
`tick_exactly_when_spaced`.
-/

namespace Replay.Player

open Recording Limiter

variable {σ : Type} {interval : Nanos} {x : Session σ}

/-- The time told last in a part; zero if none was. -/
def Part.lastTick (x : Part) : Nanos := x.ticks.getLast?.getD 0

/-- What the limiter remembers is the time told last. -/
theorem Ticking.limiter_last (h : Ticking interval x) :
    x.player.limiter = ⟨interval, x.part.lastTick⟩ := by
  have hticks := h.ticks x.part (List.mem_append_right _ (List.mem_singleton_self _))
  rw [h.limiter_eq, after_eq, ← hticks]
  rfl

variable [Sink σ]

/-- Reading on calls the sink for a message alone, and first with its time if that is an interval
above the time told last. -/
theorem Ticking.calls (h : Ticking interval x) {w : World}
    {r : Except Recording.Error (Option Nanos)} {q : Player} {k : Traced σ}
    (hlog : x.player.logNext w (⟨x.sink, []⟩ : Traced σ) = (r, q, k)) :
    (k = ⟨x.sink, []⟩ ∧ q.limiter = x.player.limiter) ∨
      ∃ e new, x.player.next? w = some e ∧ k.events = x.player.giving e
        (interval.toNat ≤ e.logTime.toNat - x.part.lastTick.toNat) new := by
  -- a call that tells nothing leaves the limiter where it is
  have hquiet : k = ⟨x.sink, []⟩ → q.limiter = x.player.limiter := by
    rintro rfl
    exact (logNext_ticks hlog).2.1
  rcases logNext_meets w x.player (⟨x.sink, []⟩ : Traced σ) with ⟨hp, e, hn⟩ | ⟨r', q', hq, -⟩
  · rcases logNext_of_next? hp hn x.sink with ⟨-, span, -, -, hkept⟩ | ⟨-, _, _, new, hgiven⟩
    · rw [hkept] at hlog
      cases hlog
      exact Or.inl ⟨rfl, hquiet rfl⟩
    · rw [hgiven] at hlog
      cases hlog
      refine Or.inr ⟨e, new, hn, ?_⟩
      rw [limiter_paceFor, h.limiter_last, isSome_pass?]
  · rw [hq] at hlog
    cases hlog
    exact Or.inl ⟨rfl, hquiet rfl⟩

/-- What a step can do to the present part and to the limiter: a move that succeeds begins a part
and starts the limiter; reading on may give a message; else both stay as they are. -/
theorem Ticking.step_cases (h : Ticking interval x) (w : World) (o : Operation) :
    (∃ t q, o = .seek t ∧ x.player.seek w.disk t = .ok q ∧ (x.step w o).earlier = x.parts ∧
      (x.step w o).part.events = [] ∧ (x.step w o).player.limiter = .start interval) ∨
    ((x.step w o).earlier = x.earlier ∧
      (((x.step w o).part = x.part ∧ (x.step w o).player.limiter = x.player.limiter) ∨
        o = .next ∧ ∃ e new, x.player.next? w = some e ∧
          (x.step w o).part.events = x.part.events ++ x.player.giving e
            (interval.toNat ≤ e.logTime.toNat - x.part.lastTick.toNat) new)) := by
  cases o with
  | play =>
    have hsame := (x.player.sameLimiter_play w.now).1
    exact Or.inr ⟨rfl, Or.inl (by simpa [Session.step, perform] using hsame)⟩
  | pause =>
    have hsame := (x.player.sameLimiter_pause w.now).1
    exact Or.inr ⟨rfl, Or.inl (by simpa [Session.step, perform] using hsame)⟩
  | setSpeed v =>
    have hsame := (x.player.sameLimiter_setSpeed w.now v).1
    exact Or.inr ⟨rfl, Or.inl (by simpa [Session.step, perform] using hsame)⟩
  | seek t =>
    cases hq : x.player.seek w.disk t with
    | error e => exact Or.inr (by simp [Session.step, perform, hq])
    | ok q =>
      have hlimiter : q.limiter = .start interval := (h.moved hq).limiter_eq
      exact Or.inl ⟨t, q, rfl, hq, by simp [Session.step, perform, hq, hlimiter]⟩
  | next =>
    obtain ⟨r, q, k, hlog⟩ : ∃ r q k,
        x.player.logNext w (⟨x.sink, []⟩ : Traced σ) = (r, q, k) := ⟨_, _, _, rfl⟩
    have hx : x.step w .next =
        ⟨q, k.sink, x.earlier, { x.part with events := x.part.events ++ k.events }⟩ := by
      simp only [Session.step, perform, hlog]
    rw [hx]
    rcases h.calls hlog with ⟨rfl, hlimiter⟩ | ⟨e, new, hn, hk⟩
    · exact Or.inr ⟨rfl, Or.inl ⟨by rw [List.append_nil], hlimiter⟩⟩
    · exact Or.inr ⟨rfl, Or.inr ⟨rfl, e, new, hn, congrArg (x.part.events ++ ·) hk⟩⟩

/-- However an opened player with an interval that is not empty is driven, in whatever order the log
times are stored: the times told in a part are log times of its messages in the order in which these
were given, and each is an interval above the one before it. What is done next is a move that
succeeds, which begins a part and starts the limiter; or it changes neither the present part nor the
limiter; or it gives a message, and just before it, and before its channel, its time exactly if this
is an interval above the time told last in the part, where nothing told counts as zero. -/
theorem tick_exactly_when_spaced {d : Disk} {path : String} {o : Options} {p : Player}
    (hopen : openFile d path o = .ok p) (hinterval : 0 < o.interval.toNat) (k : σ)
    (os : List (World × Operation)) :
    let x := (Session.start p k).run os
    (∀ part ∈ x.parts, part.ticks.Sublist part.logTimes ∧
      part.ticks.Pairwise fun t u => t.toNat + o.interval.toNat ≤ u.toNat) ∧
    x.player.limiter = ⟨o.interval, x.part.lastTick⟩ ∧
    ∀ w op,
      (∃ t q, op = .seek t ∧ x.player.seek w.disk t = .ok q ∧ (x.step w op).earlier = x.parts ∧
        (x.step w op).part.events = [] ∧ (x.step w op).player.limiter = .start o.interval) ∨
      ((x.step w op).earlier = x.earlier ∧
        (((x.step w op).part = x.part ∧ (x.step w op).player.limiter = x.player.limiter) ∨
          op = .next ∧ ∃ e new, x.player.next? w = some e ∧
            (x.step w op).part.events = x.part.events ++ x.player.giving e
              (o.interval.toNat ≤ e.logTime.toNat - x.part.lastTick.toNat) new)) := by
  intro x
  have h : Ticking o.interval x := (Ticking.start hopen k).run os
  refine ⟨?_, h.limiter_last, h.step_cases⟩
  intro part hpart
  rw [h.ticks part hpart]
  exact ⟨through_sublist _ _, (through_spaced (l := .start o.interval) hinterval part.logTimes).2⟩

/-- The sample with an interval of two nanoseconds: a pause and a change of speed after the first
message, and a move back after the last. -/
def sampleSpacing : List (World × Operation) :=
  [(⟨0, sampleDisk⟩, .play), (⟨0, sampleDisk⟩, .next), (⟨1, sampleDisk⟩, .pause),
    (⟨2, sampleDisk⟩, .setSpeed (Binary64.ofNat 2)), (⟨3, sampleDisk⟩, .play),
    (⟨3, sampleDisk⟩, .next), (⟨3, sampleDisk⟩, .next), (⟨9, sampleDisk⟩, .next),
    (⟨9, sampleDisk⟩, .seek 4), (⟨9, sampleDisk⟩, .next)]

/-- The time 3, stored behind 5, is not told; after the move 5 is told again. -/
theorem sample_ticks_spaced :
    let o : Options := ⟨Binary64.ofNat 1, 2⟩
    let p := { samplePlayer with interval := 2 }
    let x := (Session.start p Recorder.empty).run sampleSpacing
    openFile sampleDisk "a" o = .ok p ∧ 0 < o.interval.toNat ∧
    x.parts.map Part.logTimes = [[5, 3, 9], [5]] ∧ x.parts.map Part.ticks = [[5, 9], [5]] ∧
    (∀ part ∈ x.parts, part.ticks.Sublist part.logTimes ∧
      part.ticks.Pairwise fun t u => t.toNat + 2 ≤ u.toNat) ∧
    x.player.limiter = ⟨2, x.part.lastTick⟩ := by
  dsimp only
  have hopens : openFile sampleDisk "a" ⟨Binary64.ofNat 1, 2⟩ =
      .ok { samplePlayer with interval := 2 } := eq_ok_of_toOption (by decide +kernel)
  obtain ⟨hspaced, hlimiter, -⟩ :=
    tick_exactly_when_spaced hopens (by decide) Recorder.empty sampleSpacing
  exact ⟨hopens, by decide, by decide +kernel, by decide +kernel, hspaced, hlimiter⟩

end Replay.Player
