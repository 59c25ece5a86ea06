import Replay.Proofs.Player.Session

/-!
Operations that fail. A move that fails has changed nothing, so the moves that fail can be struck
from a run without a trace; a read that fails has called nothing and moved the cursor at most.
-/

namespace Replay.Player

open Recording

variable {σ : Type} [Sink σ]

/-- A failed read leaves the sink alone, and of the player all but the cursor. -/
theorem logNext_error {w : World} {p q : Player} {s s' : σ} {e : Error}
    (h : p.logNext w s = (.error e, q, s')) : s' = s ∧ ∃ cursor, q = { p with cursor } := by
  rcases logNext_cases w p s with ⟨_, hlog⟩ | ⟨_, _, _, c, hlog⟩ | ⟨_, _, _, hlog⟩ |
    ⟨_, _, _, _, _, hlog⟩ | ⟨_, _, _, _, hlog⟩ <;> rw [hlog] at h
  · cases h
  · cases h
    exact ⟨rfl, c, rfl⟩
  · cases h
  · cases h
  · cases h

/-- A request whose move fails is the same request without it. -/
theorem apply_of_seek_error {w : World} {r : Request} {p : Player} {t : Nanos} {e : Error}
    (hr : r.seek = some t) (h : p.seek w.disk t = .error e) :
    Source.apply w r p = Source.apply w { r with seek := none } p := by
  have hmove : Source.move w r.seek p = Source.move w none p := by
    simp [hr, Source.move, Source.seek, h]
  simp only [Source.apply, hmove]

/-- Whether an operation was a move that failed, by its result. -/
def failedMove : Operation → Except Error (Option Nanos) → Bool
  | .seek _, .error _ => true
  | _, _ => false

namespace Session

def result (x : Session σ) (w : World) (o : Operation) : Except Error (Option Nanos) :=
  (x.player.perform w (⟨x.sink, []⟩ : Traced σ) o).1

/-- The operations of a run with their results. -/
def outcomes (x : Session σ) :
    List (World × Operation) → List ((World × Operation) × Except Error (Option Nanos))
  | [] => []
  | o :: os => (o, x.result o.1 o.2) :: (x.step o.1 o.2).outcomes os

/-- A run without the moves that fail in it. -/
def struck (x : Session σ) (os : List (World × Operation)) : List (World × Operation) :=
  ((x.outcomes os).filter fun y => !failedMove y.1.2 y.2).map (·.1)

theorem seek_failed {x : Session σ} {w : World} {t : Nanos} {e : Error}
    (h : x.player.seek w.disk t = .error e) :
    x.result w (.seek t) = .error e ∧ x.step w (.seek t) = x := by
  simp [result, step, perform, h]

theorem step_failedMove {x : Session σ} {w : World} {o : Operation}
    (h : failedMove o (x.result w o) = true) : x.step w o = x := by
  cases o with
  | seek t =>
    cases hq : x.player.seek w.disk t with
    | error e => exact (seek_failed hq).2
    | ok q => simp [failedMove, result, perform, hq] at h
  | play => cases h
  | pause => cases h
  | setSpeed v => cases h
  | next => simp [failedMove] at h

theorem struck_cons (x : Session σ) (o : World × Operation) (os : List (World × Operation)) :
    x.struck (o :: os) =
      if failedMove o.2 (x.result o.1 o.2) then x.struck os
      else o :: (x.step o.1 o.2).struck os := by
  cases h : failedMove o.2 (x.result o.1 o.2) with
  | true => simp [struck, outcomes, h, step_failedMove h]
  | false => simp [struck, outcomes, h]

theorem run_struck (x : Session σ) (os : List (World × Operation)) :
    x.run (x.struck os) = x.run os := by
  induction os generalizing x with
  | nil => rfl
  | cons o os ih =>
    rw [struck_cons]
    split
    · rename_i h
      exact (ih x).trans (congrArg (run · os) (step_failedMove h).symm)
    · exact ih (x.step o.1 o.2)

theorem outcomes_struck (x : Session σ) (os : List (World × Operation)) :
    x.outcomes (x.struck os) = (x.outcomes os).filter fun y => !failedMove y.1.2 y.2 := by
  induction os generalizing x with
  | nil => rfl
  | cons o os ih =>
    rw [struck_cons]
    cases h : failedMove o.2 (x.result o.1 o.2) with
    | true => simp [outcomes, h, step_failedMove h, ih]
    | false => simp [outcomes, h, ih]

end Session

/-- Wherever a player stands: a move that fails leaves it as it was (`Player.seek` fails before its
first change), and what follows is what follows without the move, with the same results, calls and
states; a request whose move fails leads to the player and to the answer of the request without the
move; and a read that fails makes no call and moves the cursor at most. -/
theorem failed_operations_leave_no_trace (x : Session σ) :
    (∀ w t e, x.player.seek w.disk t = .error e →
      x.result w (.seek t) = .error e ∧ x.step w (.seek t) = x) ∧
    (∀ os, x.run (x.struck os) = x.run os ∧
      x.outcomes (x.struck os) = (x.outcomes os).filter fun y => !failedMove y.1.2 y.2) ∧
    (∀ w r t e, r.seek = some t → x.player.seek w.disk t = .error e →
      Source.apply w r x.player = Source.apply w { r with seek := none } x.player) ∧
    (∀ w (s : σ) e q s', x.player.logNext w s = (.error e, q, s') →
      s' = s ∧ ∃ cursor, q = { x.player with cursor }) := by
  refine ⟨fun _ _ _ => Session.seek_failed, ?_, fun _ _ _ _ => apply_of_seek_error,
    fun _ _ _ _ _ => logNext_error⟩
  intro os
  exact ⟨x.run_struck os, x.outcomes_struck os⟩

/-- A move to a file that is gone, while a message waits and while none does. -/
def sampleFailing : List (World × Operation) :=
  [(⟨2, sampleDisk.remove "a"⟩, .seek 4), (⟨9, sampleDisk⟩, .next),
    (⟨9, sampleDisk.remove "a"⟩, .seek 0), (⟨9, sampleDisk⟩, .next)]

theorem sample_failures_leave_no_trace :
    let x := (Session.start samplePlayer Recorder.empty).run sampleOpening
    let gone : World := ⟨2, sampleDisk.remove "a"⟩
    let cut : World := ⟨2, sampleDisk.write "a" []⟩
    let p : Player := { samplePlayer with status := .playing }
    (x.player = sampleWaiting ∧ x.player.seek gone.disk 4 = .error (.cannotOpen "a" .notFound) ∧
      x.step gone (.seek 4) = x) ∧
    ((x.struck sampleFailing).map (·.2) = [.next, .next] ∧
      x.run (x.struck sampleFailing) = x.run sampleFailing) ∧
    Source.apply gone ⟨some .pause, .nan, some 4, some "a"⟩ x.player =
      Source.apply gone ⟨some .pause, .nan, none, some "a"⟩ x.player ∧
    ∃ q s, p.logNext cut Recorder.empty = (.error (.access .endOfFile), q, s) ∧
      s = Recorder.empty ∧ ∃ cursor, q = { p with cursor } := by
  intro x gone cut p
  have hx : x.player = sampleWaiting := sampleWaiting_reached
  have hseek : x.player.seek gone.disk 4 = .error (.cannotOpen "a" .notFound) := by rw [hx]; rfl
  have hread : p.logNext cut Recorder.empty = (.error (.access .endOfFile),
      { p with cursor := ⟨3, [], sampleSummary.chunks⟩ }, Recorder.empty) := by
    rfl
  obtain ⟨hmove, hrun, hrequest, _⟩ := failed_operations_leave_no_trace x
  refine ⟨⟨hx, hseek, (hmove gone 4 _ hseek).2⟩, ⟨by decide +kernel, (hrun sampleFailing).1⟩,
    hrequest gone ⟨some .pause, .nan, some 4, some "a"⟩ 4 _ rfl hseek, _, _, hread, ?_⟩
  exact (failed_operations_leave_no_trace (Session.start p Recorder.empty)).2.2.2 cut Recorder.empty
    _ _ _ hread

end Replay.Player
