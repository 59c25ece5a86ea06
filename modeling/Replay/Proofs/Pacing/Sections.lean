import Replay.Pacing
import Replay.Proofs.Player.Session

/-!
A playback that the loop shares with its viewers. Whoever has the lock does one section: the loop
looks at the status, or reads on if its look found the playback playing; a viewer's request is
applied. The sections of a run come in any order, with any time between them. Main statements:
`acts`, all that a section can do; `deeds_eq_append`, a deed of a run was done in a section of it.
-/

namespace Replay

namespace Pacing

inductive Section where
  /-- The loop has the lock. -/
  | loop (w : World)
  | request (w : World) (r : Request)

def Section.world : Section → World
  | .loop w => w
  | .request w _ => w

/-- What the loop does when it has the lock next. -/
inductive Stage where
  | look
  /-- Its look has found the playback playing. -/
  | read
  /-- It has ended with an error. -/
  | failed (e : Recording.Error)
  deriving DecidableEq

/-- What the loop does after a read. -/
def Stage.after : Except Recording.Error (Option Nanos) → Stage
  | .ok _ => .look
  | .error e => .failed e

structure Playback (π σ : Type) where
  source : π
  sink : σ
  wasEnded : Bool
  stage : Stage

/-- What was done in a section: what was found, what was left, and the calls made to the sink. -/
inductive Deed (π : Type) where
  | looked (p : π) (calls : List Event)
  | read (p q : π) (result : Except Recording.Error (Option Nanos)) (calls : List Event)
  | answered (r : Request) (p q : π) (answer : State)
  /-- The loop has ended. -/
  | nothing

namespace Deed

variable {π : Type}

def calls : Deed π → List Event
  | .looked _ calls => calls
  | .read _ _ _ calls => calls
  | _ => []

def told (d : Deed π) : List State := d.calls.filterMap Event.state?

/-- A request was applied that moved the position. -/
def Moved : Deed π → Prop
  | .answered _ _ _ answer => answer.didSeek = true
  | _ => False

def IsLook : Deed π → Prop
  | .looked _ _ => True
  | _ => False

/-- A read that came to the end. -/
def Ends [Source π] : Deed π → Prop
  | .read p q _ _ => Source.status p ≠ .ended ∧ Source.status q = .ended
  | _ => False

instance : DecidablePred (Moved (π := π))
  | .answered _ _ _ answer => inferInstanceAs (Decidable (answer.didSeek = true))
  | .looked _ _ => isFalse id
  | .read _ _ _ _ => isFalse id
  | .nothing => isFalse id

instance [Source π] : DecidablePred (Ends (π := π))
  | .read _ _ _ _ => inferInstanceAs (Decidable (_ ∧ _))
  | .looked _ _ => isFalse id
  | .answered _ _ _ _ => isFalse id
  | .nothing => isFalse id

end Deed

namespace Playback

variable {π σ : Type} [Source π] [Sink σ]

/-- The loop has just been started on a playback. -/
def start (p : π) (s : σ) : Playback π σ := ⟨p, s, false, .look⟩

def act (x : Playback π σ) : Section → Deed π × Playback π σ
  | .request w r =>
    let (answer, q) := Source.apply w r x.source
    (.answered r x.source q answer, { x with source := q })
  | .loop w =>
    match x.stage with
    | .look =>
      let (playing, ended, s) := look x.wasEnded x.source (⟨x.sink, []⟩ : Traced σ)
      (.looked x.source s.events,
        ⟨x.source, s.sink, ended, if playing then .read else .look⟩)
    | .read =>
      let (result, q, s) := Source.logNext w x.source (⟨x.sink, []⟩ : Traced σ)
      (.read x.source q result s.events, ⟨q, s.sink, x.wasEnded, .after result⟩)
    | .failed _ => (.nothing, x)

def step (x : Playback π σ) (e : Section) : Playback π σ := (x.act e).2

/-- All that a section can do. -/
inductive Acts (x : Playback π σ) : Section → Deed π → Playback π σ → Prop where
  | answered (w : World) (r : Request) : Acts x (.request w r)
      (.answered r x.source (Source.apply w r x.source).2 (Source.apply w r x.source).1)
      { x with source := (Source.apply w r x.source).2 }
  | looked (w : World) (s : σ) (hs : x.stage = .look) : Acts x (.loop w)
      (.looked x.source
        (if Source.status x.source = .ended ∧ x.wasEnded = false then
          [.state (Source.snapshot false none x.source)] else []))
      ⟨x.source, s, decide (Source.status x.source = .ended),
        if Source.status x.source = .playing then .read else .look⟩
  | read (w : World) (r : Except Recording.Error (Option Nanos)) (q : π) (s : Traced σ)
      (hs : x.stage = .read) (hr : Source.logNext w x.source (⟨x.sink, []⟩ : Traced σ) = (r, q, s)) :
      Acts x (.loop w) (.read x.source q r s.events) ⟨q, s.sink, x.wasEnded, .after r⟩
  | nothing (w : World) (e : Recording.Error) (hs : x.stage = .failed e) : Acts x (.loop w) .nothing x

theorem acts (x : Playback π σ) (e : Section) : Acts x e (x.act e).1 (x.step e) := by
  cases e with
  | request w r => exact .answered w r
  | loop w =>
    cases hs : x.stage with
    | look =>
      have hlook : x.act (.loop w) = (.looked x.source
          (if Source.status x.source = .ended ∧ x.wasEnded = false then
            [.state (Source.snapshot false none x.source)] else []),
          ⟨x.source, (look x.wasEnded x.source (⟨x.sink, []⟩ : Traced σ)).2.2.sink,
            decide (Source.status x.source = .ended),
            if Source.status x.source = .playing then .read else .look⟩) := by
        by_cases he : Source.status x.source = .ended <;> cases hw : x.wasEnded <;>
          simp [act, hs, look, he, hw, Sink.state]
      rw [step, hlook]
      exact .looked w _ hs
    | read =>
      cases hr : Source.logNext w x.source (⟨x.sink, []⟩ : Traced σ) with
      | mk r rest =>
        have hread : x.act (.loop w) = (.read x.source rest.1 r rest.2.events,
            ⟨rest.1, rest.2.sink, x.wasEnded, .after r⟩) := by
          simp only [act, hs, hr]
        rw [step, hread]
        exact .read w r _ _ hs hr
    | failed e =>
      have hnothing : x.act (.loop w) = (.nothing, x) := by simp only [act, hs]
      rw [step, hnothing]
      exact .nothing w e hs

def run (x : Playback π σ) (es : List Section) : Playback π σ := es.foldl step x

def deeds (x : Playback π σ) : List Section → List (Deed π)
  | [] => []
  | e :: es => (x.act e).1 :: (x.step e).deeds es

variable (x : Playback π σ)

theorem run_append (es es' : List Section) : x.run (es ++ es') = (x.run es).run es' :=
  List.foldl_append

/-- A deed of a run was done in a section of it, after those before and before those behind. -/
theorem deeds_eq_append {es : List Section} {before after : List (Deed π)} {d : Deed π}
    (h : x.deeds es = before ++ d :: after) :
    ∃ es₁ e es₂, es = es₁ ++ e :: es₂ ∧ x.deeds es₁ = before ∧ ((x.run es₁).act e).1 = d ∧
      ((x.run es₁).step e).deeds es₂ = after := by
  induction es generalizing x before with
  | nil => simp [deeds] at h
  | cons e es ih =>
    cases before with
    | nil =>
      obtain ⟨hd, hafter⟩ := List.cons.inj h
      exact ⟨[], e, es, rfl, rfl, hd, hafter⟩
    | cons d' before =>
      obtain ⟨rfl, hrest⟩ := List.cons.inj h
      obtain ⟨es₁, e', es₂, rfl, rfl, hd, hafter⟩ := ih (x.step e) hrest
      exact ⟨e :: es₁, e', es₂, rfl, rfl, hd, hafter⟩

end Playback

end Pacing

end Replay
