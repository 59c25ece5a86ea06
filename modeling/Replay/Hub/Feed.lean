/-!
A queue that many readers follow, each at its own place. It keeps the newest items only; a reader
that has fallen behind them learns how many it has missed and goes on with the oldest one kept.
-/

namespace Replay.Hub

structure Feed (α : Type) where
  /-- How many items are kept at most. -/
  room : Nat
  /-- How many items were put in so far. -/
  sent : Nat
  /-- The newest items, the oldest of them first. -/
  recent : List α
  room_pos : 0 < room
  length_recent : recent.length = min room sent
  deriving DecidableEq

namespace Feed

variable {α : Type}

/-- An empty feed. Its room is the capacity, one at least, rounded up to a power of two. It is left
out that no queue can be made for a capacity of 2^63 or more, or for more items than there is memory
for: the program ends there. -/
def start (capacity : Nat) : Feed α where
  room := (max capacity 1).nextPowerOfTwo
  sent := 0
  recent := []
  room_pos := Nat.pos_of_isPowerOfTwo (Nat.isPowerOfTwo_nextPowerOfTwo _)
  length_recent := by simp

def push (a : α) (f : Feed α) : Feed α where
  room := f.room
  sent := f.sent + 1
  recent := (f.recent ++ [a]).drop (f.recent.length + 1 - f.room)
  room_pos := f.room_pos
  length_recent := by
    have := f.length_recent
    have := f.room_pos
    simp only [List.length_drop, List.length_append, List.length_singleton]
    omega

/-- The place of the oldest item that is kept. -/
def oldest (f : Feed α) : Nat := f.sent - f.recent.length

inductive Reception (α : Type) where
  | nothing
  | item (a : α)
  | missed (count : Nat)
  deriving DecidableEq

/-- Reads at a place, and gives the place to go on with. -/
def receive (f : Feed α) (place : Nat) : Reception α × Nat :=
  if place < f.oldest then (.missed (f.oldest - place), f.oldest)
  else match f.recent[place - f.oldest]? with
    | some a => (.item a, place + 1)
    | none => (.nothing, place)

theorem room_push (a : α) (f : Feed α) : (f.push a).room = f.room := rfl

theorem sent_push (a : α) (f : Feed α) : (f.push a).sent = f.sent + 1 := rfl

theorem recent_push (a : α) (f : Feed α) :
    (f.push a).recent = (f.recent ++ [a]).drop (f.recent.length + 1 - f.room) := rfl

theorem getLast_recent_push (a : α) (f : Feed α) : (f.push a).recent.getLast? = some a := by
  have hpos := f.room_pos
  rw [recent_push, List.getLast?_drop, List.length_append, List.length_singleton,
    List.getLast?_append, List.getLast?_singleton, Option.some_or, if_neg]
  omega

end Feed

end Replay.Hub
