import Replay.Hub.Feed

/-!
What a reader of the feed has still to get: the items from its place on, as long as none of them is
gone. Main statements: a new item goes behind the backlog of every reader that has not fallen behind
(`backlog_push`); a reader takes the first item of its backlog, or learns that it has fallen behind
(`receive_cases`).
-/

namespace Replay.Hub.Feed

variable {α : Type}

/-- The kept items from a place on. -/
def backlog (f : Feed α) (place : Nat) : List α := f.recent.drop (place - f.oldest)

theorem length_recent_le (f : Feed α) : f.recent.length ≤ f.sent := by
  rw [f.length_recent]
  exact Nat.min_le_right _ _

theorem oldest_le_sent (f : Feed α) : f.oldest ≤ f.sent := Nat.sub_le _ _

theorem oldest_add_room {f : Feed α} (h : 0 < f.oldest) : f.oldest + f.room = f.sent := by
  have hlen := f.length_recent
  simp only [oldest] at h ⊢
  omega

theorem oldest_push (a : α) (f : Feed α) :
    (f.push a).oldest = f.oldest + (f.recent.length + 1 - f.room) := by
  have hlen := f.length_recent
  have hle := f.length_recent_le
  have hpush := (f.push a).length_recent
  simp only [oldest, hpush, sent_push, room_push]
  omega

theorem oldest_le_push (a : α) (f : Feed α) : f.oldest ≤ (f.push a).oldest := by
  rw [oldest_push]
  exact Nat.le_add_right _ _

theorem backlog_push {a : α} {f : Feed α} {place : Nat} (hplace : place ≤ f.sent)
    (hold : (f.push a).oldest ≤ place) :
    (f.push a).backlog place = f.backlog place ++ [a] := by
  have hle := f.length_recent_le
  have hpush := oldest_push a f
  have hshift : f.recent.length + 1 - f.room + (place - (f.push a).oldest) = place - f.oldest := by
    omega
  have hfits : place - f.oldest ≤ f.recent.length := by
    simp only [oldest]
    omega
  rw [backlog, recent_push, List.drop_drop, hshift, List.drop_append_of_le_length hfits, backlog]

/-- What a reader at its place gets: notice that it has fallen behind, nothing, or the first of its
backlog. -/
theorem receive_cases (f : Feed α) (place : Nat) :
    (place < f.oldest ∧ f.receive place = (.missed (f.oldest - place), f.oldest)) ∨
    (f.oldest ≤ place ∧ f.backlog place = [] ∧ f.receive place = (.nothing, place)) ∨
    (f.oldest ≤ place ∧ ∃ a, f.backlog place = a :: f.backlog (place + 1) ∧
      f.receive place = (.item a, place + 1)) := by
  by_cases hold : place < f.oldest
  · exact Or.inl ⟨hold, by simp only [receive, hold, if_true]⟩
  · have hle : f.oldest ≤ place := Nat.le_of_not_lt hold
    cases hget : f.recent[place - f.oldest]? with
    | none =>
      refine Or.inr (Or.inl ⟨hle, ?_, by simp only [receive, hold, if_false, hget]⟩)
      exact List.drop_eq_nil_of_le (List.getElem?_eq_none_iff.mp hget)
    | some a =>
      refine Or.inr (Or.inr ⟨hle, a, ?_, by simp only [receive, hold, if_false, hget]⟩)
      obtain ⟨hlt, hat⟩ := List.getElem?_eq_some_iff.mp hget
      have hnext : place + 1 - f.oldest = place - f.oldest + 1 := by omega
      rw [backlog, backlog, hnext, List.drop_eq_getElem_cons hlt, hat]

theorem place_lt_sent {f : Feed α} {place : Nat} (hold : f.oldest ≤ place)
    (hlog : f.backlog place ≠ []) : place < f.sent := by
  have hle := f.length_recent_le
  have hlt : place - f.oldest < f.recent.length := by
    apply Nat.lt_of_not_le
    intro h
    exact hlog (List.drop_eq_nil_of_le h)
  simp only [oldest] at hlt hold
  omega

end Replay.Hub.Feed
