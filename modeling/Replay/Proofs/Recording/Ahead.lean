import Mathlib.Data.List.Flatten
import Replay.Proofs.Recording.Stored

/-!
What a cursor has still to give, whatever the file holds. Chunks that cannot be loaded and messages
of unknown channels may stop it or be passed over, but each message that it gives is the first of
those it had still to give, and all of these are messages of the recording from its start on, in
stored order.
-/

namespace Replay.Recording.Cursor

variable (s : Summary) (file : File)

/-- What a turn of a cursor leads to: a message, which was the first to come; the end; or an error,
which loses nothing. -/
def Turned (before after : List Entry) :
    Except Error (Option Entry) → Prop
  | .ok (some e) => before = e :: after
  | .ok none => before = [] ∧ after = []
  | .error _ => after = before

theorem taken_turned (start : Nanos) (chunks : List ChunkIndex) (m : Stored) (ms : List Stored) :
    (taken s ⟨start, [], chunks⟩ m ms).2.start = start ∧
    Turned (upcoming s file ⟨start, m :: ms, chunks⟩)
      ((taken s ⟨start, [], chunks⟩ m ms).2.upcoming s file)
      (taken s ⟨start, [], chunks⟩ m ms).1 := by
  unfold taken
  cases hc : s.channel? m.channelId <;> simp [Turned, upcoming, Summary.entry?, hc]

theorem loadNext_turned (start : Nanos) (chunks : List ChunkIndex) :
    (loadNext s file start chunks).2.start = start ∧
    Turned (upcoming s file ⟨start, [], chunks⟩)
      ((loadNext s file start chunks).2.upcoming s file) (loadNext s file start chunks).1 := by
  induction chunks with
  | nil => simp [loadNext, Turned, upcoming]
  | cons chunk chunks ih =>
    cases hload : chunk.load file start with
    | error e => simp [loadNext, hload, Turned]
    | ok ms =>
      have hms : (chunk.messages file).filter (fun m => start ≤ m.logTime) = ms := by
        rw [ChunkIndex.load_from] at hload
        cases hall : chunk.load file 0 with
        | error e => simp [hall, Except.map] at hload
        | ok all => simpa [ChunkIndex.messages, hall, Except.map] using hload
      cases ms with
      | nil => simpa [loadNext, hload, upcoming, hms] using ih
      | cons m ms =>
        have htaken := taken_turned s file start chunks m ms
        simpa [loadNext, hload, upcoming, hms] using htaken

/-- A turn keeps the start, and gives the first of the messages to come if it gives one. -/
theorem next_turned (c : Cursor) : (c.next s file).2.start = c.start ∧
    Turned (c.upcoming s file) ((c.next s file).2.upcoming s file) (c.next s file).1 := by
  obtain ⟨start, ready, chunks⟩ := c
  cases ready with
  | nil => exact loadNext_turned s file start chunks
  | cons m ms => exact taken_turned s file start chunks m ms

variable {s} in
/-- A cursor at a time is before messages of the recording that are not earlier, in stored order. -/
theorem atTime_sublist {start : Nanos} {c : Cursor} (h : atTime s start = .ok c) :
    c.start = start ∧ (c.upcoming s file).Sublist (s.entriesFrom file start) := by
  unfold atTime at h
  dsimp only at h
  split at h
  · cases h
  · obtain rfl := Except.ok.inj h
    refine ⟨rfl, ?_⟩
    simp only [upcoming, List.filterMap_nil, List.nil_append, mergeSort_offset_filter,
      Summary.filterMap_entry_from, Summary.entriesFrom, Summary.entries, List.filter_flatMap]
    apply List.Sublist.flatMap
    exact List.filter_sublist

end Replay.Recording.Cursor
