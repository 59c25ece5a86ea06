import Replay.Recording.Cursor

/-!
The messages of a recording as one list, in the order in which they are stored, and the part of it
that a cursor has still to give. Main statements: a cursor at a time is before exactly the messages
that are not earlier (`atTime_upcoming`), and each turn takes the first of them (`next_upcoming`).
-/

namespace Replay.Recording

/-- All messages of a chunk, as far as it can be loaded. -/
def ChunkIndex.messages (c : ChunkIndex) (file : File) : List Stored :=
  match c.load file 0 with
  | .ok ms => ms
  | .error _ => []

namespace Summary

def entry? (s : Summary) (m : Stored) : Option Entry :=
  (s.channel? m.channelId).map fun channel => ⟨channel, m.logTime, m.payload⟩

/-- The messages of a recording in stored order: chunk after chunk as they stand in the file. -/
def entries (s : Summary) (file : File) : List Entry :=
  (s.chunks.mergeSort fun a b => a.offset ≤ b.offset).flatMap fun c =>
    (c.messages file).filterMap s.entry?

def entriesFrom (s : Summary) (file : File) (start : Nanos) : List Entry :=
  (s.entries file).filter fun e => start ≤ e.logTime

/-- Earlier messages may be left out before or after their channels are looked up. -/
theorem filterMap_entry_from (s : Summary) (start : Nanos) (ms : List Stored) :
    (ms.filter fun m => start ≤ m.logTime).filterMap s.entry? =
      (ms.filterMap s.entry?).filter fun e => start ≤ e.logTime := by
  rw [List.filter_filterMap, List.filterMap_filter]
  congr 1
  funext m
  cases hc : s.channel? m.channelId <;>
    by_cases hm : start ≤ m.logTime <;> simp [Summary.entry?, hc, hm, Option.filter]

/-- Every chunk can be loaded, holds no message later than its index says, and names channels that
the summary knows. -/
structure Readable (s : Summary) (file : File) : Prop where
  loads : ∀ c ∈ s.chunks, c.load file 0 = .ok (c.messages file)
  bounded : ∀ c ∈ s.chunks, ∀ m ∈ c.messages file, m.logTime ≤ c.endTime
  known : ∀ c ∈ s.chunks, ∀ m ∈ c.messages file, (s.channel? m.channelId).isSome

end Summary

theorem ChunkIndex.load_from (c : ChunkIndex) (file : File) (start : Nanos) :
    c.load file start = (c.load file 0).map fun ms => ms.filter fun m => start ≤ m.logTime := by
  unfold ChunkIndex.load
  split
  · rfl
  · dsimp only
    split
    · rfl
    · cases (file.unpack c.compression c.unpackedSize
          ((file.bytes.drop c.dataOffset).take c.size)).bind stored with
      | error cause => rfl
      | ok ms =>
        have hall : ms.filter (fun m => (0 : Nanos) ≤ m.logTime) = ms := by
          apply List.filter_eq_self.mpr
          intro m _
          exact decide_eq_true (UInt64.zero_le)
        simp only [Except.map, hall]

theorem ChunkIndex.dataOffset_lt_of_load {c : ChunkIndex} {file : File} {start : Nanos}
    {ms : List Stored} (h : c.load file start = .ok ms) : c.dataOffset < Summary.offsetLimit := by
  unfold ChunkIndex.load at h
  split at h
  · cases h
  · omega

/-- A list is cut in one way only into a part on which `q` holds and one on which it does not. -/
theorem append_eq_append_of_cut {α : Type} {q : α → Bool} {us vs xs ys : List α}
    (h : us ++ vs = xs ++ ys) (hus : ∀ b ∈ us, q b) (hvs : ∀ b ∈ vs, ¬ q b)
    (hxs : ∀ b ∈ xs, q b) (hys : ∀ b ∈ ys, ¬ q b) : us = xs ∧ vs = ys := by
  have hcut : ∀ bs cs : List α, (∀ b ∈ bs, q b) → (∀ c ∈ cs, ¬ q c) →
      (bs ++ cs).takeWhile q = bs := by
    intro bs cs hbs hcs
    rw [List.takeWhile_append_of_pos hbs]
    cases cs with
    | nil => simp
    | cons c cs => simp [hcs c (by simp)]
  have hfront : us = xs := by rw [← hcut us vs hus hvs, h, hcut xs ys hxs hys]
  subst hfront
  exact ⟨rfl, List.append_cancel_left h⟩

/-- Sorting by a total order is stable: what is left out may be left out before or after. -/
theorem mergeSort_filter {α : Type} {le : α → α → Bool}
    (htrans : ∀ a b c, le a b → le b c → le a c) (htotal : ∀ a b, le a b || le b a)
    (p : α → Bool) (l : List α) : (l.filter p).mergeSort le = (l.mergeSort le).filter p := by
  -- what stands behind `a` in a sorted list is not below it
  have hbehind : ∀ (a : α) (l us vs : List α), (a :: l).mergeSort le = us ++ a :: vs →
      ∀ b ∈ vs, ¬ (!le a b) := by
    intro a l us vs hl b hb
    have hsorted := List.pairwise_mergeSort htrans htotal (a :: l)
    rw [hl] at hsorted
    simp [(List.pairwise_cons.mp (List.pairwise_append.mp hsorted).2.1).1 b hb]
  induction l with
  | nil => simp
  | cons a l ih =>
    obtain ⟨xs, ys, hall, hrest, hxs⟩ := List.mergeSort_cons htrans htotal a l
    have hys := hbehind a l xs ys hall
    cases hp : p a with
    | false =>
      rw [List.filter_cons_of_neg (by simp [hp]), ih, hall, hrest]
      simp [hp]
    | true =>
      obtain ⟨us, vs, hall', hrest', hus⟩ := List.mergeSort_cons htrans htotal a (l.filter p)
      have hsame : us ++ vs = xs.filter p ++ ys.filter p := by
        rw [← hrest', ih, hrest, List.filter_append]
      obtain ⟨rfl, rfl⟩ := append_eq_append_of_cut hsame hus (hbehind a _ us vs hall')
        (fun b hb => hxs b (List.mem_filter.mp hb).1) (fun b hb => hys b (List.mem_filter.mp hb).1)
      rw [List.filter_cons_of_pos hp, hall', hall, List.filter_append, List.filter_cons_of_pos hp]

/-- Chunks may be left out before or after they are put in the order of the file. -/
theorem mergeSort_offset_filter (p : ChunkIndex → Bool) (chunks : List ChunkIndex) :
    ((chunks.filter p).mergeSort fun a b => a.offset ≤ b.offset) =
      (chunks.mergeSort fun a b => a.offset ≤ b.offset).filter p := by
  apply mergeSort_filter
  · intro a b c hab hbc
    simp only [decide_eq_true_eq] at hab hbc ⊢
    omega
  · intro a b
    simp only [Bool.or_eq_true, decide_eq_true_eq]
    omega

namespace Cursor

/-- The messages that a cursor has still to give. -/
def upcoming (s : Summary) (file : File) (c : Cursor) : List Entry :=
  c.ready.filterMap s.entry? ++ c.chunks.flatMap fun chunk =>
    ((chunk.messages file).filter fun m => c.start ≤ m.logTime).filterMap s.entry?

/-- A cursor on the chunks of a summary, with messages of known channels only. -/
structure Sound (s : Summary) (c : Cursor) : Prop where
  chunks : ∀ chunk ∈ c.chunks, chunk ∈ s.chunks
  known : ∀ m ∈ c.ready, (s.channel? m.channelId).isSome

variable {s : Summary} {file : File}

theorem filterMap_entry_cons {m : Stored} (ms : List Stored)
    (h : (s.channel? m.channelId).isSome) :
    ∃ channel, s.channel? m.channelId = some channel ∧
      (m :: ms).filterMap s.entry? =
        ⟨channel, m.logTime, m.payload⟩ :: ms.filterMap s.entry? := by
  obtain ⟨channel, hc⟩ := Option.isSome_iff_exists.mp h
  exact ⟨channel, hc, by simp [Summary.entry?, hc]⟩

theorem taken_upcoming {start : Nanos} {chunks : List ChunkIndex} {m : Stored} {ms : List Stored}
    (hc : Sound s ⟨start, m :: ms, chunks⟩) :
    ∃ c', taken s ⟨start, [], chunks⟩ m ms =
        (.ok ((upcoming s file ⟨start, m :: ms, chunks⟩).head?), c') ∧ c'.start = start ∧
      c'.Sound s ∧ c'.upcoming s file = (upcoming s file ⟨start, m :: ms, chunks⟩).tail := by
  obtain ⟨channel, hm, hcons⟩ := filterMap_entry_cons ms (hc.known m (by simp))
  refine ⟨⟨start, ms, chunks⟩, ?_, rfl, ⟨hc.chunks, fun m' hm' => hc.known m' (by simp [hm'])⟩, ?_⟩
  · simp [taken, hm, upcoming, hcons]
  · simp [upcoming, hcons]

theorem loadNext_upcoming (h : s.Readable file) (start : Nanos) (chunks : List ChunkIndex)
    (hchunks : ∀ chunk ∈ chunks, chunk ∈ s.chunks) :
    ∃ c', loadNext s file start chunks = (.ok (upcoming s file ⟨start, [], chunks⟩).head?, c') ∧
      c'.start = start ∧ c'.Sound s ∧ c'.upcoming s file = (upcoming s file ⟨start, [], chunks⟩).tail := by
  induction chunks with
  | nil => exact ⟨⟨start, [], []⟩, rfl, rfl, ⟨by simp, by simp⟩, rfl⟩
  | cons chunk chunks ih =>
    have hmem := hchunks chunk (by simp)
    have hrest : ∀ c ∈ chunks, c ∈ s.chunks := fun c hc => hchunks c (by simp [hc])
    have hload : chunk.load file start =
        .ok ((chunk.messages file).filter fun m => start ≤ m.logTime) := by
      rw [chunk.load_from, h.loads chunk hmem]
      rfl
    have hknown : ∀ m ∈ (chunk.messages file).filter fun m => start ≤ m.logTime,
        (s.channel? m.channelId).isSome :=
      fun m hm => h.known chunk hmem m (List.mem_filter.mp hm).1
    simp only [loadNext, hload]
    cases hms : (chunk.messages file).filter fun m => start ≤ m.logTime with
    | nil => simpa [upcoming, hms] using ih hrest
    | cons m ms =>
      rw [hms] at hknown
      have hsound : Sound s ⟨start, m :: ms, chunks⟩ := ⟨hrest, hknown⟩
      obtain ⟨c', htaken, hstart, hc', hup⟩ := taken_upcoming hsound
      exact ⟨c', by simpa [upcoming, hms] using htaken, hstart, hc',
        by simpa [upcoming, hms] using hup⟩

/-- A turn gives the first of the upcoming messages and leaves the others; at the end it gives
none. -/
theorem next_upcoming (h : s.Readable file) {c : Cursor} (hc : c.Sound s) :
    ∃ c', c.next s file = (.ok (c.upcoming s file).head?, c') ∧ c'.start = c.start ∧
      c'.Sound s ∧ c'.upcoming s file = (c.upcoming s file).tail := by
  obtain ⟨start, ready, chunks⟩ := c
  cases ready with
  | nil => exact loadNext_upcoming h start chunks hc.chunks
  | cons m ms =>
    exact taken_upcoming hc

/-- What a cursor at a time leaves out of a chunk because of its index is earlier. -/
theorem filter_messages_eq_nil {chunk : ChunkIndex} {start : Nanos} (h : s.Readable file)
    (hmem : chunk ∈ s.chunks) (hend : ¬ start ≤ chunk.endTime) :
    ((chunk.messages file).filter fun m => start ≤ m.logTime) = [] := by
  apply List.filter_eq_nil_iff.mpr
  intro m hm hle
  exact hend (UInt64.le_trans (of_decide_eq_true hle) (h.bounded chunk hmem m hm))

theorem upcoming_chunks (h : s.Readable file) (start : Nanos) (chunks : List ChunkIndex)
    (hchunks : ∀ chunk ∈ chunks, chunk ∈ s.chunks) :
    upcoming s file ⟨start, [], chunks.filter fun c => start ≤ c.endTime⟩ =
      (chunks.flatMap fun c => (c.messages file).filterMap s.entry?).filter
        fun e => start ≤ e.logTime := by
  induction chunks with
  | nil => rfl
  | cons chunk chunks ih =>
    have hhead := s.filterMap_entry_from start (chunk.messages file)
    have htail := ih fun c hc => hchunks c (by simp [hc])
    simp only [upcoming, List.filterMap_nil, List.nil_append] at htail ⊢
    rw [List.flatMap_cons, List.filter_append, ← hhead, ← htail]
    by_cases hend : start ≤ chunk.endTime
    · rw [List.filter_cons_of_pos (by simpa using hend), List.flatMap_cons]
    · rw [List.filter_cons_of_neg (by simpa using hend),
        filter_messages_eq_nil h (hchunks chunk (by simp)) hend]
      rfl

/-- In a readable recording a cursor can be put at every time, before exactly the messages that are
not earlier. -/
theorem atTime_upcoming (h : s.Readable file) (start : Nanos) :
    ∃ c, atTime s start = .ok c ∧ c.start = start ∧ c.Sound s ∧
      c.upcoming s file = s.entriesFrom file start := by
  have hfits : (s.chunks.filter fun c => start ≤ c.endTime).find?
      (fun c => UInt64.size ≤ c.dataOffset) = none := by
    apply List.find?_eq_none.mpr
    intro c hc hlarge
    have hlt := ChunkIndex.dataOffset_lt_of_load (h.loads c (List.mem_filter.mp hc).1)
    have hsize : Summary.offsetLimit < UInt64.size := by decide
    have := of_decide_eq_true hlarge
    omega
  refine ⟨⟨start, [], (s.chunks.filter fun c => start ≤ c.endTime).mergeSort
    fun a b => a.offset ≤ b.offset⟩, ?_, rfl, ⟨?_, by simp⟩, ?_⟩
  · simp only [atTime, hfits]
  · intro c hc
    exact (List.mem_filter.mp (List.mem_mergeSort.mp hc)).1
  · rw [mergeSort_offset_filter, upcoming_chunks h start _ fun c hc => List.mem_mergeSort.mp hc]
    rfl

end Cursor

end Replay.Recording
