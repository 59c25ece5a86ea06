import Mathlib.Data.List.Pairwise
import Replay.Proofs.Recording.Written

/-!
The data section of a recording, between the magic and the summary: chunks and single messages in
any order. Main statement: for a summary that is right about the file, the messages from the start
on that its indexes lead to and those that they do not lead to are together the messages that its
statistics count (`Faithful.length_entriesFrom`).
-/

namespace Replay.Recording

theorem eq_ok_of_map {ε α β : Type} {f : α → β} {r : Except ε α} {b : β} (h : r.map f = .ok b) :
    ∃ a, r = .ok a ∧ f a = b := by
  cases r with
  | error e => cases h
  | ok a => exact ⟨a, rfl, Except.ok.inj h⟩

/-- A chunk at its offset, with its messages, or a message that is in no chunk. -/
inductive Piece where
  | chunk (offset : Nat) (ms : List Stored)
  | message (m : Stored)
  deriving DecidableEq

namespace Piece

def messages : Piece → List Stored
  | .chunk _ ms => ms
  | .message m => [m]

def offset? : Piece → Option Nat
  | .chunk offset _ => some offset
  | .message _ => none

/-- The messages in the body of a chunk record. -/
def chunkMessages (file : File) (body : Bytes) : Except Malformed (List Stored) :=
  let fields : Body (Nat × String × Bytes) := do
    discard (Body.nat 16)
    let size ← Body.nat 8
    discard (Body.nat 4)
    return (size, ← Body.text, ← Body.take (← Body.nat 8))
  match fields body with
  | none => .error .record
  | some ((size, compression, packed), _) => (file.unpack compression size packed).bind stored

/-- The piece that a record is; none if it holds no messages. -/
def ofRecord (file : File) (offset : Nat) (opcode : UInt8) (body : Bytes) :
    Except Malformed (Option Piece) :=
  if opcode = Record.chunkCode then
    (chunkMessages file body).map fun ms => some (.chunk offset ms)
  else if opcode = Record.messageCode then
    (Record.ofBody opcode body).map fun
      | .message m => some (.message m)
      | _ => none
  else .ok none

/-- The pieces among records of a file that begin at an offset. Each turn takes a record off the
front. -/
def ofRecords (file : File) : Nat → Nat → Bytes → Except Malformed (List Piece)
  | 0, _, _ => .ok []
  | turns + 1, offset, bs =>
    match Head.take? bs with
    | none => if bs = [] then .ok [] else .error .fileEnd
    | some head =>
      if head.rest.length < head.length then .error .fileEnd
      else
        match ofRecord file offset head.opcode (head.rest.take head.length) with
        | .error cause => .error cause
        | .ok piece =>
          (ofRecords file turns (offset + 9 + head.length) (head.rest.drop head.length)).map
            (piece.toList ++ ·)

/-- Where the footer says that the summary begins. -/
def summaryStart (file : Bytes) : Nat :=
  Bytes.toNat (((file.drop (file.length - Summary.footerSize)).drop 9).take 8)

/-- The pieces of the data section of a file. -/
def ofFile (file : File) : Except Malformed (List Piece) :=
  ofRecords file file.bytes.length Summary.magic.length
    ((file.bytes.take (summaryStart file.bytes)).drop Summary.magic.length)

theorem offset_ofRecord {file : File} {offset : Nat} {opcode : UInt8} {body : Bytes}
    {piece : Option Piece} (h : ofRecord file offset opcode body = .ok piece) :
    piece.toList.filterMap offset? = [] ∨ piece.toList.filterMap offset? = [offset] := by
  unfold ofRecord at h
  split at h
  · obtain ⟨ms, _, rfl⟩ := eq_ok_of_map h
    exact Or.inr rfl
  · split at h
    · obtain ⟨record, _, rfl⟩ := eq_ok_of_map h
      cases record <;> exact Or.inl rfl
    · cases h
      exact Or.inl rfl

/-- Chunks stand one behind the other. -/
theorem offsets_ofRecords {file : File} {turns offset : Nat} {bs : Bytes} {ps : List Piece}
    (h : ofRecords file turns offset bs = .ok ps) :
    (ps.filterMap offset?).Pairwise (· < ·) ∧ ∀ x ∈ ps.filterMap offset?, offset ≤ x := by
  induction turns generalizing offset bs ps with
  | zero =>
    cases h
    exact ⟨List.Pairwise.nil, nofun⟩
  | succ turns ih =>
    unfold ofRecords at h
    split at h
    · split at h
      · cases h
        exact ⟨List.Pairwise.nil, nofun⟩
      · cases h
    · rename_i head _
      split at h
      · cases h
      · split at h
        · cases h
        · rename_i piece hpiece
          obtain ⟨rest, hrest, rfl⟩ := eq_ok_of_map h
          obtain ⟨hsorted, hbound⟩ := ih hrest
          have hbehind : ∀ x ∈ rest.filterMap offset?, offset < x := by
            intro x hx
            have := hbound x hx
            omega
          rw [List.filterMap_append]
          rcases offset_ofRecord hpiece with hnone | hone
          · rw [hnone, List.nil_append]
            exact ⟨hsorted, fun x hx => Nat.le_of_lt (hbehind x hx)⟩
          · rw [hone, List.singleton_append]
            refine ⟨List.pairwise_cons.mpr ⟨hbehind, hsorted⟩, ?_⟩
            intro x hx
            rcases List.mem_cons.mp hx with rfl | hx
            · exact Nat.le_refl _
            · exact Nat.le_of_lt (hbehind x hx)

/-- Whether two pieces are not chunks at one offset. -/
def Apart (a b : Piece) : Prop := ∀ x, a.offset? = some x → b.offset? ≠ some x

instance : Std.Symm Apart where
  symm _ _ h x hb ha := h x ha hb

theorem apart_ofFile {file : File} {ps : List Piece} (h : ofFile file = .ok ps) :
    ps.Pairwise Apart := by
  refine (List.pairwise_filterMap.mp (offsets_ofRecords h).1).imp ?_
  intro a b hlt x ha hb
  exact Nat.lt_irrefl x (hlt x ha x hb)

end Piece

namespace Summary

/-- Whether the summary has an index of the chunk that a piece is. -/
def indexes (s : Summary) : Piece → Bool
  | .chunk offset _ => s.chunks.any (·.offset == offset)
  | .message _ => false

/-- The messages that no index of the summary leads to. -/
def outside (s : Summary) (ps : List Piece) : List Stored :=
  (ps.filter fun x => !s.indexes x).flatMap Piece.messages

/-- A summary that is right about a file with these pieces: each index leads to a chunk of its own,
and the statistics are those of all messages. -/
structure Faithful (s : Summary) (file : File) (statistics : Statistics) (ps : List Piece) :
    Prop where
  readable : s.Readable file
  indexed : ∀ c ∈ s.chunks, .chunk c.offset (c.messages file) ∈ ps
  once : (s.chunks.map ChunkIndex.offset).Nodup
  statistics_eq : s.statistics = some statistics
  count : statistics.messageCount = (ps.flatMap Piece.messages).length
  start_le : ∀ m ∈ ps.flatMap Piece.messages, statistics.startTime ≤ m.logTime

variable {s : Summary} {file : File} {statistics : Statistics} {ps : List Piece}

/-- The pieces with an index are the chunks that the indexes describe. -/
theorem Faithful.perm (h : s.Faithful file statistics ps) (hps : Piece.ofFile file = .ok ps) :
    (ps.filter s.indexes).Perm
      (s.chunks.map fun c => .chunk c.offset (c.messages file)) := by
  have hapart := Piece.apart_ofFile hps
  have hoffset : ∀ x, s.indexes x → ∃ c ∈ s.chunks, x.offset? = some c.offset := by
    intro x hx
    cases x with
    | message m => cases hx
    | chunk offset ms =>
      obtain ⟨c, hc, heq⟩ := List.any_eq_true.mp hx
      exact ⟨c, hc, congrArg some (beq_iff_eq.mp heq).symm⟩
  refine (List.perm_ext_iff_of_nodup ?_ ?_).mpr ?_
  · refine (hapart.filter _).imp_of_mem ?_
    rintro a _ ha _ hab rfl
    obtain ⟨c, _, hc⟩ := hoffset a (List.mem_filter.mp ha).2
    exact hab _ hc hc
  · refine List.pairwise_map.mpr ((List.pairwise_map.mp h.once).imp ?_)
    intro a b hab heq
    exact hab (Piece.chunk.inj heq).1
  · intro x
    rw [List.mem_filter, List.mem_map]
    constructor
    · rintro ⟨hx, hindex⟩
      obtain ⟨c, hc, ho⟩ := hoffset x hindex
      refine ⟨c, hc, ?_⟩
      apply Decidable.byContradiction
      intro hne
      exact hapart.forall (h.indexed c hc) hx hne _ rfl ho
    · rintro ⟨c, hc, rfl⟩
      exact ⟨h.indexed c hc, List.any_eq_true.mpr ⟨c, hc, beq_self_eq_true _⟩⟩

theorem Faithful.entriesFrom_eq (h : s.Faithful file statistics ps) :
    s.entriesFrom file statistics.startTime = s.entries file := by
  apply List.filter_eq_self.mpr
  intro e he
  obtain ⟨c, hc, he⟩ := List.mem_flatMap.mp he
  obtain ⟨m, hm, hentry⟩ := List.mem_filterMap.mp he
  obtain ⟨channel, _, rfl⟩ := Option.map_eq_some_iff.mp hentry
  have hc' : c ∈ s.chunks := List.mem_mergeSort.mp hc
  exact decide_eq_true (h.start_le m (List.mem_flatMap.mpr ⟨_, h.indexed c hc', hm⟩))

theorem Readable.length_entries (h : s.Readable file) :
    (s.entries file).length = (s.chunks.flatMap fun c => c.messages file).length := by
  have hperm := List.mergeSort_perm s.chunks fun a b => a.offset ≤ b.offset
  rw [entries, (hperm.flatMap_right _).length_eq, List.length_flatMap, List.length_flatMap]
  congr 1
  apply List.map_congr_left
  intro c hc
  refine List.filterMap_length_eq_length.mpr ?_
  intro m hm
  rw [Summary.entry?, Option.isSome_map]
  exact h.known c hc m hm

/-- The messages that can be read from the start on are all but those that no index leads to. -/
theorem Faithful.length_entriesFrom (h : s.Faithful file statistics ps)
    (hps : Piece.ofFile file = .ok ps) :
    (s.entriesFrom file statistics.startTime).length + (s.outside ps).length =
      statistics.messageCount := by
  have hindexed : (s.entries file).length =
      ((ps.filter s.indexes).flatMap Piece.messages).length := by
    rw [h.readable.length_entries, ((h.perm hps).flatMap_right _).length_eq, List.flatMap_map]
    rfl
  have hall := ((List.filter_append_perm s.indexes ps).flatMap_right Piece.messages).length_eq
  rw [List.flatMap_append, List.length_append] at hall
  rw [h.entriesFrom_eq, hindexed, h.count, outside, hall]

end Summary

/-- A recording of indexed chunks and, behind them, of messages that are in no chunk, all on
channel 1 of the topic. -/
def writtenMixed (topic : String) (chunks : List (List Stored)) (single : List Stored) : Bytes :=
  let channel := written Record.channelCode (Bytes.ofNat 2 1 ++ Bytes.ofNat 2 0 ++
    writtenText topic ++ writtenText "json" ++ Bytes.ofNat 4 0)
  let front := Summary.magic ++ written 0x01 (writtenText "" ++ writtenText "") ++ channel
  let data := front ++ chunks.flatMap writtenChunk ++ single.flatMap Stored.written ++
    written 0x0F (Bytes.ofNat 4 0)
  let ms := chunks.flatten ++ single
  let statistics := Bytes.ofNat 8 ms.length ++ Bytes.ofNat 2 0 ++ Bytes.ofNat 4 1 ++
    Bytes.ofNat 8 0 ++ Bytes.ofNat 4 chunks.length ++ Bytes.ofNat 8 (timesOf ms).1 ++
    Bytes.ofNat 8 (timesOf ms).2 ++ Bytes.ofNat 4 10 ++ Bytes.ofNat 2 1 ++ Bytes.ofNat 8 ms.length
  data ++ channel ++ writtenIndexes front.length chunks ++
    written Record.statisticsCode statistics ++
    written Record.footerCode (Bytes.ofNat 8 data.length ++ Bytes.ofNat 12 0) ++ Summary.magic

/-- Two messages in an indexed chunk, and a third that is in no chunk. -/
def mixed : File := .plain (writtenMixed "/a" [[⟨1, 5, [1]⟩, ⟨1, 3, [2]⟩]] [⟨1, 9, [3]⟩])

def mixedPieces : List Piece := [.chunk 56 [⟨1, 5, [1]⟩, ⟨1, 3, [2]⟩], .message ⟨1, 9, [3]⟩]

def mixedSummary : Summary where
  statistics := some ⟨3, 3, 9⟩
  schemas := []
  channels := [(⟨1, 0, "/a", "json", []⟩, ⟨"/a", "json", none⟩)]
  chunks := [⟨5, 56, "", 64, 64⟩]

def mixedDisk : Disk := Disk.empty.write "a" mixed.bytes

theorem mixed_summary : Summary.ofFile mixed.bytes = .ok (some mixedSummary) :=
  eq_ok_of_toOption (by decide +kernel)

theorem mixed_pieces : Piece.ofFile mixed = .ok mixedPieces :=
  eq_ok_of_toOption (by decide +kernel)

theorem mixed_faithful : mixedSummary.Faithful mixed ⟨3, 3, 9⟩ mixedPieces where
  readable :=
    { loads := by
        have h : ∀ c ∈ mixedSummary.chunks,
            (c.load mixed 0).toOption = some (c.messages mixed) := by decide +kernel
        exact fun c hc => eq_ok_of_toOption (h c hc)
      bounded := by decide +kernel
      known := by decide +kernel }
  indexed := by decide +kernel
  once := by decide +kernel
  statistics_eq := rfl
  count := by decide +kernel
  start_le := by decide +kernel

end Replay.Recording
