import Mathlib.Data.List.Perm.Subperm
import Mathlib.Data.List.Nodup
import Replay.Recording.Cursor

/-!
The channels of a recording. A message that a cursor gives has one of the summary's channels, and
there are no more of them than ids of two bytes.
-/

namespace Replay.Recording

/-- The channels that messages can have. -/
def Summary.descriptors (s : Summary) : List Channel := s.channels.map (·.2)

theorem Summary.mem_descriptors_of_channel? {s : Summary} {id : Nat} {c : Channel}
    (h : s.channel? id = some c) : c ∈ s.descriptors := by
  obtain ⟨x, hx, rfl⟩ := Option.map_eq_some_iff.mp h
  exact List.mem_map_of_mem (List.mem_of_find?_eq_some hx)

namespace Cursor

variable {s : Summary} {c c' : Cursor} {e : Entry}

theorem channel_taken {m : Stored} {ms : List Stored}
    (h : taken s c m ms = (.ok (some e), c')) : e.channel ∈ s.descriptors := by
  unfold taken at h
  split at h
  · rename_i channel hchannel
    cases h
    exact s.mem_descriptors_of_channel? hchannel
  · cases h

theorem channel_loadNext {file : File} {start : Nanos} {chunks : List ChunkIndex}
    (h : loadNext s file start chunks = (.ok (some e), c')) : e.channel ∈ s.descriptors := by
  induction chunks with
  | nil => cases h
  | cons chunk chunks ih =>
    unfold loadNext at h
    split at h
    · cases h
    · exact ih h
    · exact channel_taken h

/-- Whatever the file holds, a message has a channel of the summary. -/
theorem channel_next {file : File} (h : c.next s file = (.ok (some e), c')) :
    e.channel ∈ s.descriptors := by
  unfold next at h
  split at h
  · exact channel_taken h
  · exact channel_loadNext h

end Cursor

namespace Summary

/-- Ids of two bytes, each of them once. -/
structure Numbered (s : Summary) : Prop where
  nodup : (s.channels.map (·.1.id)).Nodup
  lt : ∀ x ∈ s.channels, x.1.id < 65536

variable {s s' : Summary}

theorem numbered_empty : empty.Numbered := ⟨List.nodup_nil, nofun⟩

theorem Numbered.of_channels_eq (h : s.Numbered) (heq : s'.channels = s.channels) : s'.Numbered :=
  ⟨heq ▸ h.nodup, heq ▸ h.lt⟩

theorem Numbered.addChannel (h : s.Numbered) {c : ChannelRecord} (hc : c.id < 65536)
    (hs : s.addChannel c = .ok s') : s'.Numbered := by
  unfold Summary.addChannel at hs
  cases hschema : s.schemaOf c with
  | error e =>
    rw [hschema] at hs
    cases hs
  | ok schema =>
    simp only [hschema, bind, Except.bind] at hs
    split at hs
    · split at hs
      · exact Except.ok.inj hs ▸ h
      · cases hs
    · rename_i hnone
      obtain rfl := Except.ok.inj hs
      have hnew : c.id ∉ s.channels.map (·.1.id) := by
        intro hm
        obtain ⟨x, hx, hid⟩ := List.mem_map.mp hm
        exact List.find?_eq_none.mp hnone x hx (beq_iff_eq.mpr hid)
      constructor
      · rw [List.map_append, List.nodup_append]
        refine ⟨h.nodup, List.nodup_singleton _, ?_⟩
        rintro id hm _ hid rfl
        obtain rfl := List.mem_singleton.mp hid
        exact hnew hm
      · intro x hx
        rcases List.mem_append.mp hx with hx | hx
        · exact h.lt x hx
        · obtain rfl := List.mem_singleton.mp hx
          exact hc

theorem Numbered.add (h : s.Numbered) {opcode : UInt8} {bs : Bytes} {r : Record}
    (hr : Record.ofBody opcode bs = .ok r) (hs : s.add r = .ok s') : s'.Numbered := by
  cases r with
  | channel c => exact h.addChannel (Record.channelId_lt_of_ofBody hr) hs
  | schema schema =>
    simp only [Summary.add, addSchema] at hs
    split at hs
    · cases hs
    · split at hs
      · split at hs
        · exact Except.ok.inj hs ▸ h
        · cases hs
      · exact Except.ok.inj hs ▸ h.of_channels_eq rfl
  | chunkIndex _ | statistics _ | footer | message _ | other =>
    exact Except.ok.inj hs ▸ h.of_channels_eq rfl

theorem Numbered.ofRecords {limit turns : Nat} {bs : Bytes} (h : s.Numbered)
    (hs : ofRecords limit turns s bs = .ok s') : s'.Numbered := by
  induction turns generalizing s bs with
  | zero => cases hs
  | succ turns ih =>
    unfold Summary.ofRecords at hs
    split at hs
    · cases hs
    · rename_i head _
      split at hs
      · cases hs
      · split at hs
        · split at hs
          · cases hs
          · exact ih h hs
        · split at hs
          · cases hs
          · cases hrecord : Record.ofBody head.opcode (head.rest.take head.length) with
            | error e =>
              rw [hrecord] at hs
              cases hs
            | ok record =>
              simp only [hrecord, bind, Except.bind] at hs
              split at hs
              · split at hs
                · cases hs
                · split at hs
                  · exact Except.ok.inj hs ▸ h
                  · cases hs
              · split at hs
                · cases hs
                · rename_i hadd
                  exact ih (h.add hrecord hadd) hs

theorem numbered_of_ofFile {file : Bytes} (h : ofFile file = .ok (some s)) : s.Numbered := by
  unfold ofFile at h
  simp only [bind, Except.bind, throw, throwThe, MonadExceptOf.throw, pure, Except.pure] at h
  -- what the checks refuse gives no summary
  iterate 6
    split at h
    · cases h
  split at h
  · rename_i hrecords
    cases h
    exact numbered_empty.ofRecords hrecords
  · cases h

/-- A recording has at most as many channels as there are ids. -/
theorem Numbered.length_le (h : s.Numbered) : s.channels.length ≤ 65536 := by
  have hsub : List.Subperm (s.channels.map (·.1.id)) (List.range 65536) := by
    apply List.Nodup.subperm h.nodup
    intro id hid
    obtain ⟨x, hx, rfl⟩ := List.mem_map.mp hid
    exact List.mem_range.mpr (h.lt x hx)
  simpa using hsub.length_le

end Summary

end Replay.Recording
