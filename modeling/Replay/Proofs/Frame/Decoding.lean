import Replay.Frame

/-!
Reading binary frames. Main statement: a frame is read as a message exactly if it is that message's
frame, as a time exactly if that time's frame stands at its front, and as neither exactly if it is of
another kind or cut short (`decode_exact`).
-/

namespace Replay

/-- The bytes from a place on, taken without asking how many there are: `none` is the fault of a
place behind the end. -/
def Bytes.sliceFrom? (place : Nat) (bs : Bytes) : Option Bytes :=
  if place ≤ bs.length then some (bs.drop place) else none

/-- The bytes between two places, if they are all there. -/
def Bytes.between? (first last : Nat) (bs : Bytes) : Option Bytes :=
  if last ≤ bs.length then some ((bs.take last).drop first) else none

namespace Frame

/-- A frame read by the places of its fields. The payload is taken without asking, so that `none`
stands for a fault, and `some none` for bytes that are no frame. -/
def readByPlaces : Bytes → Option (Option Frame)
  | [] => some none
  | code :: rest =>
    if code = messageCode then
      match Bytes.between? 0 4 rest, Bytes.between? 4 12 rest with
      | some channel, some logTime =>
        (Bytes.sliceFrom? 12 rest).map fun payload =>
          some (.message (UInt32.ofNat channel.toNat) (UInt64.ofNat logTime.toNat) payload)
      | _, _ => some none
    else if code = timeCode then
      some ((Bytes.between? 0 8 rest).map fun timestamp => .time (UInt64.ofNat timestamp.toNat))
    else some none

theorem decode_message (rest : Bytes) : decode? (messageCode :: rest) =
    (Bytes.takeNat? 4 rest).bind fun x => (Bytes.takeNat? 8 x.2).map fun y =>
      .message (UInt32.ofNat x.1) (UInt64.ofNat y.1) y.2 := by
  simp only [decode?, if_true, Option.map_eq_bind]
  rfl

theorem decode_time (rest : Bytes) : decode? (timeCode :: rest) =
    (Bytes.takeNat? 8 rest).map fun x => .time (UInt64.ofNat x.1) := by
  have hne : timeCode ≠ messageCode := by decide
  simp only [decode?, hne, if_false, if_true, Option.map_eq_bind]
  rfl

theorem decode_other {code : UInt8} (hm : code ≠ messageCode) (ht : code ≠ timeCode)
    (rest : Bytes) : decode? (code :: rest) = none := by
  simp only [decode?, hm, ht, if_false]

/-- Reading by places never comes to a fault: the bytes in front of the payload are asked for first. -/
theorem readByPlaces_eq (f : Bytes) : readByPlaces f = some (decode? f) := by
  cases f with
  | nil => rfl
  | cons code rest =>
    by_cases hm : code = messageCode
    · subst hm
      by_cases hlen : 12 ≤ rest.length
      · have hfour : 4 ≤ rest.length := by omega
        have height : 8 ≤ rest.length - 4 := by omega
        simp [decode_message, readByPlaces, Bytes.between?, Bytes.sliceFrom?, Bytes.takeNat?, hlen,
          hfour, height, List.drop_take]
      · have hnone : decode? (messageCode :: rest) = none := by
          rw [decode_message, Option.bind_eq_none_iff]
          intro x hx
          rw [Option.map_eq_none_iff, Bytes.takeNat?_eq_none_iff]
          obtain ⟨rfl, _⟩ := Bytes.takeNat?_eq_some_iff.mp hx
          rw [List.length_append, Bytes.length_ofNat] at hlen
          omega
        rw [hnone]
        simp [readByPlaces, Bytes.between?, hlen]
    · by_cases ht : code = timeCode
      · subst ht
        by_cases hlen : 8 ≤ rest.length <;>
          simp [decode_time, readByPlaces, hm, Bytes.between?, Bytes.takeNat?, hlen]
      · simp [decode_other hm ht, readByPlaces, hm, ht]

theorem decode_encode (m : Frame) : decode? (encode m) = some m := by
  cases m with
  | message channel logTime payload =>
    have hchannel : Bytes.takeNat? 4 (Bytes.ofNat 4 channel.toNat ++
        (Bytes.ofNat 8 logTime.toNat ++ payload)) =
        some (channel.toNat, Bytes.ofNat 8 logTime.toNat ++ payload) :=
      Bytes.takeNat?_eq_some_iff.mpr ⟨rfl, channel.toNat_lt⟩
    have htime : Bytes.takeNat? 8 (Bytes.ofNat 8 logTime.toNat ++ payload) =
        some (logTime.toNat, payload) :=
      Bytes.takeNat?_eq_some_iff.mpr ⟨rfl, logTime.toNat_lt⟩
    simp [encode, decode_message, hchannel, htime]
  | time timestamp =>
    have htime : Bytes.takeNat? 8 (Bytes.ofNat 8 timestamp.toNat) = some (timestamp.toNat, []) :=
      Bytes.takeNat?_eq_some_iff.mpr ⟨(List.append_nil _).symm, timestamp.toNat_lt⟩
    simp [encode, decode_time, htime]

theorem encode_injective : Function.Injective encode := by
  intro a b h
  have hdecode := congrArg decode? h
  rw [decode_encode, decode_encode] at hdecode
  exact Option.some.inj hdecode

/-- What is read is the frame of a message, or it begins with the frame of a time. -/
theorem decode_cases {f : Bytes} {m : Frame} (h : decode? f = some m) :
    (∃ channel logTime payload, m = .message channel logTime payload ∧ f = encode m) ∨
    (∃ timestamp behind, m = .time timestamp ∧ f = encode m ++ behind) := by
  cases f with
  | nil => cases h
  | cons code rest =>
    by_cases hm : code = messageCode
    · subst hm
      rw [decode_message] at h
      obtain ⟨x, hx, h⟩ := Option.bind_eq_some_iff.mp h
      obtain ⟨y, hy, rfl⟩ := Option.map_eq_some_iff.mp h
      obtain ⟨hrest, hchannel⟩ := Bytes.takeNat?_eq_some_iff.mp hx
      obtain ⟨hrest', htime⟩ := Bytes.takeNat?_eq_some_iff.mp hy
      refine Or.inl ⟨_, _, _, rfl, ?_⟩
      rw [encode, UInt32.toNat_ofNat_of_lt' hchannel, UInt64.toNat_ofNat_of_lt' htime, ← hrest',
        ← hrest]
    · by_cases ht : code = timeCode
      · subst ht
        rw [decode_time] at h
        obtain ⟨x, hx, rfl⟩ := Option.map_eq_some_iff.mp h
        obtain ⟨hrest, htime⟩ := Bytes.takeNat?_eq_some_iff.mp hx
        refine Or.inr ⟨_, x.2, rfl, ?_⟩
        rw [encode, UInt64.toNat_ofNat_of_lt' htime, hrest]
        rfl
      · rw [decode_other hm ht] at h
        cases h

theorem decode_eq_message_iff {f : Bytes} {channel : ChannelId} {logTime : Nanos}
    {payload : Bytes} : decode? f = some (.message channel logTime payload) ↔
      f = encode (.message channel logTime payload) := by
  constructor
  · intro h
    rcases decode_cases h with ⟨_, _, _, _, hf⟩ | ⟨_, _, hm, _⟩
    · exact hf
    · cases hm
  · rintro rfl
    exact decode_encode _

theorem decode_eq_time_iff {f : Bytes} {timestamp : Nanos} :
    decode? f = some (.time timestamp) ↔ encode (.time timestamp) <+: f := by
  constructor
  · intro h
    rcases decode_cases h with ⟨_, _, _, hm, _⟩ | ⟨_, behind, _, hf⟩
    · cases hm
    · exact ⟨behind, hf.symm⟩
  · rintro ⟨behind, rfl⟩
    have htime : Bytes.takeNat? 8 (Bytes.ofNat 8 timestamp.toNat ++ behind) =
        some (timestamp.toNat, behind) :=
      Bytes.takeNat?_eq_some_iff.mpr ⟨rfl, timestamp.toNat_lt⟩
    rw [encode, List.cons_append, decode_time, htime]
    simp

/-- Bytes that are cut short for their code, or whose code is none of the two. -/
def IsNoFrame (f : Bytes) : Prop :=
  match f with
  | [] => True
  | code :: _ =>
    if code = messageCode then f.length < 13 else if code = timeCode then f.length < 9 else True

theorem decode_eq_none_iff {f : Bytes} : decode? f = none ↔ IsNoFrame f := by
  cases f with
  | nil => exact iff_of_true rfl trivial
  | cons code rest =>
    by_cases hm : code = messageCode
    · subst hm
      rw [decode_message, Option.bind_eq_none_iff, IsNoFrame, if_pos rfl, List.length_cons]
      constructor
      · intro h
        by_cases hfour : rest.length < 4
        · omega
        · have htake : Bytes.takeNat? 4 rest = some (Bytes.toNat (rest.take 4), rest.drop 4) :=
            if_pos (by omega)
          have hrest := Bytes.takeNat?_eq_none_iff.mp (Option.map_eq_none_iff.mp (h _ htake))
          rw [List.length_drop] at hrest
          omega
      · intro hlen x hx
        rw [Option.map_eq_none_iff, Bytes.takeNat?_eq_none_iff]
        obtain ⟨rfl, _⟩ := Bytes.takeNat?_eq_some_iff.mp hx
        rw [List.length_append, Bytes.length_ofNat] at hlen
        omega
    · by_cases ht : code = timeCode
      · subst ht
        rw [decode_time, Option.map_eq_none_iff, Bytes.takeNat?_eq_none_iff, IsNoFrame, if_neg hm,
          if_pos rfl, List.length_cons]
        omega
      · rw [IsNoFrame, if_neg hm, if_neg ht]
        exact iff_of_true (decode_other hm ht rest) trivial

/-- The frames of messages and of times have nothing in common, also with bytes behind them. -/
theorem not_prefix_of_message {f : Bytes} {timestamp logTime : Nanos} {channel : ChannelId}
    {payload : Bytes} (h : encode (.message channel logTime payload) <+: f) :
    ¬ encode (.time timestamp) <+: f := by
  rintro ⟨_, rfl⟩
  obtain ⟨_, h⟩ := h
  exact absurd (List.cons.inj h).1 (by decide)

/-- For all bytes: reading them comes to no fault; it gives a message exactly if they are the frame
of that message, a time exactly if the frame of that time stands at their front, and nothing exactly
if they are cut short or of another kind; and no bytes begin with frames of both kinds. So every frame
is read as what it was written from, and two frames differ if they say different things. -/
theorem decode_exact :
    (∀ f, readByPlaces f = some (decode? f) ∧
      (∀ channel logTime payload, decode? f = some (.message channel logTime payload) ↔
        f = encode (.message channel logTime payload)) ∧
      (∀ timestamp, decode? f = some (.time timestamp) ↔ encode (.time timestamp) <+: f) ∧
      (decode? f = none ↔ IsNoFrame f) ∧
      (∀ channel logTime payload timestamp, encode (.message channel logTime payload) <+: f →
        ¬ encode (.time timestamp) <+: f)) ∧
    (∀ m, decode? (encode m) = some m) ∧ Function.Injective encode := by
  refine ⟨fun f => ⟨readByPlaces_eq f, ?_, ?_, decode_eq_none_iff, ?_⟩, decode_encode,
    encode_injective⟩
  · intro channel logTime payload
    exact decode_eq_message_iff
  · intro timestamp
    exact decode_eq_time_iff
  · intro channel logTime payload timestamp
    exact not_prefix_of_message

example : encode (.message 7 258 [9]) = [1, 7, 0, 0, 0, 2, 1, 0, 0, 0, 0, 0, 0, 9] := by decide

end Frame

end Replay
