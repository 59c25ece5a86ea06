import Mathlib.Data.List.Induction
import Replay.Proofs.Hub.Channels
import Replay.Proofs.Server.History

/-!
The ids that a hub gives to topics. Whatever calls are made of it, its channels are the first ones
of their topics, numbered in that order from one on, and each is announced once (`numbering`).
-/

namespace Replay

/-- What can be asked of a sink. -/
inductive Call where
  | time (t : Nanos)
  | state (x : State)
  | channel (c : Channel)
  | log (id : ChannelId) (payload : Bytes) (t : Nanos)
  deriving DecidableEq

namespace Call

def channel? : Call → Option Channel
  | .channel c => some c
  | _ => none

theorem eq_channel {call : Call} {c : Channel} (h : call.channel? = some c) : call = .channel c := by
  cases call with
  | channel _ => exact congrArg Call.channel (Option.some.inj h)
  | time _ | state _ | log _ _ _ => cases h

variable {σ : Type} [Sink σ]

def make (s : σ) : Call → σ
  | .time t => Sink.time t s
  | .state x => Sink.state x s
  | .channel c => (Sink.addChannel c s).2
  | .log id payload t => Sink.log id payload t s

/-- The call with the answer that the sink gives to it. -/
def answered (s : σ) : Call → Event
  | .time t => .time t
  | .state x => .state x
  | .channel c => .channel (Sink.addChannel c s).1 c
  | .log id payload t => .message id payload t

def makeAll (s : σ) (calls : List Call) : σ := calls.foldl make s

def answers (s : σ) : List Call → List Event
  | [] => []
  | c :: calls => c.answered s :: answers (c.make s) calls

variable (s : σ) (calls more : List Call)

theorem makeAll_append : makeAll s (calls ++ more) = makeAll (makeAll s calls) more :=
  List.foldl_append

theorem answers_append :
    answers s (calls ++ more) = answers s calls ++ answers (makeAll s calls) more := by
  induction calls generalizing s with
  | nil => rfl
  | cons c calls ih =>
    rw [List.cons_append, answers, answers, ih, List.cons_append]
    rfl

theorem length_answers : (answers s calls).length = calls.length := by
  induction calls generalizing s with
  | nil => rfl
  | cons c calls ih => rw [answers, List.length_cons, ih, List.length_cons]

end Call

/-- The channels that come first with their topics. -/
def firsts : List Channel → List Channel
  | [] => []
  | c :: cs => c :: (firsts cs).filter (·.topic ≠ c.topic)

theorem mem_of_mem_firsts {cs : List Channel} {c : Channel} (h : c ∈ firsts cs) : c ∈ cs := by
  induction cs with
  | nil => cases h
  | cons a cs ih =>
    rcases List.mem_cons.mp h with rfl | h
    · exact List.mem_cons_self
    · exact List.mem_cons_of_mem a (ih (List.mem_filter.mp h).1)

theorem nodup_firsts (cs : List Channel) : ((firsts cs).map (·.topic)).Nodup := by
  induction cs with
  | nil => exact List.nodup_nil
  | cons c cs ih =>
    rw [firsts, List.map_cons, List.nodup_cons]
    refine ⟨?_, (List.filter_sublist.map _).nodup ih⟩
    intro hm
    obtain ⟨a, ha, htopic⟩ := List.mem_map.mp hm
    have hne := (List.mem_filter.mp ha).2
    simp [htopic] at hne

theorem topic_mem_filter {cs : List Channel} {topic other : String} :
    topic ∈ (cs.filter (·.topic ≠ other)).map (·.topic) ↔
      topic ∈ cs.map (·.topic) ∧ topic ≠ other := by
  simp only [List.mem_map, List.mem_filter, decide_eq_true_eq]
  constructor
  · rintro ⟨c, ⟨hc, hne⟩, rfl⟩
    exact ⟨⟨c, hc, rfl⟩, hne⟩
  · rintro ⟨⟨c, hc, rfl⟩, hne⟩
    exact ⟨c, ⟨hc, hne⟩, rfl⟩

/-- One more channel is the first of its topic, or that topic came before. -/
theorem firsts_concat (cs : List Channel) (c : Channel) :
    firsts (cs ++ [c]) =
      if c.topic ∈ (firsts cs).map (·.topic) then firsts cs else firsts cs ++ [c] := by
  induction cs with
  | nil => rfl
  | cons b cs ih =>
    rw [List.cons_append, firsts, ih, firsts]
    by_cases hb : c.topic = b.topic
    · have hmem : c.topic ∈ (b :: (firsts cs).filter (·.topic ≠ b.topic)).map (·.topic) := by
        rw [List.map_cons, hb]
        exact List.mem_cons_self
      rw [if_pos hmem]
      split
      · rfl
      · simp [List.filter_append, hb]
    · have hiff : c.topic ∈ (b :: (firsts cs).filter (·.topic ≠ b.topic)).map (·.topic) ↔
          c.topic ∈ (firsts cs).map (·.topic) := by
        rw [List.map_cons, List.mem_cons, topic_mem_filter]
        exact ⟨fun h => (h.resolve_left hb).1, fun h => Or.inr ⟨h, hb⟩⟩
      by_cases hold : c.topic ∈ (firsts cs).map (·.topic)
      · rw [if_pos hold, if_pos (hiff.mpr hold)]
      · rw [if_neg hold, if_neg fun h => hold (hiff.mp h)]
        simp [List.filter_append, hb]

namespace Hub

/-- The channels under the ids from one on. -/
def numbered (cs : List Channel) : List Advertised :=
  cs.mapIdx fun i c => c.advertise (UInt32.ofNat (i + 1))

/-- What is announced of channels. -/
def Posting.channels? : Posting → Option (List Advertised)
  | .everyone (.message (.advertise cs)) => some cs
  | _ => none

/-- What the calls put into the feed. -/
def published (h : Hub) : List Call → List Posting
  | [] => []
  | c :: calls => Server.posted h (c.make h) ++ published (c.make h) calls

theorem published_append (h : Hub) (calls more : List Call) :
    h.published (calls ++ more) = h.published calls ++ (Call.makeAll h calls).published more := by
  induction calls generalizing h with
  | nil => rfl
  | cons c calls ih =>
    rw [List.cons_append, published, published, ih, List.append_assoc]
    rfl

/-- What a hub, its answers and what it has published say of the channels that came first with
their topics. -/
structure Numbering (cs : List Channel) (h : Hub) (answers : List Event)
    (published : List Posting) : Prop where
  topics : h.topics = cs.mapIdx fun i c => (c.topic, UInt32.ofNat (i + 1))
  channels : h.channels = numbered cs
  nextChannel : h.nextChannel = UInt32.ofNat (cs.length + 1)
  answered : ∀ id c, .channel id c ∈ answers →
    ∃ i a, cs[i]? = some a ∧ a.topic = c.topic ∧ id = UInt32.ofNat (i + 1)
  announced : published.filterMap Posting.channels? = (numbered cs).map fun a => [a]
  sent : h.feed.sent = published.length

theorem numbered_concat (cs : List Channel) (c : Channel) :
    numbered (cs ++ [c]) = numbered cs ++ [c.advertise (UInt32.ofNat (cs.length + 1))] :=
  List.mapIdx_concat

theorem mem_numbered {cs : List Channel} {a : Advertised} :
    a ∈ numbered cs ↔
      ∃ i, ∃ c : Channel, cs[i]? = some c ∧ c.advertise (UInt32.ofNat (i + 1)) = a := by
  simp only [numbered, List.mem_mapIdx, List.getElem?_eq_some_iff]
  constructor
  · rintro ⟨i, hi, h⟩
    exact ⟨i, cs[i], ⟨hi, rfl⟩, h⟩
  · rintro ⟨i, _, ⟨hi, rfl⟩, h⟩
    exact ⟨i, hi, h⟩

theorem toNat_ofNat_succ {i n : Nat} (hi : i < n) (hn : n < UInt32.size) :
    (UInt32.ofNat (i + 1)).toNat = i + 1 :=
  UInt32.toNat_ofNat_of_lt' (by omega)

/-- Channels that are numbered stand in the order of their ids. -/
theorem ordered_numbered {cs : List Channel} (h : cs.length < UInt32.size) :
    Ordered (numbered cs) := by
  rw [Ordered, List.pairwise_iff_getElem]
  intro i j hi hj hij
  have hlen : (numbered cs).length = cs.length := List.length_mapIdx
  simp only [numbered, List.getElem_mapIdx, Channel.id_advertise, UInt32.lt_iff_toNat_lt]
  rw [toNat_ofNat_succ (hlen ▸ hi) h, toNat_ofNat_succ (hlen ▸ hj) h]
  omega

/-- A channel with a greater id than all others comes behind them. -/
theorem insertChannel_of_lt {a : Advertised} {cs : List Advertised} (h : ∀ b ∈ cs, b.id < a.id) :
    insertChannel a cs = cs ++ [a] := by
  induction cs with
  | nil => rfl
  | cons b cs ih =>
    have hb : b.id < a.id := h b List.mem_cons_self
    have hrest : insertChannel a cs = cs ++ [a] := ih fun x hx => h x (List.mem_cons_of_mem b hx)
    rw [insertChannel, if_neg (UInt32.lt_asymm hb), if_neg (UInt32.ne_of_lt hb).symm, hrest]
    rfl

namespace Numbering

variable {cs : List Channel} {h : Hub} {answers : List Event} {published : List Posting}

/-- A topic that came before has the number of its first channel, and others have none. -/
theorem topicId_cases (hn : Numbering cs h answers published) (topic : String) :
    (topic ∈ cs.map (·.topic) ∧ ∃ i a, cs[i]? = some a ∧ a.topic = topic ∧
      h.topicId? topic = some (UInt32.ofNat (i + 1))) ∨
    (topic ∉ cs.map (·.topic) ∧ h.topicId? topic = none) := by
  cases hfound : h.topics.find? (·.1 == topic) with
  | some x =>
    have htopic : x.1 = topic := by simpa using List.find?_some hfound
    have hmem := List.mem_of_find?_eq_some hfound
    rw [hn.topics, List.mem_mapIdx] at hmem
    obtain ⟨i, hi, rfl⟩ := hmem
    refine Or.inl ⟨htopic ▸ List.mem_map_of_mem (List.getElem_mem hi), i, cs[i],
      List.getElem?_eq_getElem hi, htopic, ?_⟩
    rw [topicId?, hfound]
    rfl
  | none =>
    refine Or.inr ⟨?_, by rw [topicId?, hfound]; rfl⟩
    intro hm
    obtain ⟨a, ha, rfl⟩ := List.mem_map.mp hm
    obtain ⟨i, hi, rfl⟩ := List.getElem_of_mem ha
    have hentry : (cs[i].topic, UInt32.ofNat (i + 1)) ∈ h.topics := by
      rw [hn.topics, List.mem_mapIdx]
      exact ⟨i, hi, rfl⟩
    exact List.find?_eq_none.mp hfound _ hentry (beq_self_eq_true _)

/-- What concerns no channel is published and changes nothing else. -/
theorem other (hn : Numbering cs h answers published) {h' : Hub} {p : Posting} {e : Event}
    (htopics : h'.topics = h.topics) (hchannels : h'.channels = h.channels)
    (hnext : h'.nextChannel = h.nextChannel) (hfeed : h'.feed = h.feed.push p)
    (hp : p.channels? = none) (he : ∀ id c, .channel id c ≠ e) :
    Numbering cs h' (answers ++ [e]) (published ++ [p]) where
  topics := htopics.trans hn.topics
  channels := hchannels.trans hn.channels
  nextChannel := hnext.trans hn.nextChannel
  answered id c hm := by
    rcases List.mem_append.mp hm with hm | hm
    · exact hn.answered id c hm
    · exact absurd (List.mem_singleton.mp hm) (he id c)
  announced := by simpa [hp] using hn.announced
  sent := by rw [hfeed, Feed.sent_push, hn.sent, List.length_append, List.length_singleton]

/-- A topic that came before keeps its id. -/
theorem known (hn : Numbering cs h answers published) {c : Channel} {i : Nat} {a : Channel}
    (ha : cs[i]? = some a) (htopic : a.topic = c.topic) :
    Numbering cs h (answers ++ [.channel (UInt32.ofNat (i + 1)) c]) published := by
  refine ⟨hn.topics, hn.channels, hn.nextChannel, ?_, hn.announced, hn.sent⟩
  intro id d hm
  rcases List.mem_append.mp hm with hm | hm
  · exact hn.answered id d hm
  · obtain ⟨rfl, rfl⟩ := Event.channel.inj (List.mem_singleton.mp hm)
    exact ⟨i, a, ha, htopic, rfl⟩

/-- A new topic gets the next id, and its channel is announced. -/
theorem entered (hn : Numbering cs h answers published) {c : Channel}
    (hfew : cs.length + 1 < UInt32.size) :
    Numbering (cs ++ [c]) ((h.enterChannel c).2.announceChannel (h.enterChannel c).1)
      (answers ++ [.channel h.nextChannel c])
      (published ++ [.everyone (.message (.advertise [c.advertise h.nextChannel]))]) where
  topics := by
    rw [List.mapIdx_concat, ← hn.topics, ← hn.nextChannel]
    rfl
  channels := by
    have hlt : ∀ b ∈ numbered cs, b.id < (c.advertise h.nextChannel).id := by
      intro b hb
      obtain ⟨i, d, hd, rfl⟩ := mem_numbered.mp hb
      obtain ⟨hi, _⟩ := List.getElem?_eq_some_iff.mp hd
      rw [Channel.id_advertise, Channel.id_advertise, hn.nextChannel, UInt32.lt_iff_toNat_lt,
        UInt32.toNat_ofNat_of_lt' hfew, toNat_ofNat_succ hi (by omega)]
      omega
    have hinsert := insertChannel_of_lt hlt
    rw [numbered_concat, ← hn.nextChannel, ← hinsert, ← hn.channels]
    rfl
  nextChannel := by
    rw [List.length_append, List.length_singleton, UInt32.ofNat_add, ← hn.nextChannel]
    rfl
  answered id d hm := by
    rcases List.mem_append.mp hm with hm | hm
    · obtain ⟨i, a, ha, htopic, hid⟩ := hn.answered id d hm
      exact ⟨i, a, List.getElem?_append_left (List.getElem?_eq_some_iff.mp ha).1 ▸ ha, htopic, hid⟩
    · obtain ⟨rfl, rfl⟩ := Event.channel.inj (List.mem_singleton.mp hm)
      exact ⟨cs.length, d, List.getElem?_concat_length, rfl, hn.nextChannel⟩
  announced := by
    rw [numbered_concat, ← hn.nextChannel, List.filterMap_append, hn.announced, List.map_append]
    rfl
  sent := by
    rw [List.length_append, List.length_singleton, ← hn.sent]
    rfl

theorem start (info : ServerInfo) (capacity : Nat) :
    Numbering [] (Hub.start info capacity) [] [] :=
  ⟨rfl, rfl, rfl, nofun, rfl, rfl⟩

/-- A call that concerns no channel. -/
theorem make (hn : Numbering cs h answers published) {call : Call} (hcall : call.channel? = none) :
    Numbering cs (call.make h) (answers ++ [call.answered h])
      (published ++ Server.posted h (call.make h)) := by
  cases call with
  | time t =>
    rw [Server.posted_of_push (p := .everyone (.frame (.time t))) rfl]
    exact hn.other rfl rfl rfl rfl rfl nofun
  | state x =>
    rw [Server.posted_of_push (p := .everyone (.message (.state x))) rfl]
    exact hn.other rfl rfl rfl rfl rfl nofun
  | log id payload t =>
    rw [Server.posted_of_push (p := .subscribers id (.frame (.message id t payload))) rfl]
    exact hn.other rfl rfl rfl rfl rfl nofun
  | channel c => cases hcall

theorem makeChannel (hn : Numbering cs h answers published) (c : Channel)
    (hfew : cs.length + 1 < UInt32.size) :
    Numbering (if c.topic ∈ cs.map (·.topic) then cs else cs ++ [c]) ((Call.channel c).make h)
      (answers ++ [(Call.channel c).answered h])
      (published ++ Server.posted h ((Call.channel c).make h)) := by
  rcases hn.topicId_cases c.topic with ⟨hold, i, a, ha, htopic, hid⟩ | ⟨hnew, hid⟩
  · have hmake : h.addChannel c = (UInt32.ofNat (i + 1), h) := by rw [addChannel, hid]
    simp only [Call.make, Call.answered, Sink.addChannel, hmake, Server.posted_of_feed_eq,
      List.append_nil, if_pos hold]
    exact hn.known ha htopic
  · have hmake : h.addChannel c = (h.nextChannel,
        (h.enterChannel c).2.announceChannel (h.enterChannel c).1) := by
      simp only [addChannel, hid, enterChannel, Channel.id_advertise]
    have hposted : Server.posted h ((h.enterChannel c).2.announceChannel (h.enterChannel c).1) =
        [.everyone (.message (.advertise [c.advertise h.nextChannel]))] :=
      Server.posted_of_push rfl
    simp only [Call.make, Call.answered, Sink.addChannel, hmake, hposted, if_neg hnew]
    exact hn.entered hfew

end Numbering

/-- After any calls: the channels that came first with their topics have the numbers from one on,
and each of them is announced once. -/
theorem numbering (info : ServerInfo) (capacity : Nat) (calls : List Call)
    (hfew : (firsts (calls.filterMap Call.channel?)).length < UInt32.size - 1) :
    Numbering (firsts (calls.filterMap Call.channel?))
      (Call.makeAll (Hub.start info capacity) calls)
      (Call.answers (Hub.start info capacity) calls)
      ((Hub.start info capacity).published calls) := by
  induction calls using List.reverseRecOn with
  | nil => exact Numbering.start info capacity
  | append_singleton calls call ih =>
    rw [List.filterMap_append] at hfew ⊢
    rw [Call.makeAll_append, Call.answers_append, published_append]
    simp only [Call.makeAll, List.foldl_cons, List.foldl_nil, Call.answers, published,
      List.append_nil]
    cases hcall : call.channel? with
    | none =>
      have hnothing : [call].filterMap Call.channel? = [] := by simp [hcall]
      rw [hnothing, List.append_nil] at hfew ⊢
      exact (ih hfew).make hcall
    | some c =>
      obtain rfl : call = .channel c := Call.eq_channel hcall
      have hone : [Call.channel c].filterMap Call.channel? = [c] := rfl
      rw [hone, firsts_concat] at hfew ⊢
      have hlen : (firsts (calls.filterMap Call.channel?)).length < UInt32.size - 1 := by
        split at hfew
        · exact hfew
        · rw [List.length_append] at hfew
          omega
      exact (ih hlen).makeChannel c (by omega)

/-- Each topic has one id, a channel that describes it and one announcement; `cs` are the channels
that came first with their topics. -/
structure OnePerTopic (cs : List Channel) (h : Hub) (answers : List Event)
    (published : List Posting) : Prop where
  /-- The id of a topic is its place in the order of first appearance. -/
  place : ∀ id c, .channel id c ∈ answers →
    ∃ i a, cs[i]? = some a ∧ a.topic = c.topic ∧ id.toNat = i + 1
  same_iff : ∀ id c id' c', .channel id c ∈ answers → .channel id' c' ∈ answers →
    (id = id' ↔ c.topic = c'.topic)
  channels : h.channels = numbered cs
  ids : h.channels.map (·.id.toNat) = List.range' 1 cs.length
  ordered : Ordered h.channels
  announced : published.filterMap Posting.channels? = h.channels.map fun a => [a]
  sent : h.feed.sent = published.length

theorem Numbering.place {cs : List Channel} {h : Hub} {answers : List Event}
    {published : List Posting} (hn : Numbering cs h answers published)
    (hfew : cs.length < UInt32.size) {id : ChannelId} {c : Channel} (hm : .channel id c ∈ answers) :
    ∃ i a, cs[i]? = some a ∧ a.topic = c.topic ∧ id.toNat = i + 1 := by
  obtain ⟨i, a, ha, htopic, rfl⟩ := hn.answered id c hm
  exact ⟨i, a, ha, htopic, toNat_ofNat_succ (List.getElem?_eq_some_iff.mp ha).1 hfew⟩

theorem ids_numbered {cs : List Channel} (h : cs.length < UInt32.size) :
    (numbered cs).map (·.id.toNat) = List.range' 1 cs.length := by
  have hlen : ((numbered cs).map (·.id.toNat)).length = (List.range' 1 cs.length).length := by
    simp [numbered]
  apply List.ext_getElem hlen
  intro i hi _
  rw [hlen, List.length_range'] at hi
  simp only [numbered, List.getElem_map, List.getElem_mapIdx, Channel.id_advertise,
    toNat_ofNat_succ hi h, List.getElem_range', Nat.one_mul, Nat.add_comm]

theorem Numbering.onePerTopic {calls : List Channel} {h : Hub} {answers : List Event}
    {published : List Posting} (hn : Numbering (firsts calls) h answers published)
    (hfew : (firsts calls).length < UInt32.size) :
    OnePerTopic (firsts calls) h answers published where
  place _ _ hm := hn.place hfew hm
  same_iff id c id' c' hm hm' := by
    obtain ⟨i, a, ha, htopic, hid⟩ := hn.place hfew hm
    obtain ⟨j, b, hb, htopic', hid'⟩ := hn.place hfew hm'
    have htopics : ∀ (i : Nat) (a : Channel), (firsts calls)[i]? = some a →
        ((firsts calls).map (·.topic))[i]? = some a.topic := by
      intro i a ha
      rw [List.getElem?_map, ha]
      rfl
    constructor
    · rintro rfl
      obtain rfl : i = j := by omega
      obtain rfl : a = b := Option.some.inj (ha.symm.trans hb)
      exact htopic.symm.trans htopic'
    · intro heq
      have hi : i < ((firsts calls).map (·.topic)).length :=
        (List.getElem?_eq_some_iff.mp (htopics i a ha)).1
      have hsame : ((firsts calls).map (·.topic))[i]? = ((firsts calls).map (·.topic))[j]? := by
        rw [htopics i a ha, htopics j b hb, htopic, htopic', heq]
      have hij : i = j := (List.getElem?_inj hi (nodup_firsts calls)).mp hsame
      exact UInt32.toNat.inj (by omega)
  channels := hn.channels
  ids := hn.channels ▸ ids_numbered hfew
  ordered := hn.channels ▸ ordered_numbered hfew
  announced := hn.channels ▸ hn.announced
  sent := hn.sent

end Hub

end Replay
