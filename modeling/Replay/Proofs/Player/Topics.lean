import Replay.Proofs.Player.Session
import Replay.Proofs.Recording.Channels
import Replay.Proofs.Server.Numbering

/-!
One channel for each topic. A player makes a topic's channel known to its sink once, before the
first message on it, and logs every message under the id that the sink gave for the message's topic;
a hub gives one id for each topic and describes it by the topic's first channel.
-/

namespace Replay

/-- The call of a sink, without the answer. -/
def Event.call : Event → Call
  | .time t => .time t
  | .state x => .state x
  | .channel _ c => .channel c
  | .message id payload t => .log id payload t

/-- The topic that a call makes known, with the id given for it. -/
def Event.topicId? : Event → Option (String × ChannelId)
  | .channel id c => some (c.topic, id)
  | _ => none

namespace Player

open Recording

/-- Calls in which each topic's channel is made known once, and then its messages are logged under
the id that was given for it. -/
inductive Introduces : List Event → List Entry → Prop where
  | nil : Introduces [] []
  | time {calls : List Event} {es : List Entry} (t : Nanos) (h : Introduces calls es) :
      Introduces (calls ++ [.time t]) es
  | channel {calls : List Event} {es : List Entry} (id : ChannelId) {c : Channel}
      (h : Introduces calls es) (hnew : c.topic ∉ (calls.filterMap Event.topicId?).map (·.1)) :
      Introduces (calls ++ [.channel id c]) es
  | message {calls : List Event} {es : List Entry} {id : ChannelId} {e : Entry}
      (h : Introduces calls es) (hid : (e.channel.topic, id) ∈ calls.filterMap Event.topicId?) :
      Introduces (calls ++ [.message id e.payload e.logTime]) (es ++ [e])

theorem mem_topicIds {calls : List Event} {topic : String} {id : ChannelId} :
    (topic, id) ∈ calls.filterMap Event.topicId? ↔
      ∃ c : Channel, c.topic = topic ∧ .channel id c ∈ calls := by
  rw [List.mem_filterMap]
  constructor
  · rintro ⟨call, hcall, htopic⟩
    cases call with
    | channel id' c =>
      obtain ⟨rfl, rfl⟩ := Prod.mk.inj (Option.some.inj htopic)
      exact ⟨c, rfl, hcall⟩
    | time _ | state _ | message _ _ _ => cases htopic
  · rintro ⟨c, rfl, hc⟩
    exact ⟨_, hc, rfl⟩

/-- Where an item stands in a list that has one item more. -/
theorem concat_eq_append_cons {α : Type} {xs before after : List α} {x y : α}
    (h : xs ++ [x] = before ++ y :: after) :
    (after = [] ∧ xs = before ∧ x = y) ∨
      ∃ rest, after = rest ++ [x] ∧ xs = before ++ y :: rest := by
  rcases List.eq_nil_or_concat after with rfl | ⟨rest, z, rfl⟩
  · obtain ⟨rfl, hlast⟩ := List.append_inj' h rfl
    exact Or.inl ⟨rfl, rfl, List.singleton_inj.mp hlast⟩
  · rw [List.concat_eq_append, ← List.cons_append, ← List.append_assoc] at h
    obtain ⟨hxs, hlast⟩ := List.append_inj' h rfl
    exact Or.inr ⟨rest, by rw [List.concat_eq_append, List.singleton_inj.mp hlast], hxs⟩

namespace Introduces

variable {calls : List Event} {es : List Entry}

theorem nodup (h : Introduces calls es) :
    ((calls.filterMap Event.topicId?).map (·.1)).Nodup := by
  induction h with
  | nil => exact List.nodup_nil
  | time t h ih => simpa [List.filterMap_cons, Event.topicId?] using ih
  | channel id h hnew ih =>
    rw [List.filterMap_append, List.map_append, List.nodup_append]
    refine ⟨ih, List.nodup_singleton _, ?_⟩
    rintro topic hold _ hlast rfl
    obtain rfl := List.mem_singleton.mp hlast
    exact hnew hold
  | message h hid ih => simpa [List.filterMap_cons, Event.topicId?] using ih

theorem length_messages (h : Introduces calls es) :
    (calls.filter Event.isMessage).length = es.length := by
  induction h with
  | nil => rfl
  | time t h ih => simpa [List.filter_cons, Event.isMessage] using ih
  | channel id h hnew ih => simpa [List.filter_cons, Event.isMessage] using ih
  | message h hid ih => simpa [List.filter_cons, Event.isMessage] using ih

/-- A message is logged after the call that made its topic known, under the id that was given. -/
theorem named (h : Introduces calls es) {before after : List Event} {id : ChannelId}
    {payload : Bytes} {t : Nanos} (hcalls : calls = before ++ .message id payload t :: after) :
    ∃ e, es[(before.filter Event.isMessage).length]? = some e ∧ payload = e.payload ∧
      t = e.logTime ∧ ∃ c : Channel, c.topic = e.channel.topic ∧ .channel id c ∈ before := by
  induction h generalizing after with
  | nil => simp at hcalls
  | time t h ih =>
    rcases concat_eq_append_cons hcalls with ⟨_, _, hlast⟩ | ⟨rest, _, hold⟩
    · cases hlast
    · exact ih hold
  | channel id h hnew ih =>
    rcases concat_eq_append_cons hcalls with ⟨_, _, hlast⟩ | ⟨rest, _, hold⟩
    · cases hlast
    · exact ih hold
  | @message calls es id' e h hid ih =>
    rcases concat_eq_append_cons hcalls with ⟨_, rfl, hlast⟩ | ⟨rest, _, hold⟩
    · obtain ⟨rfl, rfl, rfl⟩ := Event.message.inj hlast
      refine ⟨e, ?_, rfl, rfl, mem_topicIds.mp hid⟩
      rw [h.length_messages, List.getElem?_concat_length]
    · obtain ⟨e', he', hrest⟩ := ih hold
      exact ⟨e', List.getElem?_append_left (List.getElem?_eq_some_iff.mp he').1 ▸ he', hrest⟩

end Introduces

/-- The message that is due when the player reads on. -/
def due? (w : World) (p : Player) : Option Entry :=
  match (p.read w).1 with
  | .ok (.due e _) => some e
  | _ => none

theorem due?_of_not_playing {w : World} {p : Player} (h : p.status ≠ .playing) :
    p.due? w = none := by
  simp [due?, read, h]

variable {σ : Type} [Sink σ]

/-- What a message makes of the sink: its time if that is told, its channel if its topic is new, and
the message under the id of its topic. -/
theorem emit_introduces {calls : List Event} {es : List Entry} (h : Introduces calls es) {p : Player}
    (hknown : p.channels = calls.filterMap Event.topicId?) (e : Entry) (tick : Bool) (s : σ) :
    ∃ channels added, p.emit e tick (⟨s, []⟩ : Traced σ) =
        ({ p with channels }, ⟨Call.makeAll s (added.map Event.call), added⟩) ∧
      Call.answers s (added.map Event.call) = added ∧
      Introduces (calls ++ added) (es ++ [e]) ∧
      channels = (calls ++ added).filterMap Event.topicId? ∧
      ∀ id c, .channel id c ∈ added → c = e.channel := by
  obtain ⟨told, htold⟩ : ∃ told : List Event, told = if tick then [.time e.logTime] else [] :=
    ⟨_, rfl⟩
  have hsame : (calls ++ told).filterMap Event.topicId? = calls.filterMap Event.topicId? := by
    cases tick <;> simp [htold, List.filterMap_cons, Event.topicId?]
  have hno : ∀ id c, Event.channel id c ∉ told := by cases tick <;> simp [htold]
  have hcalls : Introduces (calls ++ told) es := by
    cases tick
    · simpa [htold] using h
    · simpa [htold] using h.time e.logTime
  cases hfound : p.channels.find? (·.1 == e.channel.topic) with
  | some x =>
    have htopic : x.1 = e.channel.topic := by simpa using List.find?_some hfound
    have hid : (e.channel.topic, x.2) ∈ (calls ++ told).filterMap Event.topicId? := by
      rw [hsame, ← hknown, ← htopic]
      exact List.mem_of_find?_eq_some hfound
    refine ⟨p.channels, told ++ [.message x.2 e.payload e.logTime], ?_, ?_, ?_, ?_, ?_⟩
    · cases tick <;>
        simp [emit, channelFor, hfound, htold, Sink.time, Sink.log, Call.makeAll, Call.make,
          Event.call]
    · cases tick <;> simp [htold, Call.answers, Call.answered, Event.call]
    · rw [← List.append_assoc]
      exact hcalls.message hid
    · rw [← List.append_assoc, List.filterMap_append, hsame, ← hknown]
      exact (List.append_nil _).symm
    · intro id c hm
      simp [hno] at hm
  | none =>
    have hnew : e.channel.topic ∉ ((calls ++ told).filterMap Event.topicId?).map (·.1) := by
      rw [hsame, ← hknown]
      intro hm
      obtain ⟨x, hx, htopic⟩ := List.mem_map.mp hm
      exact List.find?_eq_none.mp hfound x hx (beq_iff_eq.mpr htopic)
    obtain ⟨id, hid⟩ : ∃ id, id =
        (Sink.addChannel e.channel (Call.makeAll s (told.map Event.call))).1 := ⟨_, rfl⟩
    have hentered := hcalls.channel id hnew
    have hlast : (e.channel.topic, id) ∈
        (calls ++ told ++ [Event.channel id e.channel]).filterMap Event.topicId? :=
      mem_topicIds.mpr ⟨e.channel, rfl, by simp⟩
    refine ⟨p.channels ++ [(e.channel.topic, id)],
      told ++ [.channel id e.channel, .message id e.payload e.logTime], ?_, ?_, ?_, ?_, ?_⟩
    · cases tick <;>
        simp [emit, channelFor, hfound, hid, htold, Sink.time, Sink.addChannel, Sink.log,
          Call.makeAll, Call.make, Event.call]
    · cases tick <;>
        simp [hid, htold, Call.answers, Call.answered, Call.makeAll, Call.make, Event.call]
    · simpa using hentered.message hlast
    · rw [← List.append_assoc, List.filterMap_append, hsame, ← hknown]
      rfl
    · intro id' c hm
      have hc : id' = id ∧ c = e.channel := by simpa [hno] using hm
      exact hc.2

theorem channel_next? {w : World} {p : Player} {e : Entry} (h : p.next? w = some e) :
    p.pending = some e ∨ e.channel ∈ p.summary.descriptors := by
  unfold next? at h
  cases hpending : p.pending with
  | some kept =>
    rw [hpending] at h
    exact Or.inl h
  | none =>
    cases hnext : p.cursor.next p.summary (w.disk.recording p.file) with
    | mk result c =>
      cases result with
      | error e => simp [hpending, hnext] at h
      | ok found =>
        obtain rfl : found = some e := by simpa [hpending, hnext] using h
        exact Or.inr (Cursor.channel_next hnext)

/-- Reading on keeps a message or finds none, or it gives the message that is due to the sink. -/
theorem logNext_due (w : World) (p : Player) (s : σ) :
    (p.due? w = none ∧ ∃ r q, p.logNext w s = (r, q, s) ∧ q.channels = p.channels ∧
      q.summary = p.summary ∧ ∀ e, q.pending = some e → p.pending = some e ∨ p.next? w = some e) ∨
    (∃ e tick, ∃ q : Player, p.due? w = some e ∧ p.next? w = some e ∧ q.channels = p.channels ∧
      q.summary = p.summary ∧ q.pending = none ∧ p.logNext w s = (.ok none, q.emit e tick s)) := by
  rcases p.read_cases w with ⟨_, hr⟩ | ⟨_, _, cause, c, hr⟩ | ⟨_, _, c, hr⟩ | ⟨_, e, c, hnext, hr⟩
  · exact Or.inl ⟨by simp only [due?, hr], .ok none, p, by simp only [logNext, hr], rfl, rfl,
      fun e he => Or.inl he⟩
  · exact Or.inl ⟨by simp only [due?, hr], .error cause, { p with cursor := c },
      by simp only [logNext, hr], rfl, rfl, fun e he => Or.inl he⟩
  · exact Or.inl ⟨by simp only [due?, hr], .ok none,
      { p with cursor := c, status := .ended, currentTime := p.range.stop },
      by simp only [logNext, hr], rfl, rfl, fun e he => Or.inl he⟩
  · rcases meet_cases w.now e { p with cursor := c } with ⟨span, _, _, hm⟩ | ⟨_, hm⟩
    · refine Or.inl ⟨by simp only [due?, hr, hm], .ok (some span),
        keeping w.now e { p with cursor := c }, by simp only [logNext, hr, hm], rfl, rfl, ?_⟩
      intro e' he'
      exact Or.inr (hnext.trans he')
    · refine Or.inr ⟨e, ((p.paceFor w.now e).limiter.pass? e.logTime).isSome,
        passing w.now e { p with cursor := c }, by simp only [due?, hr, hm], hnext, rfl, rfl, rfl, ?_⟩
      simp only [logNext, hr, hm]
      rfl

/-- All calls of the sink. -/
def Session.calls (x : Session σ) : List Event := x.parts.flatMap Part.events

/-- The messages that a run gives to the sink, as they are read. -/
def Session.given (x : Session σ) : List (World × Operation) → List Entry
  | [] => []
  | (w, o) :: os => (if o = .next then (x.player.due? w).toList else []) ++ (x.step w o).given os

omit [Sink σ] in
theorem Session.calls_extend (x : Session σ) (q : Player) (k : σ) (events : List Event) :
    Session.calls ⟨q, k, x.earlier, { x.part with events := x.part.events ++ events }⟩ =
      x.calls ++ events := by
  simp [calls, parts, List.flatMap_append]

/-- What a run keeps of topics, ids and channels; `es` are the messages given so far. -/
structure Naming (s : Summary) (k : σ) (x : Session σ) (es : List Entry) : Prop where
  introduces : Introduces x.calls es
  known : x.player.channels = x.calls.filterMap Event.topicId?
  sink : Call.makeAll k (x.calls.map Event.call) = x.sink
  answers : Call.answers k (x.calls.map Event.call) = x.calls
  summary_eq : x.player.summary = s
  kept : ∀ e, x.player.pending = some e → e.channel ∈ s.descriptors
  given : ∀ e ∈ es, e.channel ∈ s.descriptors
  entered : ∀ id c, .channel id c ∈ x.calls → c ∈ s.descriptors

namespace Naming

variable {s : Summary} {k : σ} {x : Session σ} {es : List Entry}

theorem start {d : Disk} {path : String} {o : Options} {p : Player}
    (ho : openFile d path o = .ok p) (k : σ) : Naming p.summary k (Session.start p k) [] := by
  obtain ⟨_, _, hpending, _, _, _, hchannels⟩ := openFile_ok ho
  exact ⟨.nil, hchannels, rfl, rfl, rfl, by simp [Session.start, hpending], nofun, nofun⟩

/-- The player goes on without a call. -/
theorem same (h : Naming s k x es) {q : Player} (hchannels : q.channels = x.player.channels)
    (hsummary : q.summary = x.player.summary)
    (hkept : ∀ e, q.pending = some e → e.channel ∈ s.descriptors) :
    Naming s k { x with player := q } es :=
  ⟨h.introduces, hchannels.trans h.known, h.sink, h.answers, hsummary.trans h.summary_eq, hkept,
    h.given, h.entered⟩

theorem retimed (h : Naming s k x es) {q : Player} (hq : x.player.Retimed q) :
    Naming s k { x with player := q } es := by
  obtain ⟨pace, status, speed, rfl, _⟩ := hq
  exact h.same rfl rfl h.kept

theorem moved (h : Naming s k x es) {d : Disk} {t : Nanos} {q : Player}
    (hq : x.player.seek d t = .ok q) :
    Naming s k ⟨q, x.sink, x.parts, ⟨x.player.range.clamp t, []⟩⟩ es := by
  have hcalls : Session.calls ⟨q, x.sink, x.parts, ⟨x.player.range.clamp t, []⟩⟩ = x.calls := by
    simp [Session.calls, Session.parts]
  obtain ⟨_, _, _, rfl⟩ := seek_ok hq
  exact ⟨hcalls ▸ h.introduces, hcalls ▸ h.known, hcalls ▸ h.sink, hcalls ▸ h.answers,
    h.summary_eq, nofun, h.given, hcalls ▸ h.entered⟩

/-- A message goes to the sink. -/
theorem emitted (h : Naming s k x es) {p : Player} (hchannels : p.channels = x.player.channels)
    (hsummary : p.summary = x.player.summary) (hpending : p.pending = none) {e : Entry}
    (he : e.channel ∈ s.descriptors) (tick : Bool) {q : Player} {k' : Traced σ}
    (hemit : p.emit e tick (⟨x.sink, []⟩ : Traced σ) = (q, k')) :
    Naming s k ⟨q, k'.sink, x.earlier, { x.part with events := x.part.events ++ k'.events }⟩
      (es ++ [e]) := by
  obtain ⟨channels, added, hgives, hanswers, hintro, hknown, hentered⟩ :=
    emit_introduces h.introduces (hchannels.trans h.known) e tick x.sink
  rw [hgives, Prod.mk.injEq] at hemit
  obtain ⟨rfl, rfl⟩ := hemit
  have hcalls := x.calls_extend { p with channels } (Call.makeAll x.sink (added.map Event.call)) added
  refine ⟨hcalls ▸ hintro, hcalls ▸ hknown, ?_, ?_, hsummary.trans h.summary_eq, ?_, ?_, ?_⟩
  · rw [hcalls, List.map_append, Call.makeAll_append, h.sink]
  · rw [hcalls, List.map_append, Call.answers_append, h.answers, h.sink, hanswers]
  · intro e' he'
    rw [hpending] at he'
    cases he'
  · intro e' he'
    rcases List.mem_append.mp he' with he' | he'
    · exact h.given e' he'
    · exact List.mem_singleton.mp he' ▸ he
  · intro id c hm
    rw [hcalls] at hm
    rcases List.mem_append.mp hm with hm | hm
    · exact h.entered id c hm
    · exact hentered id c hm ▸ he

theorem next (h : Naming s k x es) (w : World) :
    Naming s k (x.step w .next) (es ++ (x.player.due? w).toList) := by
  have hstep : ∀ r q j, x.player.logNext w (⟨x.sink, []⟩ : Traced σ) = (r, q, j) → x.step w .next =
      ⟨q, j.sink, x.earlier, { x.part with events := x.part.events ++ j.events }⟩ := by
    intro r q j hlog
    simp only [Session.step, perform, hlog]
  have hsource : ∀ e, x.player.next? w = some e → e.channel ∈ s.descriptors := by
    intro e he
    rcases channel_next? he with hkept | hnew
    · exact h.kept e hkept
    · exact h.summary_eq ▸ hnew
  rcases logNext_due w x.player (⟨x.sink, []⟩ : Traced σ) with
    ⟨hdue, r, q, hlog, hchannels, hsummary, hkept⟩ |
    ⟨e, tick, p, hdue, hnext, hchannels, hsummary, hpending, hlog⟩
  · have hsame := h.same hchannels hsummary fun e he => (hkept e he).elim (h.kept e) (hsource e)
    rw [hstep _ _ _ hlog, hdue]
    simpa using hsame
  · rw [hstep _ _ _ hlog, hdue]
    exact h.emitted hchannels hsummary hpending (hsource e hnext) tick rfl

theorem step (h : Naming s k x es) (w : World) (o : Operation) :
    Naming s k (x.step w o) (es ++ if o = .next then (x.player.due? w).toList else []) := by
  rcases x.step_cases w o with ⟨hidle, q, hq, hstep⟩ | ⟨t, q, rfl, hq, hstep⟩ | ⟨rfl, _, _⟩
  · have hnothing : (if o = .next then (x.player.due? w).toList else []) = [] := by
      split
      · rename_i ho
        rw [due?_of_not_playing (hidle ho)]
        rfl
      · rfl
    rw [hstep, hnothing, List.append_nil]
    exact h.retimed hq
  · simpa [hstep] using h.moved hq
  · rw [if_pos rfl]
    exact h.next w

theorem run (h : Naming s k x es) (os : List (World × Operation)) :
    Naming s k (x.run os) (es ++ x.given os) := by
  induction os generalizing x es with
  | nil =>
    rw [Session.given, List.append_nil]
    exact h
  | cons o os ih =>
    have hrest := ih (h.step o.1 o.2)
    rwa [List.append_assoc] at hrest

end Naming

/-- Each topic is made known once, and its messages are logged after that and under the id that was
given for it; `es` are the messages. -/
structure NamesTopics (calls : List Event) (es : List Entry) : Prop where
  once : ((calls.filterMap Event.topicId?).map (·.1)).Nodup
  each : (calls.filter Event.isMessage).length = es.length
  named : ∀ before id payload t after, calls = before ++ .message id payload t :: after →
    ∃ e, es[(before.filter Event.isMessage).length]? = some e ∧ payload = e.payload ∧
      t = e.logTime ∧ ∃ c : Channel, c.topic = e.channel.topic ∧ .channel id c ∈ before

theorem Introduces.namesTopics {calls : List Event} {es : List Entry} (h : Introduces calls es) :
    NamesTopics calls es :=
  ⟨h.nodup, h.length_messages, fun _ _ _ _ _ hcalls => h.named hcalls⟩

/-- Among the channels of a recording there are few topics. -/
theorem length_firsts_lt {s : Summary} (hs : s.Numbered) {cs : List Channel}
    (h : ∀ c ∈ cs, c ∈ s.descriptors) : (firsts cs).length < UInt32.size - 1 := by
  have hsub : List.Subperm ((firsts cs).map (·.topic)) (s.descriptors.map (·.topic)) := by
    apply List.Nodup.subperm (nodup_firsts cs)
    intro topic htopic
    obtain ⟨c, hc, rfl⟩ := List.mem_map.mp htopic
    exact List.mem_map_of_mem (h c (mem_of_mem_firsts hc))
  have hlen := hsub.length_le
  simp only [List.length_map, Summary.descriptors] at hlen
  have hle := hs.length_le
  have hsize : 65536 < UInt32.size - 1 := by decide
  omega

theorem mem_channels {calls : List Event} {c : Channel}
    (h : c ∈ (calls.map Event.call).filterMap Call.channel?) :
    ∃ id, .channel id c ∈ calls := by
  obtain ⟨call, hcall, hc⟩ := List.mem_filterMap.mp h
  obtain ⟨event, hevent, rfl⟩ := List.mem_map.mp hcall
  cases event with
  | channel id _ => exact ⟨id, Option.some.inj hc ▸ hevent⟩
  | time _ | state _ | message _ _ _ => cases hc

/-- The answers to the first calls. -/
theorem answers_of_append {k : σ} {before after : List Event}
    (h : Call.answers k ((before ++ after).map Event.call) = before ++ after) :
    Call.answers k (before.map Event.call) = before := by
  rw [List.map_append, Call.answers_append] at h
  refine List.append_inj_left h ?_
  rw [Call.length_answers, List.length_map]

variable (info : ServerInfo) (capacity : Nat)

/-- If each topic has one channel in the recording, a hub has described it as the recording does
when a message on it is logged. -/
theorem Naming.advertised {s : Summary} {x : Session Hub} {es : List Entry}
    (h : Naming s (Hub.start info capacity) x es) (hs : s.Numbered)
    (hone : ∀ c ∈ s.descriptors, ∀ c' ∈ s.descriptors, c.topic = c'.topic → c = c')
    {before after : List Event} {id : ChannelId} {payload : Bytes} {t : Nanos}
    (hcalls : x.calls = before ++ .message id payload t :: after) :
    ∃ e, es[(before.filter Event.isMessage).length]? = some e ∧ payload = e.payload ∧
      t = e.logTime ∧ e.channel.advertise id ∈
        (Call.makeAll (Hub.start info capacity) (before.map Event.call)).channels := by
  obtain ⟨e, he, hpayload, ht, c, htopic, hc⟩ := h.introduces.named hcalls
  refine ⟨e, he, hpayload, ht, ?_⟩
  have hknown : ∀ c ∈ (before.map Event.call).filterMap Call.channel?, c ∈ s.descriptors := by
    intro c hc
    obtain ⟨id, hid⟩ := mem_channels hc
    exact h.entered id c (hcalls ▸ List.mem_append_left _ hid)
  have hn := Hub.numbering info capacity (before.map Event.call) (length_firsts_lt hs hknown)
  have hanswers := h.answers
  rw [hcalls] at hanswers
  rw [answers_of_append hanswers] at hn
  obtain ⟨i, a, ha, hat, rfl⟩ := hn.answered id c hc
  have hmem : a ∈ s.descriptors := hknown a (mem_of_mem_firsts (List.mem_of_getElem? ha))
  have hea : a = e.channel :=
    hone a hmem e.channel (h.given e (List.mem_of_getElem? he)) (hat.trans htopic)
  rw [hn.channels, Hub.mem_numbered]
  exact ⟨i, a, ha, by rw [hea]⟩

/-- One channel for each topic, end to end. Whatever calls are made of a hub, each topic has one id,
in the order of first appearance, the first channel of the topic describes it, and it is announced
once. However a player is driven, and whatever its sink is, it makes each topic known once, before
the first message on it, and logs every message under the id that the sink gave for its topic. So
where each topic has one channel in the recording, every message is logged under an id that the hub
has described by the message's own channel. -/
theorem one_channel_per_topic {d : Disk} {path : String} {o : Options} {p : Player}
    (ho : openFile d path o = .ok p) (k : σ) (os : List (World × Operation)) :
    let hub := Hub.start info capacity
    let x := (Session.start p k).run os
    let y := (Session.start p hub).run os
    (∀ calls : List Call, (firsts (calls.filterMap Call.channel?)).length < UInt32.size - 1 →
      Hub.OnePerTopic (firsts (calls.filterMap Call.channel?)) (Call.makeAll hub calls)
        (Call.answers hub calls) (hub.published calls)) ∧
    (NamesTopics x.calls ((Session.start p k).given os) ∧
      x.sink = Call.makeAll k (x.calls.map Event.call) ∧
      x.calls = Call.answers k (x.calls.map Event.call)) ∧
    ((∀ c ∈ p.summary.descriptors, ∀ c' ∈ p.summary.descriptors, c.topic = c'.topic → c = c') →
      ∀ before id payload t after, y.calls = before ++ .message id payload t :: after →
        ∃ e, ((Session.start p hub).given os)[(before.filter Event.isMessage).length]? = some e ∧
          payload = e.payload ∧ t = e.logTime ∧
          e.channel.advertise id ∈ (Call.makeAll hub (before.map Event.call)).channels) := by
  intro hub x y
  refine ⟨?_, ?_, ?_⟩
  · intro calls hfew
    exact (Hub.numbering info capacity calls hfew).onePerTopic (by omega)
  · have h : Naming p.summary k x ((Session.start p k).given os) := (Naming.start ho k).run os
    exact ⟨h.introduces.namesTopics, h.sink.symm, h.answers.symm⟩
  · intro hone before id payload t after hcalls
    have h : Naming p.summary hub y ((Session.start p hub).given os) :=
      (Naming.start ho hub).run os
    obtain ⟨content, s, _, _, _, _, hs, _, _, rfl⟩ := openFile_opened ho
    exact h.advertised info capacity (Summary.numbered_of_ofFile hs) hone hcalls

/-- Two topics, one of them with another channel later on. -/
def sampleCalls : List Call :=
  [.channel ⟨"/b", "json", none⟩, .time 3, .channel ⟨"/a", "json", none⟩,
    .channel ⟨"/b", "protobuf", none⟩]

def sampleHub : Hub := Hub.start ⟨"replay", [.rangedPlayback, .time], 3, 9, "s"⟩ 4

theorem sample_one_channel_per_topic :
    openFile sampleDisk "a" .default = .ok samplePlayer ∧
    firsts (sampleCalls.filterMap Call.channel?) = [⟨"/b", "json", none⟩, ⟨"/a", "json", none⟩] ∧
    Hub.OnePerTopic (firsts (sampleCalls.filterMap Call.channel?))
      (Call.makeAll sampleHub sampleCalls) (Call.answers sampleHub sampleCalls)
      (sampleHub.published sampleCalls) ∧
    (∀ c ∈ sampleSummary.descriptors, ∀ c' ∈ sampleSummary.descriptors,
      c.topic = c'.topic → c = c') ∧
    ((Session.start samplePlayer sampleHub).run sampleOpening).calls =
      [.channel 1 ⟨"/a", "json", none⟩, .message 1 [1] 5, .message 1 [2] 3] ∧
    ∃ e, ((Session.start samplePlayer sampleHub).given sampleOpening)[0]? = some e ∧
      [1] = e.payload ∧ 5 = e.logTime ∧
      e.channel.advertise 1 ∈ (Call.makeAll sampleHub [.channel ⟨"/a", "json", none⟩]).channels := by
  have hone : ∀ c ∈ sampleSummary.descriptors, ∀ c' ∈ sampleSummary.descriptors,
      c.topic = c'.topic → c = c' := by decide
  have hcalls : ((Session.start samplePlayer sampleHub).run sampleOpening).calls =
      [.channel 1 ⟨"/a", "json", none⟩, .message 1 [1] 5, .message 1 [2] 3] := by
    decide +kernel
  have hfew : (firsts (sampleCalls.filterMap Call.channel?)).length < UInt32.size - 1 := by decide
  obtain ⟨hhub, _, hlogged⟩ := one_channel_per_topic
    ⟨"replay", [.rangedPlayback, .time], 3, 9, "s"⟩ 4 sample_opens sampleHub sampleOpening
  exact ⟨sample_opens, by decide, hhub sampleCalls hfew, hone, hcalls,
    hlogged hone [.channel 1 ⟨"/a", "json", none⟩] 1 [1] 5 [.message 1 [2] 3] hcalls⟩

end Player

end Replay
