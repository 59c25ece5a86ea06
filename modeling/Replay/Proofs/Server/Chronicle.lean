import Replay.Proofs.Server.History
import Replay.Proofs.Server.Moves

/-!
The chronicle of a server: what was put into the feed, which channels were created, and what each
connection did. It is kept beside the server and changes nothing in it (`server_run`). Main
statement: an action lets the hub unfold in one of four ways, and of the connections one at most
moves or arrives (`unfolds_step`, `stirs_step`).
-/

namespace Replay

/-- The messages that something brings on a channel. -/
def Outgoing.on (c : ChannelId) : Outgoing → List (Nanos × Bytes)
  | .frame (.message id t payload) => if id = c then [(t, payload)] else []
  | _ => []

theorem Outgoing.NoMessage.on {x : Outgoing} (h : x.NoMessage) (c : ChannelId) : x.on c = [] := by
  unfold Outgoing.on
  split
  · exact absurd rfl (h _ _ _)
  · rfl

/-- Subscribers of a channel are sent messages on it, and everyone is sent anything else. -/
def Hub.Posting.IsAddressed : Hub.Posting → Prop
  | .everyone x => x.NoMessage
  | .subscribers id x => ∃ t payload, x = .frame (.message id t payload)

namespace Server.Action

/-- The connection that acts. -/
def connection? : Action → Option Nat
  | .proceed n => some n
  | .dequeue n => some n
  | .receive n _ => some n
  | .hearStop n => some n
  | .lose n => some n
  | _ => none

/-- The channel that a message is logged on. -/
def target? : Action → Option ChannelId
  | .log id _ _ => some id
  | _ => none

/-- The messages that an action logs on a channel. -/
def logged (c : ChannelId) : Action → List (Nanos × Bytes)
  | .log id payload t => if id = c then [(t, payload)] else []
  | _ => []

end Server.Action

structure Chronicle (ℓ : Type) where
  server : Server ℓ
  /-- All that was put into the feed, in its order. -/
  published : List Hub.Posting
  /-- The channels in the order of their creation, with the ids they were given. -/
  created : List (ChannelId × Channel)
  /-- What each connection did, in its order. -/
  deeds : Nat → List Viewer.Deed

namespace Chronicle

open Server Hub

variable {ℓ : Type}

def start (s : Server ℓ) : Chronicle ℓ := ⟨s, [], [], fun _ => []⟩

/-- The channel that an action creates, if it leads to `s`. -/
def creation (a : Action) (s : Server ℓ) : List (ChannelId × Channel) :=
  match a with
  | .enter c => (s.entered.map fun x => (x.id, c)).toList
  | _ => []

def deedsOf (n : Nat) (a : Action) (s s' : Server ℓ) : List Viewer.Deed :=
  if a.connection? = some n then
    match s.viewer? n, s'.viewer? n with
    | some v, some v' => Viewer.deeds s.hub v v' a
    | _, _ => []
  else []

def note (a : Action) (s : Server ℓ) (t : Chronicle ℓ) : Chronicle ℓ where
  server := s
  published := t.published ++ posted t.server.hub s.hub
  created := t.created ++ creation a s
  deeds n := t.deeds n ++ deedsOf n a t.server s

/-- What an action lets the hub go through, and what is noted of it. -/
inductive Unfolds (a : Action) (t t' : Chronicle ℓ) : Prop where
  | continues (ha : ∀ c, a.logged c = []) (hhub : t.server.hub.Continues t'.server.hub)
      (hpublished : t'.published = t.published ++ posted t.server.hub t'.server.hub)
      (hcreated : t'.created = t.created) (hentered : t'.server.entered = t.server.entered)
  | logs (id : ChannelId) (payload : Bytes) (i : Nanos) (ha : a = .log id payload i)
      (hhub : t'.server.hub =
        t.server.hub.post (.subscribers id (.frame (.message id i payload))))
      (hpublished : t'.published =
        t.published ++ [.subscribers id (.frame (.message id i payload))])
      (hcreated : t'.created = t.created) (hentered : t'.server.entered = t.server.entered)
  | enters (c : Channel) (ha : a = .enter c) (hbefore : t.server.entered = none)
      (hhub : t'.server.hub = (t.server.hub.enterChannel c).2)
      (hpublished : t'.published = t.published)
      (hcreated : t'.created = t.created ++ [(t.server.hub.nextChannel, c)])
      (hentered : t'.server.entered = some (c.advertise t.server.hub.nextChannel))
  | announces (x : Advertised) (ha : a = .announce) (hbefore : t.server.entered = some x)
      (hhub : t'.server.hub = t.server.hub.announceChannel x)
      (hpublished : t'.published = t.published ++ [.everyone (.message (.advertise [x]))])
      (hcreated : t'.created = t.created) (hentered : t'.server.entered = none)

/-- What becomes of the connections. -/
inductive Stirs (t t' : Chronicle ℓ) : Prop where
  | rests (hviewers : t'.server.viewers = t.server.viewers) (hdeeds : t'.deeds = t.deeds)
  | arrives (id : ClientId) (hviewers : t'.server.viewers = t.server.viewers ++ [.arrive id])
      (hdeeds : t'.deeds = t.deeds)
  | moves (n : Nat) (v v' : Viewer) (ds : List Viewer.Deed) (hv : t.server.viewer? n = some v)
      (hm : Viewer.Moves t.server.hub v ds v')
      (hviewers : t'.server.viewers = t.server.viewers.set n v')
      (hdeeds : ∀ m, t'.deeds m = if m = n then t.deeds m ++ ds else t.deeds m)

variable {t t' : Chronicle ℓ} {w : World} {a : Action}

theorem stirs_refl (t : Chronicle ℓ) : Stirs t t := .rests rfl rfl

theorem unfolds_refl (ha : ∀ c, a.logged c = []) (t : Chronicle ℓ) : Unfolds a t t :=
  .continues ha (.refl _) (by rw [posted_of_feed_eq rfl, List.append_nil]) rfl rfl

theorem unfolds_continues {s : Server ℓ} (ha : ∀ c, a.logged c = [])
    (hc : creation a s = []) (hhub : t.server.hub.Continues s.hub)
    (hentered : s.entered = t.server.entered) : Unfolds a t (t.note a s) :=
  .continues ha hhub rfl (by rw [note, hc, List.append_nil]) hentered

theorem stirs_rests {s : Server ℓ} (ha : a.connection? = none)
    (hviewers : s.viewers = t.server.viewers) : Stirs t (t.note a s) := by
  refine .rests hviewers (funext fun n => ?_)
  simp [note, deedsOf, ha]

theorem stirs_moves {s : Server ℓ} {n : Nat} {v v' : Viewer} (ha : a.connection? = some n)
    (hv : t.server.viewer? n = some v) (hviewers : s.viewers = t.server.viewers.set n v')
    (hm : Viewer.Moves t.server.hub v (Viewer.deeds t.server.hub v v' a) v') :
    Stirs t (t.note a s) := by
  have hv' : s.viewer? n = some v' := by
    rw [viewer?, hviewers]
    exact viewer_update hv (t.server.hub, v')
  refine .moves n v v' _ hv hm hviewers fun m => ?_
  by_cases hmn : m = n
  · simp [note, deedsOf, ha, hv, hv', hmn]
  · simp [note, deedsOf, ha, hmn, Ne.symm hmn]

/-- One item at most is put into the feed, and it is noted. -/
theorem Unfolds.feed (h : Unfolds a t t') :
    (t'.server.hub.feed = t.server.hub.feed ∧ t'.published = t.published) ∨
    ∃ p : Posting, p.IsAddressed ∧ t'.server.hub.feed = t.server.hub.feed.push p ∧
      t'.published = t.published ++ [p] := by
  cases h with
  | continues _ hhub hpublished _ _ =>
    rcases hhub.feed with hfeed | ⟨x, hx, hfeed⟩
    · rw [posted_of_feed_eq hfeed, List.append_nil] at hpublished
      exact Or.inl ⟨hfeed, hpublished⟩
    · rw [posted_of_push hfeed] at hpublished
      exact Or.inr ⟨.everyone x, hx.2, hfeed, hpublished⟩
  | logs id payload i _ hhub hpublished _ _ =>
    exact Or.inr ⟨.subscribers id (.frame (.message id i payload)), ⟨i, payload, rfl⟩, hhub ▸ rfl,
      hpublished⟩
  | enters _ _ _ hhub hpublished _ _ => exact Or.inl ⟨hhub ▸ rfl, hpublished⟩
  | announces x _ _ hhub hpublished _ _ =>
    have haddressed : Posting.IsAddressed (.everyone (.message (.advertise [x]))) :=
      fun _ _ _ => nofun
    exact Or.inr ⟨_, haddressed, hhub ▸ rfl, hpublished⟩

/-- The messages that are published on a channel are those that are logged on it. -/
theorem Unfolds.on (h : Unfolds a t t') (c : ChannelId) :
    t'.published.flatMap (·.content.on c) =
      t.published.flatMap (·.content.on c) ++ a.logged c := by
  cases h with
  | continues ha hhub hpublished _ _ =>
    rw [ha, List.append_nil, hpublished, List.flatMap_append]
    rcases hhub.feed with hfeed | ⟨x, hx, hfeed⟩
    · rw [posted_of_feed_eq hfeed, List.flatMap_nil, List.append_nil]
    · rw [posted_of_push hfeed, List.flatMap_singleton]
      exact (congrArg _ (hx.2.on c)).trans (List.append_nil _)
  | logs id payload i ha _ hpublished _ _ =>
    rw [ha, hpublished, List.flatMap_append, List.flatMap_singleton]
    rfl
  | enters _ ha _ _ hpublished _ _ =>
    rw [ha, hpublished]
    exact (List.append_nil _).symm
  | announces _ ha _ _ hpublished _ _ =>
    rw [ha, hpublished, List.flatMap_append, List.flatMap_singleton]
    rfl

/-- What becomes of one connection. -/
inductive Becomes (t t' : Chronicle ℓ) (n : Nat) (v' : Viewer) : Prop where
  | stays (hv : t.server.viewer? n = some v') (hdeeds : t'.deeds n = t.deeds n)
  | arrives (id : ClientId) (hv : t.server.viewer? n = none) (hv' : v' = .arrive id)
      (hdeeds : t'.deeds n = t.deeds n)
  | moves (v : Viewer) (ds : List Viewer.Deed) (hv : t.server.viewer? n = some v)
      (hm : Viewer.Moves t.server.hub v ds v') (hdeeds : t'.deeds n = t.deeds n ++ ds)

variable {n : Nat} {v v' : Viewer}

theorem Stirs.becomes (h : Stirs t t') (hv' : t'.server.viewer? n = some v') :
    Becomes t t' n v' := by
  cases h with
  | rests hviewers hdeeds =>
    rw [viewer?, hviewers] at hv'
    exact .stays hv' (congrFun hdeeds n)
  | arrives id hviewers hdeeds =>
    rw [viewer?, hviewers] at hv'
    rcases Nat.lt_trichotomy n t.server.viewers.length with hlt | rfl | hgt
    · rw [List.getElem?_append_left hlt] at hv'
      exact .stays hv' (congrFun hdeeds n)
    · rw [List.getElem?_concat_length] at hv'
      exact .arrives id (List.getElem?_eq_none (Nat.le_refl _)) (Option.some.inj hv').symm
        (congrFun hdeeds _)
    · have hout : (t.server.viewers ++ [Viewer.arrive id]).length ≤ n := by
        rw [List.length_append, List.length_singleton]
        exact hgt
      rw [List.getElem?_eq_none hout] at hv'
      cases hv'
  | moves m u u' ds hu hm hviewers hdeeds =>
    rw [viewer?, hviewers] at hv'
    by_cases hnm : n = m
    · subst hnm
      have hset := viewer_update hu (t.server.hub, u')
      obtain rfl := Option.some.inj (hset.symm.trans hv')
      exact .moves u ds hu hm (by rw [hdeeds, if_pos rfl])
    · rw [List.getElem?_set_ne (Ne.symm hnm)] at hv'
      exact .stays hv' (by rw [hdeeds, if_neg hnm])

theorem Stirs.persists (h : Stirs t t') (hv : t.server.viewer? n = some v) :
    ∃ v', t'.server.viewer? n = some v' := by
  have hlt : n < t.server.viewers.length := (List.getElem?_eq_some_iff.mp hv).1
  have hlen : t.server.viewers.length ≤ t'.server.viewers.length := by
    cases h with
    | rests hviewers _ => exact Nat.le_of_eq (hviewers ▸ rfl)
    | arrives _ hviewers _ => simp [hviewers]
    | moves _ _ _ _ _ _ hviewers _ => simp [hviewers]
  exact ⟨_, List.getElem?_eq_getElem (Nat.lt_of_lt_of_le hlt hlen)⟩

theorem Stirs.deeds_of_absent (h : Stirs t t') (hv : t'.server.viewer? n = none) :
    t.server.viewer? n = none ∧ t'.deeds n = t.deeds n := by
  have hnone : t.server.viewer? n = none := by
    cases hv' : t.server.viewer? n with
    | none => rfl
    | some v =>
      obtain ⟨v', hv'⟩ := h.persists hv'
      exact absurd (hv.symm.trans hv') nofun
  refine ⟨hnone, ?_⟩
  cases h with
  | rests _ hdeeds => exact congrFun hdeeds n
  | arrives _ _ hdeeds => exact congrFun hdeeds n
  | moves m _ _ _ hu _ _ hdeeds =>
    have hne : n ≠ m := by
      rintro rfl
      exact absurd (hnone.symm.trans hu) nofun
    rw [hdeeds, if_neg hne]

/-- What the chronicle of every run has: the feed keeps the end of what was published, which is
addressed as it has to be, and who is not there does nothing. -/
structure Sound (t : Chronicle ℓ) : Prop where
  sent : t.server.hub.feed.sent = t.published.length
  recent : t.server.hub.feed.recent = t.published.drop t.server.hub.feed.oldest
  addressed : ∀ p ∈ t.published, p.IsAddressed
  absent : ∀ n, t.server.viewer? n = none → t.deeds n = []

theorem sound_start (info : ServerInfo) (capacity : Nat) (l : ℓ) :
    Sound (start (Server.start info capacity l)) :=
  ⟨rfl, rfl, nofun, fun _ _ => rfl⟩

theorem Sound.turn (h : Sound t) (hu : Unfolds a t t') (hs : Stirs t t') : Sound t' := by
  have habsent : ∀ n, t'.server.viewer? n = none → t'.deeds n = [] := by
    intro n hv
    obtain ⟨hnone, hdeeds⟩ := hs.deeds_of_absent hv
    exact hdeeds.trans (h.absent n hnone)
  rcases hu.feed with ⟨hfeed, hpublished⟩ | ⟨p, hp, hfeed, hpublished⟩
  · exact ⟨by rw [hfeed, hpublished, h.sent], by rw [hfeed, hpublished, h.recent],
      hpublished ▸ h.addressed, habsent⟩
  · have hle : t.server.hub.feed.oldest ≤ t.published.length :=
      h.sent ▸ t.server.hub.feed.oldest_le_sent
    refine ⟨?_, ?_, ?_, habsent⟩
    · rw [hfeed, hpublished, Feed.sent_push, h.sent, List.length_append, List.length_singleton]
    · rw [hfeed, hpublished, Feed.recent_push, Feed.oldest_push, ← List.drop_drop,
        List.drop_append_of_le_length hle, ← h.recent]
    · intro q hq
      rw [hpublished] at hq
      rcases List.mem_append.mp hq with hq | hq
      · exact h.addressed q hq
      · exact List.mem_singleton.mp hq ▸ hp

theorem Sound.backlog (h : Sound t) (place : Nat) : t.server.hub.feed.backlog place =
    t.published.drop (max place t.server.hub.feed.oldest) := by
  have hmax : t.server.hub.feed.oldest + (place - t.server.hub.feed.oldest) =
      max place t.server.hub.feed.oldest := by omega
  rw [Feed.backlog, h.recent, List.drop_drop, hmax]

/-- What a reader gets at its place is what was published there. -/
theorem Sound.receive (h : Sound t) {place : Nat} {p : Posting} {next : Nat}
    (hp : t.server.hub.feed.receive place = (.item p, next)) :
    t.server.hub.feed.oldest ≤ place ∧
      t.published.drop place = p :: t.published.drop (place + 1) := by
  rcases t.server.hub.feed.receive_cases place with ⟨_, hget⟩ | ⟨_, _, hget⟩ | ⟨hold, q, hlog, hget⟩
  · exact absurd (hp.symm.trans hget) nofun
  · exact absurd (hp.symm.trans hget) nofun
  · obtain ⟨hq, _⟩ := Prod.mk.inj (hp.symm.trans hget)
    obtain rfl := Feed.Reception.item.inj hq
    refine ⟨hold, ?_⟩
    rwa [h.backlog, h.backlog, Nat.max_eq_left hold,
      Nat.max_eq_left (Nat.le_succ_of_le hold)] at hlog

variable [Listener ℓ]

def step (w : World) (a : Action) (t : Chronicle ℓ) : Chronicle ℓ :=
  match t.server.step w a with
  | none => t
  | some s => t.note a s

def run (os : List (World × Action)) (t : Chronicle ℓ) : Chronicle ℓ :=
  os.foldl (fun t o => t.step o.1 o.2) t

theorem server_step (w : World) (a : Action) (t : Chronicle ℓ) :
    (t.step w a).server = (t.server.step w a).getD t.server := by
  unfold step
  split
  · rename_i h
    rw [h, Option.getD_none]
  · rename_i h
    rw [h, Option.getD_some]
    rfl

/-- Keeping a chronicle changes nothing. -/
theorem server_run (os : List (World × Action)) (t : Chronicle ℓ) :
    (t.run os).server = t.server.runIn os := by
  induction os generalizing t with
  | nil => rfl
  | cons o os ih =>
    rw [run, List.foldl_cons, runIn, List.foldl_cons, ← server_step]
    exact ih _

theorem note_turn {s : Server ℓ} (hs : t.server.step w a = some s) :
    Unfolds a t (t.note a s) ∧ Stirs t (t.note a s) := by
  have hleft : ∀ h v, Continues h (Viewer.leave h v).1 := fun _ _ => ⟨rfl, rfl, rfl, Or.inl rfl⟩
  have hpost : ∀ {h h' : Hub} {x}, Outgoing.Plain x → h'.channels = h.channels →
      h'.topics = h.topics → h'.nextChannel = h.nextChannel →
      h'.feed = h.feed.push (.everyone x) → h.Continues h' :=
    fun hx hc ht hn hf => ⟨hc, ht, hn, Or.inr ⟨_, hx, hf⟩⟩
  cases a with
  | connect =>
    simp only [Server.step] at hs
    split at hs
    · cases hs
    · obtain rfl := Option.some.inj hs
      refine ⟨unfolds_continues (fun _ => rfl) rfl ⟨rfl, rfl, rfl, Or.inl rfl⟩ rfl, ?_⟩
      refine .arrives _ rfl (funext fun n => ?_)
      simp [note, deedsOf, Action.connection?]
  | proceed n =>
    obtain ⟨v, outcome, hv, hp, rfl⟩ := step_proceed_iff.mp hs
    obtain ⟨hm, hc⟩ := Viewer.moves_proceed hp n
    exact ⟨unfolds_continues (fun _ => rfl) rfl hc rfl, stirs_moves rfl hv rfl hm⟩
  | dequeue n =>
    obtain ⟨v, v', hv, hd, rfl⟩ := (step_dequeue_iff (w := w)).mp hs
    exact ⟨unfolds_continues (fun _ => rfl) rfl (.refl _) rfl,
      stirs_moves rfl hv rfl (Viewer.moves_dequeue hd n)⟩
  | receive n x =>
    obtain ⟨v, hub, v', l', hv, hlive, hr, rfl⟩ := step_receive_iff.mp hs
    obtain ⟨hm, hc⟩ := Viewer.moves_receive hlive hr n
    exact ⟨unfolds_continues (fun _ => rfl) rfl hc rfl, stirs_moves rfl hv rfl hm⟩
  | hearStop n =>
    obtain ⟨v, hv, _, rfl⟩ := step_hearStop (w := w) hs
    exact ⟨unfolds_continues (fun _ => rfl) rfl (hleft _ _) rfl, stirs_moves rfl hv rfl .leave⟩
  | lose n =>
    obtain ⟨v, hv, rfl⟩ := step_lose (w := w) hs
    exact ⟨unfolds_continues (fun _ => rfl) rfl (hleft _ _) rfl, stirs_moves rfl hv rfl .leave⟩
  | time i =>
    obtain rfl := Option.some.inj hs
    exact ⟨unfolds_continues (fun _ => rfl) rfl (hpost (plain_time i) rfl rfl rfl rfl) rfl,
      stirs_rests rfl rfl⟩
  | state x =>
    obtain rfl := Option.some.inj hs
    exact ⟨unfolds_continues (fun _ => rfl) rfl (hpost (plain_state x) rfl rfl rfl rfl) rfl,
      stirs_rests rfl rfl⟩
  | log id payload i =>
    obtain rfl := Option.some.inj hs
    have hposted : posted t.server.hub (Sink.log id payload i t.server.hub) =
        [.subscribers id (.frame (.message id i payload))] := posted_of_push rfl
    exact ⟨.logs id payload i rfl rfl (by rw [note, hposted]) (by simp [note, creation]) rfl,
      stirs_rests rfl rfl⟩
  | enter c =>
    simp only [Server.step] at hs
    split at hs
    · cases hs
    · rename_i hnone
      have hbefore : t.server.entered = none := by simpa using hnone
      split at hs <;> obtain rfl := Option.some.inj hs
      · have hc : creation (.enter c) t.server = [] := by rw [creation, hbefore]; rfl
        exact ⟨unfolds_continues (fun _ => rfl) hc (.refl _) rfl, stirs_rests rfl rfl⟩
      · have hposted : posted t.server.hub (t.server.hub.enterChannel c).2 = [] :=
          posted_of_feed_eq rfl
        exact ⟨.enters c rfl hbefore rfl (by simp [note, hposted])
          (by simp [note, creation, enterChannel]) rfl, stirs_rests rfl rfl⟩
  | announce =>
    obtain ⟨x, hx, rfl⟩ := Option.map_eq_some_iff.mp hs
    have hposted : posted t.server.hub (t.server.hub.announceChannel x) =
        [.everyone (.message (.advertise [x]))] := posted_of_push rfl
    exact ⟨.announces x rfl hx rfl (by rw [note, hposted]) (by simp [note, creation]) rfl,
      stirs_rests rfl rfl⟩
  | stop =>
    obtain rfl := Option.some.inj hs
    exact ⟨unfolds_continues (fun _ => rfl) rfl ⟨rfl, rfl, rfl, Or.inl rfl⟩ rfl,
      stirs_rests rfl rfl⟩

/-- An action that is not possible logs nothing: logging always is. -/
theorem logged_of_step_none (h : t.server.step w a = none) (c : ChannelId) : a.logged c = [] := by
  cases a with
  | log id payload i => cases h
  | _ => rfl

theorem unfolds_step (w : World) (a : Action) (t : Chronicle ℓ) : Unfolds a t (t.step w a) := by
  unfold step
  split
  · rename_i hs
    exact unfolds_refl (logged_of_step_none hs) t
  · rename_i hs
    exact (note_turn hs).1

theorem stirs_step (w : World) (a : Action) (t : Chronicle ℓ) : Stirs t (t.step w a) := by
  unfold step
  split
  · exact stirs_refl t
  · rename_i hs
    exact (note_turn hs).2

/-- What every turn keeps holds along every run. -/
theorem run_of_turn {p : Chronicle ℓ → Prop}
    (hp : ∀ t t' a, p t → Unfolds a t t' → Stirs t t' → p t') (os : List (World × Action))
    (h : p t) : p (t.run os) := by
  induction os generalizing t with
  | nil => exact h
  | cons o os ih => exact ih (hp _ _ _ h (unfolds_step o.1 o.2 t) (stirs_step o.1 o.2 t))

def sampleSubscribe : Incoming := .text "\x7b\"op\":\"subscribe\",\"channelIds\":[1]\x7d"

def inStillWorld (as : List Action) : List (World × Action) := as.map (⟨0, .empty⟩, ·)

end Chronicle

end Replay
