import Replay.Proofs.Server.Chronicle
import Replay.Proofs.Server.Convergence
import Replay.Proofs.Server.Deeds

/-!
What a viewer gets from the feed. A connection goes through the places of the feed in their order.
It takes what is at a place, or misses all up to the oldest item that is kept, and is brought up to
date after that. What it takes it sends on by the subscriptions it has at that moment, and these come
of what its viewer has sent. A viewer that misses nothing and stays subscribed to a channel gets what
is logged on it, each message once and in order (`intake_of_run`).
-/

namespace Replay

open Viewer

/-- What a viewer has got from the feed, and what it has still to get. -/
structure Intake {ℓ : Type} (t : Chronicle ℓ) (n : Nat) (v : Viewer) : Prop where
  /-- What was sent to it is what its deeds say. -/
  sent : v.sent = (t.deeds n).flatMap Deed.sends
  /-- It takes items in the order in which they were published, none twice. -/
  increasing : ((t.deeds n).filterMap Deed.taken?).Pairwise (· < ·)
  /-- It takes what was published there, and sends it on if it is for everyone or for the
  subscribers of a channel to which it is subscribed at that moment. -/
  forwards : ∀ before i xs after, t.deeds n = before ++ .take i xs :: after →
    ∃ p, t.published[i]? = some p ∧ xs = p.forwarded (subscribed before)
  /-- Nothing else brings messages, so that it is sent none on a channel to which it is not
  subscribed. -/
  entitled : ∀ before d after id i payload, t.deeds n = before ++ d :: after →
    .frame (.message id i payload) ∈ d.sends → subscribed before id = true
  /-- Of what was published since it took its place, what it has behind it was taken or missed. -/
  accounted : t.deeds n = [] ∨ ∃ first ds, t.deeds n = .attach first :: ds ∧
    first ≤ v.place ∧ v.place ≤ t.published.length ∧
    ∀ i, (first ≤ i ∧ i < v.place ↔ Takes (t.deeds n) i ∨ Misses (t.deeds n) i) ∧
      ¬ (Takes (t.deeds n) i ∧ Misses (t.deeds n) i)
  /-- What it has before it is still there, but for the oldest items that are gone. -/
  queued : t.server.hub.feed.backlog v.place =
    t.published.drop (max v.place t.server.hub.feed.oldest)
  /-- It has to miss these next. -/
  behind : v.stage = .live → v.place < t.server.hub.feed.oldest → v.dequeue t.server.hub =
    some { v with stage := .lookingUpChannels, place := t.server.hub.feed.oldest }
  /-- When it has nothing to take, it has all behind it. -/
  drained : v.stage = .live → v.dequeue t.server.hub = none → v.place = t.published.length
  /-- What it misses are all items but the newest, and it is brought up to date after that. -/
  recovers : ∀ before place next sent after,
    t.deeds n = before ++ .miss place next sent :: after →
    place < next ∧ next + t.server.hub.feed.room = sent ∧ sent ≤ t.published.length ∧
      Recovers v.stage after
  subscriptions : ∀ id, id ∈ v.subscriptions ↔ subscribed (t.deeds n) id = true
  advertised : ∀ id ∈ v.subscriptions, t.server.hub.isAdvertised id = true

/-- The messages on a channel that were published from the place of a viewer on. -/
def Chronicle.awaited {ℓ : Type} (t : Chronicle ℓ) (c : ChannelId) (v : Viewer) :
    List (Nanos × Bytes) := (t.published.drop v.place).flatMap (·.content.on c)

namespace Chronicle

open Server Hub

variable {ℓ : Type} {t t' : Chronicle ℓ} {a : Action} {n : Nat} {v v' : Viewer}

/-- What is kept along every run, from which follows what a viewer gets. -/
structure Keeps (t : Chronicle ℓ) (n : Nat) (v : Viewer) : Prop where
  sent : v.sent = (t.deeds n).flatMap Deed.sends
  place_le : v.place ≤ t.published.length
  proper : Throughout (Deed.Proper t.published t.server.hub.feed.room) [] (t.deeds n)
  begun : (t.deeds n = [] ∧ (v.stage = .arriving ∨ v.stage = .gone)) ∨
    v.stage ≠ .arriving ∧
      ∃ first ds, t.deeds n = .attach first :: ds ∧ Tiled first (t.deeds n) v.place
  recovering : ∀ before place next sent after,
    t.deeds n = before ++ .miss place next sent :: after → Recovering after v.stage
  frames : ∀ xs, v.stage = .catchingUp xs → ∀ x ∈ xs, x.NoMessage
  subscriptions : ∀ id, id ∈ v.subscriptions ↔ subscribed (t.deeds n) id = true
  advertised : ∀ id ∈ v.subscriptions, t.server.hub.isAdvertised id = true

theorem keeps_arrive (id : ClientId) (hdeeds : t.deeds n = []) : Keeps t n (.arrive id) := by
  refine ⟨by rw [hdeeds]; rfl, Nat.zero_le _, by rw [hdeeds]; trivial,
    Or.inl ⟨hdeeds, Or.inl rfl⟩, ?_, nofun, by simp [hdeeds, subscribed, Viewer.arrive], nofun⟩
  intro before place next sent after hsplit
  rw [hdeeds] at hsplit
  exact absurd hsplit.symm (by simp)

theorem Keeps.subscribed_eq (h : Keeps t n v) :
    (fun id => decide (id ∈ v.subscriptions)) = subscribed (t.deeds n) := by
  funext id
  rw [Bool.eq_iff_iff, decide_eq_true_iff]
  exact h.subscriptions id

/-- What a connection does is proper. -/
theorem Keeps.proper_moves (h : Keeps t n v) (hs : Sound t) {es : List Deed}
    (hm : Viewer.Moves t.server.hub v es v') :
    Throughout (Deed.Proper t.published t.server.hub.feed.room) (t.deeds n) es := by
  cases hm with
  | greet info hv => exact ⟨(plain_info info).2, trivial⟩
  | tell x xs hv => exact ⟨h.frames _ hv x List.mem_cons_self, trivial⟩
  | take p hv hp =>
    refine ⟨⟨p, ?_, by rw [h.subscribed_eq]⟩, trivial⟩
    have hdrop := (hs.receive hp).2
    rw [← List.head?_drop, hdrop, List.head?_cons]
  | miss hv hp =>
    refine ⟨⟨hp, ?_, Nat.le_of_eq hs.sent⟩, trivial⟩
    exact Feed.oldest_add_room (Nat.lt_of_le_of_lt (Nat.zero_le _) hp)
  | hear x stage subscriptions replies hv hstage hsubs hreplies =>
    refine throughout_of_forall fun _ d hd => ?_
    rcases List.mem_cons.mp hd with rfl | hd
    · trivial
    · obtain ⟨r, hr, rfl⟩ := List.mem_map.mp hd
      exact (hreplies r hr).2
  | listen | goOn | leave => trivial
  | attach | lookUp | lookUpState => exact ⟨trivial, trivial⟩

theorem Sound.place_moves (hs : Sound t) {es : List Deed}
    (hm : Viewer.Moves t.server.hub v es v') (hplace : v.place ≤ t.published.length) :
    v'.place ≤ t.published.length := by
  cases hm with
  | attach hv => exact Nat.le_of_eq hs.sent
  | take p hv hp =>
    have hlen := congrArg List.length (hs.receive hp).2
    simp only [List.length_drop, List.length_cons] at hlen
    have hlt : v.place < t.published.length := by omega
    exact hlt
  | miss hv hp => exact hs.sent ▸ t.server.hub.feed.oldest_le_sent
  | _ => exact hplace

/-- A connection takes its place first, and goes on from it. -/
theorem Keeps.begun_moves (h : Keeps t n v) {es : List Deed}
    (hm : Viewer.Moves t.server.hub v es v') :
    (t.deeds n ++ es = [] ∧ (v'.stage = .arriving ∨ v'.stage = .gone)) ∨
      v'.stage ≠ .arriving ∧ ∃ first ds, t.deeds n ++ es = .attach first :: ds ∧
        Tiled first (t.deeds n ++ es) v'.place := by
  rcases h.begun with ⟨hnil, hstage⟩ | ⟨hstage, first, ds, hds, htiled⟩
  · rw [hnil, List.nil_append]
    cases hm with
    | attach hv => exact Or.inr ⟨by simp, _, [], rfl, tiled_attach _⟩
    | leave => exact Or.inl ⟨rfl, Or.inr rfl⟩
    | _ => rcases hstage with hstage | hstage <;> simp_all [Stage.isCurrent]
  · refine Or.inr ⟨?_, first, ds ++ es, by rw [hds]; rfl, hm.tiled htiled hstage⟩
    cases hm with
    | listen stage stopsSeen hv =>
      rcases hv with ⟨_, rfl⟩ | ⟨_, rfl⟩ <;> simp
    | goOn stage hv hcurrent =>
      rintro rfl
      cases hcurrent
    | hear x stage subscriptions replies hv hafter hsubs hreplies =>
      rintro rfl
      rcases hafter with hafter | hafter <;> cases hafter
    | take p hv hp => exact hstage
    | _ => simp

theorem split_append {α : Type} {xs ys before after : List α} {a : α}
    (h : xs ++ ys = before ++ a :: after) :
    (∃ rest, xs = before ++ a :: rest ∧ after = rest ++ ys) ∨
      ∃ first, before = xs ++ first ∧ ys = first ++ a :: after := by
  rcases List.append_eq_append_iff.mp h with ⟨first, hbefore, hys⟩ | ⟨rest, hxs, hafter⟩
  · exact Or.inr ⟨first, hbefore, hys⟩
  · cases rest with
    | nil => exact Or.inr ⟨[], by simpa using hxs.symm, by simpa using hafter.symm⟩
    | cons b rest =>
      obtain ⟨rfl, rfl⟩ := List.cons.inj hafter
      exact Or.inl ⟨rest, hxs, rfl⟩

/-- A chronicle with other deeds. -/
def withDeeds (t : Chronicle ℓ) (deeds : Nat → List Deed) : Chronicle ℓ := { t with deeds }

/-- What a connection does is kept, as the hub is. -/
theorem Keeps.moves (h : Keeps t n v) (hs : Sound t) {es : List Deed}
    (hm : Viewer.Moves t.server.hub v es v') {deeds : Nat → List Deed}
    (hdeeds : deeds n = t.deeds n ++ es) : Keeps (t.withDeeds deeds) n v' := by
  have hall : (t.withDeeds deeds).deeds n = t.deeds n ++ es := hdeeds
  refine ⟨?_, hs.place_moves hm h.place_le, ?_, ?_, ?_, hm.frames h.frames, ?_, ?_⟩
  · rw [hall, List.flatMap_append, ← h.sent]
    exact hm.sends
  · rw [hall]
    exact throughout_append.mpr ⟨h.proper, h.proper_moves hs hm⟩
  · rw [hall]
    exact h.begun_moves hm
  · intro before place next sent after hsplit
    rw [hall] at hsplit
    rcases split_append hsplit with ⟨rest, hold, rfl⟩ | ⟨first, _, hes⟩
    · exact hm.recovering (h.recovering before place next sent rest hold)
    · exact hm.of_miss hes
  · intro id
    rw [hm.subscribes id, hall, subscribed, List.foldl_append, congrFun h.subscribed_eq id]
    rfl
  · intro id hid
    rcases hm.advertised id hid with hid | hid
    · exact h.advertised id hid
    · exact hid

theorem any_insertChannel (x : Advertised) (cs : List Advertised) (id : ChannelId) :
    (insertChannel x cs).any (·.id == id) = (x.id == id || cs.any (·.id == id)) := by
  induction cs with
  | nil => rfl
  | cons c cs ih =>
    unfold insertChannel
    split
    · rfl
    · split
      · rename_i hid
        simp [hid]
      · rw [List.any_cons, ih, List.any_cons, Bool.or_left_comm]

/-- What is advertised stays advertised. -/
theorem Unfolds.advertised (hu : Unfolds a t t') {id : ChannelId}
    (h : t.server.hub.isAdvertised id = true) : t'.server.hub.isAdvertised id = true := by
  cases hu with
  | continues _ hhub _ _ _ => rwa [isAdvertised, hhub.channels]
  | logs _ _ _ _ hhub _ _ _ => rwa [hhub]
  | enters c _ _ hhub _ _ _ =>
    rw [hhub]
    exact (any_insertChannel _ _ _).trans (Bool.or_eq_true_iff.mpr (Or.inr h))
  | announces _ _ _ hhub _ _ _ => rwa [hhub]

theorem Unfolds.published (hu : Unfolds a t t') : ∃ ps, t'.published = t.published ++ ps := by
  rcases hu.feed with ⟨_, hpublished⟩ | ⟨p, _, _, hpublished⟩
  · exact ⟨[], by rw [hpublished, List.append_nil]⟩
  · exact ⟨[p], hpublished⟩

theorem Unfolds.room (hu : Unfolds a t t') :
    t'.server.hub.feed.room = t.server.hub.feed.room := by
  rcases hu.feed with ⟨hfeed, _⟩ | ⟨p, _, hfeed, _⟩
  · rw [hfeed]
  · rw [hfeed, Feed.room_push]

theorem proper_mono {published ps : List Posting} {room : Nat} (before : List Deed) (d : Deed)
    (h : d.Proper published room before) : d.Proper (published ++ ps) room before := by
  cases d with
  | take i xs =>
    obtain ⟨p, hp, hxs⟩ := h
    refine ⟨p, ?_, hxs⟩
    rw [List.getElem?_append_left (List.getElem?_eq_some_iff.mp hp).1]
    exact hp
  | miss place next sent =>
    obtain ⟨hlt, hroom, hle⟩ := h
    refine ⟨hlt, hroom, ?_⟩
    rw [List.length_append]
    exact Nat.le_add_right_of_le hle
  | _ => exact h

/-- What the hub goes through changes nothing of what a connection did. -/
theorem Keeps.unfolds (h : Keeps t n v) (hu : Unfolds a t t') (hdeeds : t'.deeds n = t.deeds n) :
    Keeps t' n v := by
  obtain ⟨ps, hpublished⟩ := hu.published
  refine ⟨hdeeds ▸ h.sent, ?_, ?_, hdeeds ▸ h.begun, hdeeds ▸ h.recovering, h.frames,
    hdeeds ▸ h.subscriptions, fun id hid => hu.advertised (h.advertised id hid)⟩
  · rw [hpublished, List.length_append]
    exact Nat.le_add_right_of_le h.place_le
  · rw [hdeeds, hu.room, hpublished]
    exact h.proper.imp proper_mono

theorem Unfolds.withDeeds (hu : Unfolds a t t') (deeds : Nat → List Deed) :
    Unfolds a (t.withDeeds deeds) t' := by
  cases hu with
  | continues ha hhub hpublished hcreated hentered =>
    exact .continues ha hhub hpublished hcreated hentered
  | logs id payload i ha hhub hpublished hcreated hentered =>
    exact .logs id payload i ha hhub hpublished hcreated hentered
  | enters c ha hbefore hhub hpublished hcreated hentered =>
    exact .enters c ha hbefore hhub hpublished hcreated hentered
  | announces x ha hbefore hhub hpublished hcreated hentered =>
    exact .announces x ha hbefore hhub hpublished hcreated hentered

/-- What holds along every run. -/
structure Keeping (t : Chronicle ℓ) : Prop where
  sound : Sound t
  keeps : ∀ n v, t.server.viewer? n = some v → Keeps t n v

theorem keeping_start (info : ServerInfo) (capacity : Nat) (l : ℓ) :
    Keeping (start (Server.start info capacity l)) :=
  ⟨sound_start info capacity l, fun _ _ hv => absurd hv nofun⟩

theorem Keeping.turn (h : Keeping t) (hu : Unfolds a t t') (hs : Stirs t t') : Keeping t' := by
  refine ⟨h.sound.turn hu hs, ?_⟩
  intro n v' hv'
  cases hs.becomes hv' with
  | stays hv hdeeds => exact (h.keeps n v' hv).unfolds hu hdeeds
  | arrives id hv he hdeeds =>
    subst he
    exact (keeps_arrive id (h.sound.absent n hv)).unfolds hu hdeeds
  | moves v es hv hm hdeeds =>
    exact ((h.keeps n v hv).moves h.sound hm hdeeds).unfolds (hu.withDeeds t'.deeds) rfl

theorem Keeps.entitled (h : Keeps t n v) (hs : Sound t) {before after : List Deed} {d : Deed}
    (hsplit : t.deeds n = before ++ d :: after) {id : ChannelId} {i : Nanos} {payload : Bytes}
    (hmem : .frame (.message id i payload) ∈ d.sends) : subscribed before id = true := by
  have hproper := h.proper.at hsplit
  cases d with
  | tell x =>
    obtain rfl := List.mem_singleton.mp hmem
    exact absurd rfl (hproper id i payload)
  | take place xs =>
    obtain ⟨p, hp, rfl⟩ := hproper
    have haddressed := hs.addressed p (List.mem_of_getElem? hp)
    cases p with
    | everyone x =>
      obtain rfl := List.mem_singleton.mp hmem
      exact absurd rfl (haddressed id i payload)
    | subscribers id' x =>
      obtain ⟨_, _, rfl⟩ := haddressed
      simp only [Deed.sends, Posting.forwarded] at hmem
      split at hmem
      · rename_i hsubscribed
        cases List.mem_singleton.mp hmem
        exact hsubscribed
      · cases hmem
  | _ => cases hmem

theorem Keeps.intake (h : Keeps t n v) (hs : Sound t) : Intake t n v where
  sent := h.sent
  increasing := by
    rcases h.begun with ⟨hnil, _⟩ | ⟨_, _, _, _, htiled⟩
    · rw [hnil]
      exact .nil
    · exact htiled.increasing
  forwards _ _ _ _ hsplit := h.proper.at hsplit
  entitled _ _ _ _ _ _ hsplit hmem := h.entitled hs hsplit hmem
  accounted := by
    rcases h.begun with ⟨hnil, _⟩ | ⟨_, first, ds, hds, htiled⟩
    · exact Or.inl hnil
    · exact Or.inr ⟨first, ds, hds, htiled.le, h.place_le,
        fun i => ⟨htiled.covers i, htiled.apart i⟩⟩
  queued := hs.backlog v.place
  behind hlive hold := by
    simp only [dequeue, hlive, if_true, Feed.receive, hold]
  drained hlive hd := by
    simp only [dequeue, hlive, if_true] at hd
    rcases t.server.hub.feed.receive_cases v.place with
      ⟨_, hget⟩ | ⟨hold, hlog, _⟩ | ⟨_, p, _, hget⟩
    · simp [hget] at hd
    · rw [hs.backlog, Nat.max_eq_left hold] at hlog
      exact Nat.le_antisymm h.place_le (List.drop_eq_nil_iff.mp hlog)
    · cases p <;> simp [hget] at hd
  recovers _ _ _ _ _ hsplit := by
    obtain ⟨hlt, hroom, hle⟩ := h.proper.at hsplit
    exact ⟨hlt, hroom, hle, (h.recovering _ _ _ _ _ hsplit).recovers⟩
  subscriptions := h.subscriptions
  advertised := h.advertised

theorem Unfolds.awaited (hu : Unfolds a t t') (hplace : v.place ≤ t.published.length)
    (c : ChannelId) : t'.awaited c v = t.awaited c v ++ a.logged c := by
  obtain ⟨ps, hpublished⟩ := hu.published
  have hon := hu.on c
  rw [hpublished, List.flatMap_append, List.append_cancel_left_eq] at hon
  rw [Chronicle.awaited, hpublished, List.drop_append_of_le_length hplace, List.flatMap_append, hon]
  rfl

theorem on_forwarded {p : Posting} (hp : p.IsAddressed) (isSubscribed : ChannelId → Bool)
    {c : ChannelId} (hc : isSubscribed c = true) :
    (p.forwarded isSubscribed).flatMap (·.on c) = p.content.on c := by
  cases p with
  | everyone x => exact List.append_nil _
  | subscribers id x =>
    obtain ⟨i, payload, rfl⟩ := hp
    by_cases hid : isSubscribed id = true
    · rw [Posting.forwarded, if_pos hid]
      exact List.append_nil _
    · have hne : id ≠ c := fun he => hid (he ▸ hc)
      rw [Posting.forwarded, if_neg hid]
      exact (if_neg hne).symm

/-- Without a miss, what is sent to a subscriber is what it had to get next. -/
theorem Keeps.awaited_moves (h : Keeps t n v) (hs : Sound t) {es : List Deed}
    (hm : Viewer.Moves t.server.hub v es v') (hmiss : es.countP Deed.isMiss = 0) {c : ChannelId}
    (hc : c ∈ v.subscriptions) : v'.sent.flatMap (·.on c) ++ t.awaited c v' =
      v.sent.flatMap (·.on c) ++ t.awaited c v := by
  have hplain : ∀ xs : List Outgoing, (∀ x ∈ xs, x.NoMessage) →
      (v.sent ++ xs).flatMap (·.on c) = v.sent.flatMap (·.on c) := by
    intro xs hxs
    rw [List.flatMap_append, List.flatMap_eq_nil_iff.mpr fun x hx => (hxs x hx).on c,
      List.append_nil]
  cases hm with
  | attach hv =>
    rcases h.begun with ⟨hnil, _⟩ | ⟨hne, _⟩
    · have hsub := (h.subscriptions c).mp hc
      rw [hnil] at hsub
      cases hsub
    · exact absurd hv hne
  | greet info hv =>
    exact congrArg (· ++ t.awaited c v) (hplain _ (by simpa using (plain_info info).2))
  | tell x xs hv =>
    exact congrArg (· ++ t.awaited c v)
      (hplain _ (by simpa using h.frames _ hv x List.mem_cons_self))
  | take p hv hp =>
    have hdrop := (hs.receive hp).2
    have hmem : p ∈ t.published := List.mem_of_mem_drop (hdrop ▸ List.mem_cons_self)
    have hon := on_forwarded (hs.addressed p hmem) (· ∈ v.subscriptions) (decide_eq_true hc)
    simp only [Chronicle.awaited, hdrop, List.flatMap_cons, List.flatMap_append, List.append_assoc,
      hon]
  | miss hv hp => exact absurd hmiss (by simp [Deed.isMiss])
  | hear x stage subscriptions replies hv hstage hsubs hreplies =>
    exact congrArg (· ++ t.awaited c v) (hplain _ fun r hr => (hreplies r hr).2)
  | listen | lookUp | lookUpState | goOn | leave => rfl

variable [Listener ℓ] {w : World}

theorem deeds_step (w : World) (a : Action) (t : Chronicle ℓ) (n : Nat) :
    ∃ es, (t.step w a).deeds n = t.deeds n ++ es := by
  unfold Chronicle.step
  split
  · exact ⟨[], (List.append_nil _).symm⟩
  · exact ⟨_, rfl⟩

theorem misses_le_run (os : List (World × Action)) (t : Chronicle ℓ) (n : Nat) :
    (t.deeds n).countP Deed.isMiss ≤ ((t.run os).deeds n).countP Deed.isMiss := by
  induction os generalizing t with
  | nil => exact Nat.le_refl _
  | cons o os ih =>
    obtain ⟨es, hes⟩ := deeds_step o.1 o.2 t n
    refine Nat.le_trans ?_ (ih (t.step o.1 o.2))
    rw [hes, List.countP_append]
    exact Nat.le_add_right _ _

theorem Keeping.step (h : Keeping t) (w : World) (a : Action) : Keeping (t.step w a) :=
  h.turn (unfolds_step w a t) (stirs_step w a t)

/-- One action, for a subscriber that misses nothing by it. -/
theorem Keeping.received_step (h : Keeping t) {c : ChannelId} (hv : t.server.viewer? n = some v)
    (hv' : (t.step w a).server.viewer? n = some v')
    (hmiss : ((t.step w a).deeds n).countP Deed.isMiss = (t.deeds n).countP Deed.isMiss)
    (hc : c ∈ v.subscriptions) :
    v'.sent.flatMap (·.on c) ++ (t.step w a).awaited c v' =
      v.sent.flatMap (·.on c) ++ t.awaited c v ++ a.logged c := by
  have hu := unfolds_step w a t
  have hkeeps := h.keeps n v hv
  cases (stirs_step w a t).becomes hv' with
  | stays hsame _ =>
    obtain rfl := Option.some.inj (hv.symm.trans hsame)
    rw [hu.awaited hkeeps.place_le, List.append_assoc]
  | arrives _ hnone _ _ => exact absurd (hv.symm.trans hnone) nofun
  | moves u es hu' hm hdeeds =>
    obtain rfl := Option.some.inj (hv.symm.trans hu')
    have hnone : es.countP Deed.isMiss = 0 := by
      rw [hdeeds, List.countP_append] at hmiss
      omega
    rw [hu.awaited (h.sound.place_moves hm hkeeps.place_le), ← List.append_assoc,
      hkeeps.awaited_moves h.sound hm hnone hc]

/-- A subscriber that misses nothing gets every message that is logged, once and in order. -/
theorem Keeping.received_run (h : Keeping t) {c : ChannelId} (os : List (World × Action))
    (hv : t.server.viewer? n = some v) (hv' : (t.run os).server.viewer? n = some v')
    (hmiss : ((t.run os).deeds n).countP Deed.isMiss = (t.deeds n).countP Deed.isMiss)
    (hc : ∀ k ≤ os.length, ∀ u ∈ (t.run (os.take k)).server.viewer? n, c ∈ u.subscriptions) :
    v'.sent.flatMap (·.on c) ++ (t.run os).awaited c v' =
      v.sent.flatMap (·.on c) ++ t.awaited c v ++ os.flatMap (·.2.logged c) := by
  induction os generalizing t v with
  | nil =>
    obtain rfl := Option.some.inj (hv.symm.trans hv')
    exact (List.append_nil _).symm
  | cons o os ih =>
    obtain ⟨u, hu⟩ := (stirs_step o.1 o.2 t).persists hv
    have hfirst : (t.deeds n).countP Deed.isMiss ≤ ((t.step o.1 o.2).deeds n).countP Deed.isMiss :=
      misses_le_run [o] t n
    have hrest := misses_le_run os (t.step o.1 o.2) n
    have hall : ((t.run (o :: os)).deeds n).countP Deed.isMiss =
      (((t.step o.1 o.2).run os).deeds n).countP Deed.isMiss := rfl
    have hone := h.received_step hv hu (by omega) (hc 0 (Nat.zero_le _) v hv)
    have hmore := ih (h.step o.1 o.2) hu hv' (by omega)
      fun k hk => hc (k + 1) (Nat.succ_le_succ hk)
    rw [List.flatMap_cons, ← List.append_assoc, ← hone]
    exact hmore

/-- Whatever the room of the feed and in whatever order viewers, hub and player act: the items that
a viewer is sent are those of its feed, in their order, as its subscriptions were, but for what it
missed. From one moment to another in which it misses nothing and stays subscribed to a channel, the
messages on that channel that it was sent or has to get next are those before, and then those that
were logged meanwhile. -/
theorem intake_of_run (info : ServerInfo) (capacity : Nat) (l : ℓ) (os : List (World × Action))
    {n : Nat} {v : Viewer} :
    let t := (start (Server.start info capacity l)).run os
    t.server.viewer? n = some v →
    Intake t n v ∧
    ∀ os' v' c,
      (t.run os').server.viewer? n = some v' →
      ((t.run os').deeds n).countP Deed.isMiss = (t.deeds n).countP Deed.isMiss →
      (∀ k ≤ os'.length, ∀ u ∈ (t.run (os'.take k)).server.viewer? n, c ∈ u.subscriptions) →
      v'.sent.flatMap (·.on c) ++ (t.run os').awaited c v' =
        v.sent.flatMap (·.on c) ++ t.awaited c v ++ os'.flatMap (·.2.logged c) := by
  intro t hv
  have h : Keeping t :=
    run_of_turn (fun _ _ _ h hu hs => h.turn hu hs) os (keeping_start info capacity l)
  exact ⟨(h.keeps n v hv).intake h.sound,
    fun os' v' c hv' hmiss hc => h.received_run os' hv hv' hmiss hc⟩

/-- A subscriber falls behind: the feed holds two items, and three messages are logged. -/
def laggedActions : List (World × Action) :=
  inStillWorld ([.connect] ++ List.replicate 7 (.proceed 0) ++
    [.enter ⟨"/a", "json", none⟩, .announce, .receive 0 sampleSubscribe, .dequeue 0,
      .log 1 [5] 5, .log 1 [6] 6, .log 1 [7] 7, .dequeue 0] ++
    List.replicate 4 (.proceed 0) ++ [.dequeue 0])

def laggedViewer : Viewer where
  id := 1
  stage := .live
  place := 3
  stopsSeen := 0
  subscriptions := [1]
  sent := [.message (.serverInfo sampleInfo),
    .message (.advertise [⟨1, "/a", "json", "", none, ""⟩]),
    .message (.advertise [⟨1, "/a", "json", "", none, ""⟩]), .frame (.message 1 6 [6])]

/-- From then on it keeps up. -/
def steadyActions : List (World × Action) :=
  inStillWorld [.log 1 [8] 8, .dequeue 0, .time 9, .dequeue 0, .dequeue 0]

def steadyViewer : Viewer :=
  { laggedViewer with
    place := 6
    sent := laggedViewer.sent ++
      [.frame (.message 1 7 [7]), .frame (.message 1 8 [8]), .frame (.time 9)] }

theorem lagged_intake :
    let t := (start (Server.start sampleInfo 2 Player.samplePlayer)).run laggedActions
    t.server.viewer? 0 = some laggedViewer ∧ Intake t 0 laggedViewer ∧
    (t.run steadyActions).server.viewer? 0 = some steadyViewer ∧
    steadyViewer.sent.flatMap (·.on 1) ++ (t.run steadyActions).awaited 1 steadyViewer =
      laggedViewer.sent.flatMap (·.on 1) ++ t.awaited 1 laggedViewer ++
        steadyActions.flatMap (·.2.logged 1) := by
  dsimp only
  have hv : ((start (Server.start sampleInfo 2 Player.samplePlayer)).run
      laggedActions).server.viewer? 0 = some laggedViewer := by decide +kernel
  have hv' : (((start (Server.start sampleInfo 2 Player.samplePlayer)).run laggedActions).run
      steadyActions).server.viewer? 0 = some steadyViewer := by decide +kernel
  have hmiss : ((((start (Server.start sampleInfo 2 Player.samplePlayer)).run laggedActions).run
      steadyActions).deeds 0).countP Deed.isMiss =
      (((start (Server.start sampleInfo 2 Player.samplePlayer)).run
        laggedActions).deeds 0).countP Deed.isMiss := by decide +kernel
  have hc : ∀ k ≤ steadyActions.length,
      ∀ u ∈ (((start (Server.start sampleInfo 2 Player.samplePlayer)).run laggedActions).run
        (steadyActions.take k)).server.viewer? 0, 1 ∈ u.subscriptions := by decide +kernel
  obtain ⟨hintake, hreceived⟩ :=
    intake_of_run sampleInfo 2 Player.samplePlayer laggedActions hv
  exact ⟨hv, hintake, hv', hreceived steadyActions steadyViewer 1 hv' hmiss hc⟩

end Chronicle

end Replay
