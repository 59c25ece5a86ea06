import Mathlib.Data.List.Nodup
import Replay.Proofs.Server.Chronicle
import Replay.Proofs.Server.Convergence

/-!
A channel is introduced before its messages. A viewer may subscribe to an id before the channel
under it was told to that viewer, and the item that tells it may be gone from the feed; still no
message comes before the channel it is on. What carries this is an outlook on all that a viewer may
be sent: what it was sent, what it is brought up to date with, and what was published from its place
on.
-/

namespace Replay

/-- Whether a channel with this id stands in a list as it was created. -/
def Lists (created : List (ChannelId × Channel)) (id : ChannelId) (cs : List Advertised) : Prop :=
  ∃ c, (id, c) ∈ created ∧ c.advertise id ∈ cs

/-- With some channels told already, every message is on one of them, or on one that something
before it tells. -/
def Introduced (created : List (ChannelId × Channel)) : List Advertised → List Outgoing → Prop
  | _, [] => True
  | cs, x :: xs => (∀ id t payload, x = .frame (.message id t payload) → Lists created id cs) ∧
      Introduced created (cs ++ x.advertised) xs

section

variable {created created' : List (ChannelId × Channel)} {id : ChannelId}
  {cs cs' : List Advertised} {xs ys zs zs' : List Outgoing}

theorem lists_append :
    Lists created id (cs ++ cs') ↔ Lists created id cs ∨ Lists created id cs' := by
  simp only [Lists, List.mem_append, and_or_left, exists_or]

theorem Lists.mono (h : Lists created id cs) (hcreated : created ⊆ created') (hcs : cs ⊆ cs') :
    Lists created' id cs' := by
  obtain ⟨c, hc, hmem⟩ := h
  exact ⟨c, hcreated hc, hcs hmem⟩

theorem introduced_append : Introduced created cs (xs ++ ys) ↔
    Introduced created cs xs ∧ Introduced created (cs ++ xs.flatMap Outgoing.advertised) ys := by
  induction xs generalizing cs with
  | nil => simp [Introduced]
  | cons x xs ih =>
    rw [List.cons_append, Introduced, Introduced, ih, List.flatMap_cons, List.append_assoc,
      and_assoc]

theorem Introduced.mono (h : Introduced created cs xs) (hcreated : created ⊆ created')
    (hcs : ∀ id, Lists created id cs → Lists created' id cs') : Introduced created' cs' xs := by
  induction xs generalizing cs cs' with
  | nil => trivial
  | cons x xs ih =>
    refine ⟨fun id t payload hx => hcs id (h.1 id t payload hx), ih h.2 ?_⟩
    intro id hid
    rcases lists_append.mp hid with hid | hid
    · exact lists_append.mpr (Or.inl (hcs id hid))
    · exact lists_append.mpr (Or.inr (hid.mono hcreated (List.Subset.refl _)))

/-- Where every message is on a channel that was told already, the order does not matter. -/
theorem introduced_of_lists
    (h : ∀ x ∈ xs, ∀ id t payload, x = .frame (.message id t payload) → Lists created id cs) :
    Introduced created cs xs := by
  induction xs generalizing cs with
  | nil => trivial
  | cons x xs ih =>
    refine ⟨h x List.mem_cons_self, ih ?_⟩
    intro y hy id t payload hmessage
    exact lists_append.mpr (Or.inl (h y (List.mem_cons_of_mem _ hy) id t payload hmessage))

theorem introduced_of_noMessage (h : ∀ x ∈ xs, x.NoMessage) : Introduced created cs xs :=
  introduced_of_lists fun x hx id t payload hmessage => absurd hmessage (h x hx id t payload)

/-- A part may be replaced by one that has no messages and tells as much. -/
theorem Introduced.replace (h : Introduced created cs (xs ++ zs ++ ys))
    (hquiet : ∀ x ∈ zs', x.NoMessage)
    (hcs : ∀ id, Lists created id (zs.flatMap Outgoing.advertised) →
      Lists created id (zs'.flatMap Outgoing.advertised)) :
    Introduced created cs (xs ++ zs' ++ ys) := by
  obtain ⟨hfirst, hys⟩ := introduced_append.mp h
  refine introduced_append.mpr ⟨?_, hys.mono (List.Subset.refl _) ?_⟩
  · exact introduced_append.mpr
      ⟨(introduced_append.mp hfirst).1, introduced_of_noMessage hquiet⟩
  · intro id
    simp only [List.flatMap_append, lists_append]
    exact Or.imp_right (Or.imp_right (hcs id))

/-- What `Introduced` says of each message. -/
theorem Introduced.before (h : Introduced created [] xs) {before after : List Outgoing} {t : Nanos}
    {payload : Bytes} (hxs : xs = before ++ .frame (.message id t payload) :: after) :
    ∃ c, (id, c) ∈ created ∧ ∃ x ∈ before, c.advertise id ∈ x.advertised := by
  rw [hxs] at h
  obtain ⟨c, hc, hmem⟩ := (introduced_append.mp h).2.1 id t payload rfl
  exact ⟨c, hc, List.mem_flatMap.mp hmem⟩

end

theorem Hub.advertised_catchUp (cs : List Advertised) (last : Option State) :
    (catchUp cs last).flatMap Outgoing.advertised = cs := by
  unfold catchUp
  by_cases hcs : cs = []
  · cases last <;> simp [hcs, Outgoing.advertised]
  · cases last <;> simp [hcs, Outgoing.advertised]

/-- What a viewer is brought up to date with depends on the hub in one of three ways. -/
theorem Viewer.ahead_cases (v : Viewer) :
    (∀ h, v.ahead h = Hub.catchUp h.channels h.lastState) ∨
    (∃ cs, ∀ h : Hub, v.ahead h = Hub.catchUp cs h.lastState) ∨
    (∃ xs, ∀ h, v.ahead h = xs) := by
  unfold ahead
  cases v.stage with
  | arriving | attached | listening | greeting | lookingUpChannels => exact Or.inl fun _ => rfl
  | lookingUpState cs => exact Or.inr (Or.inl ⟨cs, fun _ => rfl⟩)
  | catchingUp xs => exact Or.inr (Or.inr ⟨xs, fun _ => rfl⟩)
  | live | remembering | announcing | gone => exact Or.inr (Or.inr ⟨[], fun _ => rfl⟩)

theorem Viewer.ahead_of_isCurrent {v : Viewer} (hv : v.stage.isCurrent) (h : Hub) :
    v.ahead h = [] := by
  unfold ahead
  cases hstage : v.stage <;> simp_all [Stage.isCurrent]

/-- What a viewer is to be brought up to date with tells more when the hub has more channels. -/
theorem Introduced.ahead {created : List (ChannelId × Channel)} {cs : List Advertised}
    {xs ys : List Outgoing} {hub hub' : Hub} {v : Viewer}
    (h : Introduced created cs (xs ++ v.ahead hub ++ ys))
    (hlists : ∀ id, Lists created id hub.channels → Lists created id hub'.channels) :
    Introduced created cs (xs ++ v.ahead hub' ++ ys) ∧
      ∀ id, Lists created id ((xs ++ v.ahead hub ++ ys).flatMap Outgoing.advertised) →
        Lists created id ((xs ++ v.ahead hub' ++ ys).flatMap Outgoing.advertised) := by
  have hmore : ∀ id, Lists created id ((v.ahead hub).flatMap Outgoing.advertised) →
      Lists created id ((v.ahead hub').flatMap Outgoing.advertised) := by
    rcases v.ahead_cases with hall | ⟨_, hfound⟩ | ⟨_, hsame⟩
    · simpa only [hall, Hub.advertised_catchUp] using hlists
    · simp only [hfound, Hub.advertised_catchUp, imp_self, implies_true]
    · simp only [hsame, imp_self, implies_true]
  refine ⟨?_, ?_⟩
  · rcases v.ahead_cases with hall | ⟨_, hfound⟩ | ⟨_, hsame⟩
    · exact h.replace (hall hub' ▸ Hub.noMessage_catchUp _ _) hmore
    · exact h.replace (hfound hub' ▸ Hub.noMessage_catchUp _ _) hmore
    · rwa [hsame, ← hsame hub]
  · intro id
    simp only [List.flatMap_append, lists_append]
    exact Or.imp_left (Or.imp_right (hmore id))

namespace Chronicle

open Server Hub

variable {ℓ : Type}

/-- What the chronicle says of the channels of the hub: each stands there as it was created, under
the number of its creation, and messages are on channels that stand there. -/
structure Registered (t : Chronicle ℓ) : Prop where
  ordered : Ordered t.server.hub.channels
  channels : ∀ x ∈ t.server.hub.channels, ∃ c, (x.id, c) ∈ t.created ∧ x = c.advertise x.id
  entered : ∀ x, t.server.entered = some x → ∃ c, (x.id, c) ∈ t.created ∧ x = c.advertise x.id
  created : ∀ id c, (id, c) ∈ t.created → ∃ x ∈ t.server.hub.channels, x.id = id
  messages : ∀ p ∈ t.published, ∀ id i payload,
    p.content = .frame (.message id i payload) → ∃ x ∈ t.server.hub.channels, x.id = id
  numbers : t.created.map (·.1) =
    (List.range t.created.length).map fun k => UInt32.ofNat (k + 1)
  next : t.server.hub.nextChannel = UInt32.ofNat (t.created.length + 1)

/-- All that a viewer may be sent if it goes on as the hub is. -/
def outlook (t : Chronicle ℓ) (v : Viewer) : List Outgoing :=
  v.sent ++ v.ahead t.server.hub ++ (t.published.drop v.place).map Posting.content

/-- What a viewer is sent and may be sent is introduced, and every channel of the hub is told there,
but for one that is entered and not yet announced. -/
structure Informed (t : Chronicle ℓ) (v : Viewer) : Prop where
  place_le : v.place ≤ t.published.length
  sent : Introduced t.created [] v.sent
  introduced : v.stage ≠ .gone → Introduced t.created [] (t.outlook v)
  told : v.stage ≠ .gone → ∀ x ∈ t.server.hub.channels,
    (∀ y, t.server.entered = some y → x.id ≠ y.id) →
    Lists t.created x.id ((t.outlook v).flatMap Outgoing.advertised)

variable {t t' : Chronicle ℓ} {v v' : Viewer} {a : Action}

theorem Registered.lists (h : Registered t) {x : Advertised} (hx : x ∈ t.server.hub.channels) :
    Lists t.created x.id t.server.hub.channels := by
  obtain ⟨c, hc, he⟩ := h.channels x hx
  exact ⟨c, hc, he ▸ hx⟩

theorem informed_gone (hplace : v.place ≤ t.published.length)
    (hsent : Introduced t.created [] v.sent) (hgone : v.stage = .gone) : Informed t v :=
  ⟨hplace, hsent, absurd hgone, absurd hgone⟩

/-- A viewer that is to be brought up to date is told every channel of the hub, and what it may be
sent after that is on one of them. -/
theorem Registered.informed (h : Registered t) (hplace : v.place ≤ t.published.length)
    (hsent : Introduced t.created [] v.sent)
    (hahead : v.ahead t.server.hub = catchUp t.server.hub.channels t.server.hub.lastState) :
    Informed t v := by
  refine ⟨hplace, hsent, fun _ => ?_, fun _ => ?_⟩
  · rw [Chronicle.outlook, hahead]
    refine introduced_append.mpr ⟨introduced_append.mpr
      ⟨hsent, introduced_of_noMessage (noMessage_catchUp _ _)⟩, introduced_of_lists ?_⟩
    intro y hy id i payload hmessage
    obtain ⟨p, hp, rfl⟩ := List.mem_map.mp hy
    obtain ⟨x, hx, rfl⟩ := h.messages p (List.mem_of_mem_drop hp) id i payload hmessage
    simp only [List.flatMap_append, advertised_catchUp, lists_append]
    exact Or.inr (Or.inr (h.lists hx))
  · intro x hx _
    simp only [Chronicle.outlook, hahead, List.flatMap_append, advertised_catchUp, lists_append]
    exact Or.inl (Or.inr (h.lists hx))

/-- A connection whose outlook stays as it is, but for parts that say nothing of channels. -/
theorem Informed.replace (h : Informed t v) (xs ys zs zs' : List Outgoing)
    (hgone : v.stage ≠ .gone) (hplace : v'.place ≤ t.published.length)
    (hbefore : t.outlook v = xs ++ zs ++ ys) (hafter : t.outlook v' = xs ++ zs' ++ ys)
    (hquiet : ∀ x ∈ zs', x.NoMessage)
    (htold : zs'.flatMap Outgoing.advertised = zs.flatMap Outgoing.advertised) : Informed t v' := by
  have hnext : Introduced t.created [] (t.outlook v') := by
    rw [hafter]
    exact (hbefore ▸ h.introduced hgone).replace hquiet fun id hid => htold ▸ hid
  refine ⟨hplace, ?_, fun _ => hnext, fun _ x hx hne => ?_⟩
  · rw [Chronicle.outlook, List.append_assoc] at hnext
    exact (introduced_append.mp hnext).1
  · have hlists := h.told hgone x hx hne
    simp only [hbefore, List.flatMap_append] at hlists
    simp only [hafter, List.flatMap_append, htold]
    exact hlists

theorem Informed.congr (h : Informed t v) (hgone : v.stage ≠ .gone)
    (hplace : v'.place ≤ t.published.length) (hsame : t.outlook v' = t.outlook v) :
    Informed t v' :=
  h.replace (t.outlook v) [] [] [] hgone hplace (by simp) (by simp [hsame]) nofun rfl

/-- What is taken off the feed and not sent on says nothing of channels. -/
theorem forwarded_cases {p : Posting} (hp : p.IsAddressed) (isSubscribed : ChannelId → Bool) :
    p.forwarded isSubscribed = [p.content] ∨
      p.forwarded isSubscribed = [] ∧ p.content.advertised = [] := by
  cases p with
  | everyone x => exact Or.inl rfl
  | subscribers id x =>
    obtain ⟨i, payload, rfl⟩ := hp
    cases hid : isSubscribed id with
    | true => exact Or.inl (by simp [Posting.forwarded, Posting.content, hid])
    | false => exact Or.inr ⟨by simp [Posting.forwarded, hid], rfl⟩

/-- What a connection does keeps its viewer informed. -/
theorem Informed.moves (h : Informed t v) (hr : Registered t) (hs : Sound t)
    {ds : List Viewer.Deed} (hm : Viewer.Moves t.server.hub v ds v') : Informed t v' := by
  have hend : t.server.hub.feed.sent = t.published.length := hs.sent
  have hold : t.server.hub.feed.oldest ≤ t.published.length :=
    hend ▸ t.server.hub.feed.oldest_le_sent
  cases hm with
  | attach hv =>
    refine hr.informed (Nat.le_of_eq hend) h.sent ?_
    rfl
  | listen stage stopsSeen hv =>
    rcases hv with ⟨hv, rfl⟩ | ⟨hv, rfl⟩ <;>
      exact h.congr (by simp [hv]) h.place_le (by simp [outlook, Viewer.ahead, hv])
  | greet info hv =>
    refine h.replace v.sent (v.ahead t.server.hub ++ (t.published.drop v.place).map Posting.content)
      [] [.message (.serverInfo info)] (by simp [hv]) h.place_le (by simp [outlook]) ?_ ?_ rfl
    · simp [outlook, Viewer.ahead, hv]
    · intro x hx
      obtain rfl := List.mem_singleton.mp hx
      exact (plain_info info).2
  | lookUp hv => exact h.congr (by simp [hv]) h.place_le (by simp [outlook, Viewer.ahead, hv])
  | lookUpState channels hv =>
    exact h.congr (by simp [hv]) h.place_le (by simp [outlook, Viewer.ahead, hv])
  | tell x xs hv => exact h.congr (by simp [hv]) h.place_le (by simp [outlook, Viewer.ahead, hv])
  | goOn stage hv hstage =>
    have hgone : v.stage ≠ .gone := by
      rcases hv with hv | hv
      · simp [hv]
      · intro hgone
        simp [hgone, Viewer.Stage.isCurrent] at hv
    have hahead : v.ahead t.server.hub = [] := by
      rcases hv with hv | hv
      · simp [Viewer.ahead, hv]
      · exact Viewer.ahead_of_isCurrent hv _
    refine h.congr hgone h.place_le ?_
    have hnext : Viewer.ahead t.server.hub { v with stage } = [] :=
      Viewer.ahead_of_isCurrent hstage _
    simp [outlook, hahead, hnext]
  | take p hv hp =>
    obtain ⟨_, hdrop⟩ := hs.receive hp
    have hplace : v.place + 1 ≤ t.published.length := by
      have hlen := congrArg List.length hdrop
      simp only [List.length_drop, List.length_cons] at hlen
      omega
    have hmem : p ∈ t.published := List.mem_of_mem_drop (hdrop ▸ List.mem_cons_self)
    have hgone : v.stage ≠ .gone := by simp [hv]
    have hbefore : t.outlook v =
        v.sent ++ [p.content] ++ (t.published.drop (v.place + 1)).map Posting.content := by
      simp [outlook, Viewer.ahead, hv, hdrop]
    have hafter : ∀ xs, t.outlook { v with place := v.place + 1, sent := v.sent ++ xs } =
        v.sent ++ xs ++ (t.published.drop (v.place + 1)).map Posting.content := by
      intro xs
      simp [outlook, Viewer.ahead, hv]
    rcases forwarded_cases (hs.addressed p hmem) (· ∈ v.subscriptions) with hsame | ⟨hnone, hquiet⟩
    · rw [hsame]
      exact h.congr hgone hplace ((hafter _).trans hbefore.symm)
    · rw [hnone]
      exact h.replace _ _ [p.content] [] hgone hplace hbefore (hafter _)
        (List.forall_mem_nil _) (by simp [hquiet])
  | miss hv hp => exact hr.informed hold h.sent rfl
  | hear x stage subscriptions replies hv hstage hsubs hreplies =>
    have hquiet : ∀ r ∈ replies, r.NoMessage := fun r hr => (hreplies r hr).2
    rcases hstage with hstage | rfl
    · have hahead : Viewer.ahead t.server.hub
          { v with stage, subscriptions, sent := v.sent ++ replies } = [] :=
        Viewer.ahead_of_isCurrent hstage _
      refine h.replace v.sent ((t.published.drop v.place).map Posting.content) [] replies
        (by simp [hv]) h.place_le (by simp [outlook, Viewer.ahead, hv]) (by simp [outlook, hahead])
        hquiet ?_
      simpa using fun r hr => (hreplies r hr).1
    · exact informed_gone h.place_le
        (introduced_append.mpr ⟨h.sent, introduced_of_noMessage hquiet⟩) rfl
  | leave =>
    exact informed_gone h.place_le h.sent rfl

/-- A message is logged on a channel that was created, while none is on its way to be announced. -/
def Orderly (a : Action) (t : Chronicle ℓ) : Prop :=
  ∀ id ∈ a.target?, t.server.entered = none ∧ id ∈ t.created.map (·.1)

instance (a : Action) (t : Chronicle ℓ) : Decidable (Orderly a t) :=
  Option.decidableForallMem a.target?

theorem Orderly.created {id : ChannelId} {payload : Bytes} {i : Nanos}
    (h : Orderly (.log id payload i) t) : ∃ c, (id, c) ∈ t.created := by
  obtain ⟨⟨_, c⟩, hmem, rfl⟩ := List.mem_map.mp (h id rfl).2
  exact ⟨c, hmem⟩

theorem numbers_concat {n : Nat} {ids : List ChannelId}
    (h : ids = (List.range n).map fun k => UInt32.ofNat (k + 1)) :
    ids ++ [UInt32.ofNat (n + 1)] = (List.range (n + 1)).map fun k => UInt32.ofNat (k + 1) := by
  rw [List.range_succ, List.map_append, ← h, List.map_singleton]

/-- A channel that is entered takes the place of one with its id, and the others stay. -/
theorem Registered.mem_enters (h : Registered t) {c : Channel}
    (hhub : t'.server.hub = (t.server.hub.enterChannel c).2) (x : Advertised) :
    x ∈ t'.server.hub.channels ↔ x = c.advertise t.server.hub.nextChannel ∨
      x ∈ t.server.hub.channels ∧ x.id ≠ t.server.hub.nextChannel := by
  have hchannels : t'.server.hub.channels =
      insertChannel (c.advertise t.server.hub.nextChannel) t.server.hub.channels := hhub ▸ rfl
  rw [hchannels, h.ordered.mem_insert, Channel.id_advertise]

theorem Registered.enters (h : Registered t) {c : Channel}
    (hhub : t'.server.hub = (t.server.hub.enterChannel c).2)
    (hpublished : t'.published = t.published)
    (hcreated : t'.created = t.created ++ [(t.server.hub.nextChannel, c)])
    (hentered : t'.server.entered = some (c.advertise t.server.hub.nextChannel)) :
    Registered t' := by
  have hmem := h.mem_enters hhub
  have hordered : Ordered t'.server.hub.channels := hhub ▸ h.ordered.insert _
  have hnew : (t.server.hub.nextChannel, c) ∈ t'.created := by simp [hcreated]
  -- a channel may lose its place to the new one, but its id has one
  have hkept : ∀ id, (∃ x ∈ t.server.hub.channels, x.id = id) →
      ∃ x ∈ t'.server.hub.channels, x.id = id := by
    rintro id ⟨x, hx, rfl⟩
    by_cases hid : x.id = t.server.hub.nextChannel
    · exact ⟨_, (hmem _).mpr (Or.inl rfl), (c.id_advertise _).trans hid.symm⟩
    · exact ⟨x, (hmem x).mpr (Or.inr ⟨hx, hid⟩), rfl⟩
  refine ⟨hordered, ?_, ?_, ?_, ?_, ?_, ?_⟩
  · intro x hx
    rcases (hmem x).mp hx with rfl | ⟨hx, _⟩
    · exact ⟨c, by rwa [Channel.id_advertise], by rw [Channel.id_advertise]⟩
    · obtain ⟨b, hb, he⟩ := h.channels x hx
      exact ⟨b, hcreated ▸ List.mem_append_left _ hb, he⟩
  · intro x hx
    obtain rfl := Option.some.inj (hentered.symm.trans hx)
    exact ⟨c, by rwa [Channel.id_advertise], by rw [Channel.id_advertise]⟩
  · intro id b hb
    rw [hcreated] at hb
    rcases List.mem_append.mp hb with hb | hb
    · exact hkept id (h.created id b hb)
    · obtain ⟨rfl, rfl⟩ := Prod.mk.inj (List.mem_singleton.mp hb)
      exact ⟨_, (hmem _).mpr (Or.inl rfl), Channel.id_advertise _ _⟩
  · intro p hp id i payload hmessage
    exact hkept id (h.messages p (hpublished ▸ hp) id i payload hmessage)
  · rw [hcreated, List.map_append, List.length_append, h.next]
    exact numbers_concat h.numbers
  · rw [hhub, hcreated, List.length_append]
    have hsucc : t.server.hub.nextChannel + 1 = UInt32.ofNat (t.created.length + 1 + 1) := by
      rw [h.next, UInt32.ofNat_add (t.created.length + 1) 1]
      rfl
    exact hsucc

/-- Where no channel is entered, the hub keeps its channels, and what is published last is no
message or one that is logged in order. -/
theorem Registered.congr (h : Registered t)
    (hchannels : t'.server.hub.channels = t.server.hub.channels)
    (hnext : t'.server.hub.nextChannel = t.server.hub.nextChannel)
    (hcreated : t'.created = t.created)
    (hentered : ∀ x, t'.server.entered = some x → t.server.entered = some x)
    (hmessages : ∀ p ∈ t'.published, p ∈ t.published ∨ ∀ id i payload,
      p.content = .frame (.message id i payload) → ∃ c, (id, c) ∈ t.created) : Registered t' := by
  refine ⟨hchannels ▸ h.ordered, by rw [hchannels, hcreated]; exact h.channels, ?_,
    by rw [hchannels, hcreated]; exact h.created, ?_, hcreated ▸ h.numbers, ?_⟩
  · intro x hx
    rw [hcreated]
    exact h.entered x (hentered x hx)
  · intro p hp id i payload hmessage
    rw [hchannels]
    rcases hmessages p hp with hp | hp
    · exact h.messages p hp id i payload hmessage
    · obtain ⟨c, hc⟩ := hp id i payload hmessage
      exact h.created id c hc
  · rw [hnext, hcreated, h.next]

theorem Registered.unfolds (h : Registered t) (hu : Unfolds a t t') (ho : Orderly a t) :
    Registered t' := by
  have hold : ∀ {q : Posting}, t'.published = t.published ++ [q] →
      (∀ id i payload, q.content = .frame (.message id i payload) → ∃ c, (id, c) ∈ t.created) →
      ∀ p ∈ t'.published, p ∈ t.published ∨ ∀ id i payload,
        p.content = .frame (.message id i payload) → ∃ c, (id, c) ∈ t.created := by
    intro q hpublished hq p hp
    rw [hpublished] at hp
    rcases List.mem_append.mp hp with hp | hp
    · exact Or.inl hp
    · exact Or.inr (List.mem_singleton.mp hp ▸ hq)
  cases hu with
  | continues _ hhub hpublished hcreated hentered =>
    refine h.congr hhub.channels hhub.nextChannel hcreated (fun x hx => hentered ▸ hx) ?_
    rcases hhub.feed with hfeed | ⟨x, hx, hfeed⟩
    · rw [posted_of_feed_eq hfeed, List.append_nil] at hpublished
      exact fun p hp => Or.inl (hpublished ▸ hp)
    · rw [posted_of_push hfeed] at hpublished
      exact hold hpublished fun id i payload hmessage => absurd hmessage (hx.2 id i payload)
  | logs id payload i ha hhub hpublished hcreated hentered =>
    refine h.congr (hhub ▸ rfl) (hhub ▸ rfl) hcreated (fun x hx => hentered ▸ hx)
      (hold hpublished ?_)
    rintro _ _ _ hmessage
    cases hmessage
    exact Orderly.created (ha ▸ ho)
  | enters c _ _ hhub hpublished hcreated hentered =>
    exact h.enters hhub hpublished hcreated hentered
  | announces x _ _ hhub hpublished hcreated hentered =>
    refine h.congr (hhub ▸ rfl) (hhub ▸ rfl) hcreated (fun y hy => ?_) (hold hpublished nofun)
    rw [hentered] at hy
    cases hy

/-- A viewer that stays where it is while the hub goes on. -/
theorem Informed.extend (h : Informed t v) {ps : List Posting}
    (hpublished : t'.published = t.published ++ ps) (hcreated : t.created ⊆ t'.created)
    (hlists : ∀ id, Lists t'.created id t.server.hub.channels →
      Lists t'.created id t'.server.hub.channels)
    (hps : v.stage ≠ .gone → ∀ cs, (∀ id, Lists t.created id ((t.outlook v).flatMap
      Outgoing.advertised) → Lists t'.created id cs) →
      Introduced t'.created cs (ps.map Posting.content))
    (htold : v.stage ≠ .gone → ∀ x ∈ t'.server.hub.channels,
      (∀ y, t'.server.entered = some y → x.id ≠ y.id) →
      Lists t.created x.id ((t.outlook v).flatMap Outgoing.advertised) ∨
        Lists t'.created x.id ((ps.map Posting.content).flatMap Outgoing.advertised)) :
    Informed t' v := by
  have hsame : t'.outlook v =
      v.sent ++ v.ahead t'.server.hub ++ (t.published.drop v.place).map Posting.content ++
        ps.map Posting.content := by
    rw [outlook, hpublished, List.drop_append_of_le_length h.place_le, List.map_append,
      ← List.append_assoc]
  have hplace : v.place ≤ t'.published.length := by
    rw [hpublished, List.length_append]
    exact Nat.le_add_right_of_le h.place_le
  have hgrown : v.stage ≠ .gone →
      Introduced t'.created [] (v.sent ++ v.ahead t'.server.hub ++
        (t.published.drop v.place).map Posting.content) ∧
      ∀ id, Lists t.created id ((t.outlook v).flatMap Outgoing.advertised) →
        Lists t'.created id ((v.sent ++ v.ahead t'.server.hub ++
          (t.published.drop v.place).map Posting.content).flatMap Outgoing.advertised) := by
    intro hgone
    have hold : Introduced t'.created [] (t.outlook v) :=
      (h.introduced hgone).mono hcreated fun _ hid => hid.mono hcreated (List.Subset.refl _)
    obtain ⟨hnext, hmore⟩ := hold.ahead hlists
    exact ⟨hnext, fun id hid => hmore id (hid.mono hcreated (List.Subset.refl _))⟩
  refine ⟨hplace, ?_, ?_, ?_⟩
  · exact h.sent.mono hcreated fun _ hid => hid.mono hcreated (List.Subset.refl _)
  · intro hgone
    obtain ⟨hnext, hmore⟩ := hgrown hgone
    rw [hsame]
    exact introduced_append.mpr ⟨hnext, hps hgone _ hmore⟩
  · intro hgone x hx hne
    rw [hsame, List.flatMap_append, lists_append]
    exact (htold hgone x hx hne).imp_left ((hgrown hgone).2 x.id)

/-- What the hub goes through keeps every viewer informed. -/
theorem Informed.unfolds (h : Informed t v) (hr : Registered t) (hu : Unfolds a t t')
    (ho : Orderly a t) : Informed t' v := by
  cases hu with
  | continues _ hhub hpublished hcreated hentered =>
    refine h.extend hpublished (hcreated ▸ List.Subset.refl _) (by simp [hhub.channels]) ?_ ?_
    · intro _ cs _
      rcases hhub.feed with hfeed | ⟨x, hx, hfeed⟩
      · rw [posted_of_feed_eq hfeed]
        trivial
      · rw [posted_of_push hfeed]
        exact ⟨fun id i payload hmessage => absurd hmessage (hx.2 id i payload), trivial⟩
    · intro hgone x hx hne
      exact Or.inl (h.told hgone x (hhub.channels ▸ hx) (hentered ▸ hne))
  | logs id payload i ha hhub hpublished hcreated hentered =>
    subst ha
    have hnone := (ho id rfl).1
    obtain ⟨c, hc⟩ := ho.created
    have hchannels : t'.server.hub.channels = t.server.hub.channels := hhub ▸ rfl
    refine h.extend hpublished (hcreated ▸ List.Subset.refl _) (by simp [hchannels]) ?_ ?_
    · intro hgone cs hcs
      refine ⟨?_, trivial⟩
      rintro _ _ _ hmessage
      cases hmessage
      obtain ⟨x, hx, rfl⟩ := hr.created id c hc
      exact hcs x.id (h.told hgone x hx (by simp [hnone]))
    · intro hgone x hx _
      exact Or.inl (h.told hgone x (hchannels ▸ hx) (by simp [hnone]))
  | enters c _ hbefore hhub hpublished hcreated hentered =>
    have hmem := hr.mem_enters hhub
    have hsame : t'.published = t.published ++ [] := by simp [hpublished]
    refine h.extend hsame (by simp [hcreated]) ?_ ?_ ?_
    · rintro id ⟨b, hb, hin⟩
      by_cases hid : id = t.server.hub.nextChannel
      · exact ⟨c, by simp [hcreated, hid], (hmem _).mpr (Or.inl (hid ▸ rfl))⟩
      · exact ⟨b, hb, (hmem _).mpr (Or.inr ⟨hin, by rwa [Channel.id_advertise]⟩)⟩
    · exact fun _ _ _ => trivial
    · intro hgone x hx hne
      have hnew : x.id ≠ t.server.hub.nextChannel := by simpa using hne _ hentered
      rcases (hmem x).mp hx with rfl | ⟨hx, _⟩
      · exact absurd (c.id_advertise _) hnew
      · exact Or.inl (h.told hgone x hx (by simp [hbefore]))
  | announces x _ hbefore hhub hpublished hcreated hentered =>
    have hchannels : t'.server.hub.channels = t.server.hub.channels := hhub ▸ rfl
    refine h.extend hpublished (hcreated ▸ List.Subset.refl _) (by simp [hchannels]) ?_ ?_
    · exact fun _ cs _ => ⟨nofun, trivial⟩
    · intro hgone y hy _
      by_cases hid : y.id = x.id
      · obtain ⟨c, hc, he⟩ := hr.entered x hbefore
        refine Or.inr ⟨c, by rwa [hcreated, hid], ?_⟩
        rw [hid, ← he]
        exact List.mem_singleton_self _
      · refine Or.inl (h.told hgone y (hchannels ▸ hy) ?_)
        intro z hz
        obtain rfl := Option.some.inj (hbefore.symm.trans hz)
        exact hid

theorem Registered.unique (h : Registered t) (hlen : t.created.length ≤ UInt32.size)
    {id : ChannelId} {c c' : Channel} (hc : (id, c) ∈ t.created) (hc' : (id, c') ∈ t.created) :
    c' = c := by
  have hnodup : (t.created.map (·.1)).Nodup := by
    rw [h.numbers]
    refine (List.nodup_map_iff_inj_on List.nodup_range).mpr ?_
    intro i hi j hj hij
    rw [List.mem_range] at hi hj
    have hnat := congrArg UInt32.toNat hij
    have hsize : UInt32.size = 4294967296 := rfl
    simp only [UInt32.toNat_ofNat'] at hnat
    omega
  exact congrArg Prod.snd (List.inj_on_of_nodup_map hnodup hc' hc rfl)

/-- What holds along every orderly run. -/
structure Heralding (t : Chronicle ℓ) : Prop where
  sound : Sound t
  registered : Registered t
  informed : ∀ n v, t.server.viewer? n = some v → Informed t v

theorem heralding_start (info : ServerInfo) (capacity : Nat) (l : ℓ) :
    Heralding (start (Server.start info capacity l)) where
  sound := sound_start info capacity l
  registered := ⟨.nil, nofun, nofun, nofun, nofun, rfl, rfl⟩
  informed _ _ hv := absurd hv nofun

theorem Heralding.turn (h : Heralding t) (hu : Unfolds a t t') (hs : Stirs t t')
    (ho : Orderly a t) : Heralding t' := by
  refine ⟨h.sound.turn hu hs, h.registered.unfolds hu ho, ?_⟩
  intro n v' hv'
  have hinformed : Informed t v' := by
    cases hs.becomes hv' with
    | stays hv _ => exact h.informed n v' hv
    | arrives id _ he _ =>
      subst he
      exact h.registered.informed (Nat.zero_le _) trivial rfl
    | moves v ds hv hm _ => exact (h.informed n v hv).moves h.registered h.sound hm
  exact hinformed.unfolds h.registered hu ho

variable [Listener ℓ]

/-- The actions of a run are orderly. -/
def AllOrderly : Chronicle ℓ → List (World × Action) → Prop
  | _, [] => True
  | t, o :: os => Orderly o.2 t ∧ AllOrderly (t.step o.1 o.2) os

instance AllOrderly.decidable :
    (t : Chronicle ℓ) → (os : List (World × Action)) → Decidable (AllOrderly t os)
  | _, [] => isTrue trivial
  | t, o :: os =>
    have := AllOrderly.decidable (t.step o.1 o.2) os
    inferInstanceAs (Decidable (_ ∧ _))

theorem Heralding.run (h : Heralding t) (os : List (World × Action)) (ho : AllOrderly t os) :
    Heralding (t.run os) := by
  induction os generalizing t with
  | nil => exact h
  | cons o os ih => exact ih (h.turn (unfolds_step _ _ t) (stirs_step _ _ t) ho.1) ho.2

/-- Whatever the room of the feed, whenever a viewer connects, subscribes, unsubscribes, takes an
item or falls behind: a message on a channel is sent to it after the channel, as it was created. As
long as the ids last, no other channel was created under that id. -/
theorem channel_introduced_before_message (info : ServerInfo) (capacity : Nat) (l : ℓ)
    (os : List (World × Action)) (ho : AllOrderly (start (Server.start info capacity l)) os)
    {n : Nat} {v : Viewer} :
    let t := (start (Server.start info capacity l)).run os
    t.server.viewer? n = some v →
    ∀ before id i payload after, v.sent = before ++ .frame (.message id i payload) :: after →
    ∃ c, (id, c) ∈ t.created ∧ (∃ x ∈ before, c.advertise id ∈ x.advertised) ∧
      (t.created.length ≤ UInt32.size → ∀ c', (id, c') ∈ t.created → c' = c) := by
  intro t hv before id i payload after hsent
  have h : Heralding t := (heralding_start info capacity l).run os ho
  obtain ⟨c, hc, hbefore⟩ := (h.informed n v hv).sent.before hsent
  exact ⟨c, hc, hbefore, fun hlen c' hc' => h.registered.unique hlen hc hc'⟩

/-- A viewer subscribes to a channel that is not announced yet. What announces it is gone from the
feed, which holds one item, once a message is logged. -/
def guessedActions : List (World × Action) :=
  inStillWorld ([.connect] ++ List.replicate 7 (.proceed 0) ++
    [.enter ⟨"/a", "json", none⟩, .receive 0 sampleSubscribe, .announce, .log 1 [7] 5,
      .dequeue 0] ++
    List.replicate 4 (.proceed 0) ++ [.dequeue 0])

def guessedViewer : Viewer where
  id := 1
  stage := .live
  place := 2
  stopsSeen := 0
  subscriptions := [1]
  sent := [.message (.serverInfo sampleInfo),
    .message (.advertise [⟨1, "/a", "json", "", none, ""⟩]), .frame (.message 1 5 [7])]

theorem guessed_channel_introduced :
    AllOrderly (start (Server.start sampleInfo 1 Player.samplePlayer)) guessedActions ∧
    let t := (start (Server.start sampleInfo 1 Player.samplePlayer)).run guessedActions
    t.server.viewer? 0 = some guessedViewer ∧
    ∃ c, (1, c) ∈ t.created ∧ (∃ x ∈ guessedViewer.sent.take 2, c.advertise 1 ∈ x.advertised) ∧
      (t.created.length ≤ UInt32.size → ∀ c', (1, c') ∈ t.created → c' = c) := by
  have ho : AllOrderly (start (Server.start sampleInfo 1 Player.samplePlayer)) guessedActions := by
    decide +kernel
  have hv : ((start (Server.start sampleInfo 1 Player.samplePlayer)).run
      guessedActions).server.viewer? 0 = some guessedViewer := by decide +kernel
  exact ⟨ho, hv, channel_introduced_before_message sampleInfo 1 Player.samplePlayer guessedActions
    ho hv (guessedViewer.sent.take 2) 1 5 [7] [] rfl⟩

end Chronicle

end Replay
