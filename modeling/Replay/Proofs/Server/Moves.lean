import Replay.Proofs.Server.Following
import Replay.Proofs.Server.Whole

/-!
What a connection can do, said once, with a record of it: the deeds of the connection in their
order. Main statements: a step of a connection is one of its moves (`moves_proceed`), and so is what
comes of an item (`moves_dequeue`) and of what its viewer sends (`moves_receive`).
-/

namespace Replay

def Outgoing.NoMessage (x : Outgoing) : Prop := ∀ id t payload, x ≠ .frame (.message id t payload)

/-- Something that neither is a message on a channel nor tells a channel. -/
def Outgoing.Plain (x : Outgoing) : Prop := x.advertised = [] ∧ x.NoMessage

/-- What is sent of an item to a viewer with these subscriptions. -/
def Hub.Posting.forwarded (isSubscribed : ChannelId → Bool) : Hub.Posting → List Outgoing
  | .everyone x => [x]
  | .subscribers id x => if isSubscribed id then [x] else []

/-- Whether a viewer is subscribed to a channel after it has sent something, with these channels
advertised, if it `was` before. -/
def Incoming.subscribes (channels : List Advertised) (id : ChannelId) (was : Bool) :
    Incoming → Bool
  | .text t =>
    match ClientMessage.wire.parse t with
    | .ok (.subscribe ids) => was || (ids.contains id && channels.any (·.id == id))
    | .ok (.unsubscribe ids) => was && !ids.contains id
    | _ => was
  | _ => was

/-- What a hub goes through with no channel entered or announced and no message logged: nothing is
put into the feed, or one item that is plain. -/
structure Hub.Continues (h h' : Hub) : Prop where
  channels : h'.channels = h.channels
  topics : h'.topics = h.topics
  nextChannel : h'.nextChannel = h.nextChannel
  feed : h'.feed = h.feed ∨ ∃ x, Outgoing.Plain x ∧ h'.feed = h.feed.push (.everyone x)

theorem Hub.Continues.refl (h : Hub) : h.Continues h := ⟨rfl, rfl, rfl, Or.inl rfl⟩

theorem plain_state (x : State) : (Outgoing.message (.state x)).Plain := ⟨rfl, nofun⟩

theorem plain_info (info : ServerInfo) : (Outgoing.message (.serverInfo info)).Plain := ⟨rfl, nofun⟩

theorem plain_warning (text : String) : (Outgoing.message (.status .warning text)).Plain :=
  ⟨rfl, nofun⟩

theorem plain_time (t : Nanos) : (Outgoing.frame (.time t)).Plain := ⟨rfl, nofun⟩

theorem Hub.noMessage_catchUp (cs : List Advertised) (last : Option State) :
    ∀ x ∈ catchUp cs last, x.NoMessage := by
  intro x hx id t payload hmessage
  subst hmessage
  unfold catchUp at hx
  rcases List.mem_append.mp hx with hx | hx
  · split at hx <;> simp at hx
  · cases last <;> simp at hx

namespace Viewer

/-- What a connection does, with what it finds at the hub. -/
inductive Deed where
  /-- Takes its place in the feed, when so many items were put in. -/
  | attach (sent : Nat)
  | lookUp (channels : List Advertised)
  | lookUpState (last : Option State)
  /-- Sends something of its own: the greeting, what brings its viewer up to date, a warning. -/
  | tell (x : Outgoing)
  /-- Takes the item at a place off the feed, and sends what comes of it. -/
  | take (place : Nat) (xs : List Outgoing)
  /-- Learns that all from a place up to another is gone, when so many items were put in. -/
  | miss (place next sent : Nat)
  /-- Handles what its viewer has sent, with these channels advertised. -/
  | hear (x : Incoming) (channels : List Advertised)
  deriving DecidableEq

def Deed.sends : Deed → List Outgoing
  | .tell x => [x]
  | .take _ xs => xs
  | _ => []

/-- What an action adds to the deeds of a connection, which is at `v` before it and at `v'` after
it. -/
def deeds (h : Hub) (v v' : Viewer) : Server.Action → List Deed
  | .proceed _ =>
    match v.stage with
    | .arriving => [.attach h.feed.sent]
    | .lookingUpChannels => [.lookUp h.channels]
    | .lookingUpState _ => [.lookUpState h.lastState]
    | _ => (v'.sent.drop v.sent.length).map .tell
  | .dequeue _ =>
    if v'.stage = .live then [.take v.place (v'.sent.drop v.sent.length)]
    else [.miss v.place v'.place h.feed.sent]
  | .receive _ x => .hear x h.channels :: (v'.sent.drop v.sent.length).map .tell
  | _ => []

/-- Whether a connection has its viewer up to date: it goes on with the feed. -/
def Stage.isCurrent : Stage → Bool
  | .live => true
  | .remembering _ => true
  | .announcing _ => true
  | _ => false

/-- What a connection can do, with its deeds. -/
inductive Moves (h : Hub) (v : Viewer) : List Deed → Viewer → Prop where
  | attach (hv : v.stage = .arriving) :
      Moves h v [.attach h.feed.sent] { v with stage := .attached, place := h.feed.sent }
  | listen (stage : Stage) (stopsSeen : Nat)
      (hv : v.stage = .attached ∧ stage = .listening ∨ v.stage = .listening ∧ stage = .greeting) :
      Moves h v [] { v with stage, stopsSeen }
  | greet (info : ServerInfo) (hv : v.stage = .greeting) :
      Moves h v [.tell (.message (.serverInfo info))]
        { v with stage := .lookingUpChannels, sent := v.sent ++ [.message (.serverInfo info)] }
  | lookUp (hv : v.stage = .lookingUpChannels) :
      Moves h v [.lookUp h.channels] { v with stage := .lookingUpState h.channels }
  | lookUpState (channels : List Advertised) (hv : v.stage = .lookingUpState channels) :
      Moves h v [.lookUpState h.lastState]
        { v with stage := .catchingUp (Hub.catchUp channels h.lastState) }
  | tell (x : Outgoing) (xs : List Outgoing) (hv : v.stage = .catchingUp (x :: xs)) :
      Moves h v [.tell x] { v with stage := .catchingUp xs, sent := v.sent ++ [x] }
  | goOn (stage : Stage) (hv : v.stage = .catchingUp [] ∨ v.stage.isCurrent)
      (hs : stage.isCurrent) : Moves h v [] { v with stage }
  | take (p : Hub.Posting) (hv : v.stage = .live)
      (hp : h.feed.receive v.place = (.item p, v.place + 1)) :
      Moves h v [.take v.place (p.forwarded (· ∈ v.subscriptions))]
        { v with
          place := v.place + 1
          sent := v.sent ++ p.forwarded (· ∈ v.subscriptions) }
  | miss (hv : v.stage = .live) (hp : v.place < h.feed.oldest) :
      Moves h v [.miss v.place h.feed.oldest h.feed.sent]
        { v with stage := .lookingUpChannels, place := h.feed.oldest }
  | hear (x : Incoming) (stage : Stage) (subscriptions : List ChannelId) (replies : List Outgoing)
      (hv : v.stage = .live) (hs : stage.isCurrent ∨ stage = .gone)
      (hsubs : ∀ id, id ∈ subscriptions ↔
        x.subscribes h.channels id (decide (id ∈ v.subscriptions)))
      (hreplies : ∀ r ∈ replies, r.Plain) :
      Moves h v (.hear x h.channels :: replies.map .tell)
        { v with stage, subscriptions, sent := v.sent ++ replies }
  | leave : Moves h v [] { v with stage := .gone }

variable {h h' : Hub} {v v' : Viewer}

theorem moves_dequeue (hd : v.dequeue h = some v') (n : Nat) :
    Moves h v (deeds h v v' (.dequeue n)) v' := by
  have hlive := live_of_dequeue hd
  rw [dequeue, if_pos hlive] at hd
  rcases h.feed.receive_cases v.place with ⟨hold, hget⟩ | ⟨_, _, hget⟩ | ⟨_, p, _, hget⟩
  · simp only [hget, Option.some.injEq] at hd
    subst hd
    exact .miss hlive hold
  · simp [hget] at hd
  · have hv' : v' = { v with
        place := v.place + 1
        sent := v.sent ++ p.forwarded (· ∈ v.subscriptions) } := by
      cases p with
      | everyone x =>
        simp only [hget, Option.some.injEq] at hd
        exact hd.symm
      | subscribers id x =>
        simp only [hget, Option.some.injEq] at hd
        by_cases hid : id ∈ v.subscriptions
        · simp [← hd, hid, send, Hub.Posting.forwarded]
        · simp [← hd, hid, Hub.Posting.forwarded]
    subst hv'
    simpa [deeds, hlive] using Moves.take p hlive hget

/-- A step of a connection is a move of it. -/
theorem moves_proceed (hp : v.proceed h = some (h', v')) (n : Nat) :
    Moves h v (deeds h v v' (.proceed n)) v' ∧ h.Continues h' := by
  obtain ⟨id, stage, place, stopsSeen, subscriptions, sent⟩ := v
  unfold proceed at hp
  cases stage with
  | arriving =>
    obtain ⟨rfl, rfl⟩ := Prod.mk.inj (Option.some.inj hp)
    exact ⟨.attach rfl, .refl h⟩
  | attached =>
    obtain ⟨rfl, rfl⟩ := Prod.mk.inj (Option.some.inj hp)
    exact ⟨by simpa [deeds] using Moves.listen _ h.stops (Or.inl ⟨rfl, rfl⟩), .refl h⟩
  | listening =>
    simp only [Option.some.injEq] at hp
    split at hp <;> simp only [Viewer.leave, Prod.mk.injEq] at hp <;> obtain ⟨rfl, rfl⟩ := hp
    · exact ⟨by simpa [deeds] using Moves.leave, ⟨rfl, rfl, rfl, Or.inl rfl⟩⟩
    · exact ⟨by simpa [deeds] using Moves.listen _ _ (Or.inr ⟨rfl, rfl⟩), .refl h⟩
  | greeting =>
    obtain ⟨rfl, rfl⟩ := Prod.mk.inj (Option.some.inj hp)
    exact ⟨by simpa [deeds, send] using Moves.greet h.info rfl, .refl h⟩
  | lookingUpChannels =>
    obtain ⟨rfl, rfl⟩ := Prod.mk.inj (Option.some.inj hp)
    exact ⟨.lookUp rfl, .refl h⟩
  | lookingUpState channels =>
    obtain ⟨rfl, rfl⟩ := Prod.mk.inj (Option.some.inj hp)
    exact ⟨.lookUpState channels rfl, .refl h⟩
  | catchingUp frames =>
    cases frames with
    | nil =>
      obtain ⟨rfl, rfl⟩ := Prod.mk.inj (Option.some.inj hp)
      exact ⟨by simpa [deeds] using Moves.goOn .live (Or.inl rfl) rfl, .refl h⟩
    | cons x xs =>
      obtain ⟨rfl, rfl⟩ := Prod.mk.inj (Option.some.inj hp)
      exact ⟨by simpa [deeds, send] using Moves.tell x xs rfl, .refl h⟩
  | live => cases hp
  | remembering s =>
    obtain ⟨rfl, rfl⟩ := Prod.mk.inj (Option.some.inj hp)
    exact ⟨by simpa [deeds] using Moves.goOn (.announcing s) (Or.inr rfl) rfl,
      ⟨rfl, rfl, rfl, Or.inl rfl⟩⟩
  | announcing s =>
    obtain ⟨rfl, rfl⟩ := Prod.mk.inj (Option.some.inj hp)
    exact ⟨by simpa [deeds] using Moves.goOn .live (Or.inr rfl) rfl,
      ⟨rfl, rfl, rfl, Or.inr ⟨_, plain_state s, rfl⟩⟩⟩
  | gone => cases hp

theorem mem_foldl_add (ids all : List ChannelId) (id : ChannelId) :
    id ∈ ids.foldl (fun all id => if id ∈ all then all else all ++ [id]) all ↔
      id ∈ all ∨ id ∈ ids := by
  induction ids generalizing all with
  | nil => simp
  | cons i ids ih =>
    rw [List.foldl_cons, ih, List.mem_cons]
    split
    · rename_i hi
      constructor
      · exact fun hm => hm.imp_right Or.inr
      · rintro (hm | rfl | hm)
        · exact Or.inl hm
        · exact Or.inl hi
        · exact Or.inr hm
    · rw [List.mem_append, List.mem_singleton, or_assoc]

theorem mem_subscribe (ids : List ChannelId) (id : ChannelId) :
    id ∈ (v.subscribe h ids).subscriptions ↔
      id ∈ v.subscriptions ∨ id ∈ ids ∧ h.isAdvertised id = true := by
  have hall : (v.subscribe h ids).subscriptions = (ids.filter h.isAdvertised).foldl
      (fun all id => if id ∈ all then all else all ++ [id]) v.subscriptions := by
    unfold subscribe
    dsimp only
    split <;> rfl
  rw [hall, mem_foldl_add, List.mem_filter]

/-- Nothing is sent at once for a subscription but a warning of unknown channels. -/
theorem subscribe_eq (ids : List ChannelId) : ∃ replies : List Outgoing,
    (∀ r ∈ replies, r.Plain) ∧ v.subscribe h ids =
      { v with
        subscriptions := (v.subscribe h ids).subscriptions
        sent := v.sent ++ replies } := by
  unfold subscribe
  dsimp only
  split
  · exact ⟨[], nofun, by simp⟩
  · refine ⟨[_], ?_, rfl⟩
    intro r hr
    obtain rfl := List.mem_singleton.mp hr
    exact plain_warning _

variable {ℓ : Type} [Listener ℓ] {l l' : ℓ}

/-- What a viewer sends is heard, and what may come of it at once are warnings. -/
theorem moves_receive {w : World} {x : Incoming} (hlive : v.stage = .live)
    (hr : v.receive w x h l = (h', v', l')) (n : Nat) :
    Moves h v (deeds h v v' (.receive n x)) v' ∧ h.Continues h' := by
  have hheard : ∀ stage subscriptions replies, stage.isCurrent ∨ stage = Stage.gone →
      (∀ id, id ∈ subscriptions ↔ x.subscribes h.channels id (decide (id ∈ v.subscriptions))) →
      (∀ r ∈ replies, r.Plain) →
      v' = { v with stage, subscriptions, sent := v.sent ++ replies } →
      Moves h v (deeds h v v' (.receive n x)) v' := by
    rintro stage subscriptions replies hs hsubs hreplies rfl
    simpa [deeds] using Moves.hear x stage subscriptions replies hlive hs hsubs hreplies
  have hwarned : ∀ text, v' = v.warn text →
      (∀ id, x.subscribes h.channels id (decide (id ∈ v.subscriptions)) =
        decide (id ∈ v.subscriptions)) →
      Moves h v (deeds h v v' (.receive n x)) v' := by
    intro text hv hsame
    refine hheard v.stage v.subscriptions [.message (.status .warning text)]
      (Or.inl (by rw [hlive]; rfl)) (fun id => by simp [hsame id]) ?_ hv
    intro r hr
    obtain rfl := List.mem_singleton.mp hr
    exact plain_warning text
  unfold receive at hr
  split at hr
  · simp only [leave, Prod.mk.injEq] at hr
    obtain ⟨rfl, rfl, _⟩ := hr
    exact ⟨hheard .gone v.subscriptions [] (Or.inr rfl) (fun id => by simp [Incoming.subscribes])
      (List.forall_mem_nil _) (by simp), ⟨rfl, rfl, rfl, Or.inl rfl⟩⟩
  · simp only [Prod.mk.injEq] at hr
    obtain ⟨rfl, rfl, _⟩ := hr
    exact ⟨hwarned _ rfl fun _ => rfl, .refl _⟩
  · rename_i t
    split at hr
    · rename_i e hparse
      simp only [Prod.mk.injEq] at hr
      obtain ⟨rfl, rfl, _⟩ := hr
      exact ⟨hwarned _ rfl fun _ => by simp [Incoming.subscribes, hparse], .refl _⟩
    · rename_i ids hparse
      simp only [Prod.mk.injEq] at hr
      obtain ⟨rfl, rfl, _⟩ := hr
      obtain ⟨replies, hreplies, heq⟩ := subscribe_eq (h := h) (v := v) ids
      refine ⟨hheard v.stage _ replies (Or.inl (by rw [hlive]; rfl)) ?_ hreplies heq, .refl _⟩
      intro id
      rw [mem_subscribe]
      simp [Incoming.subscribes, hparse, Hub.isAdvertised]
    · rename_i ids hparse
      simp only [Prod.mk.injEq] at hr
      obtain ⟨rfl, rfl, _⟩ := hr
      refine ⟨hheard v.stage (v.subscriptions.filter (· ∉ ids)) [] (Or.inl (by rw [hlive]; rfl)) ?_
        (List.forall_mem_nil _) (by simp [unsubscribe]), .refl _⟩
      intro id
      simp [Incoming.subscribes, hparse]
    · rename_i r hparse
      have hsame : ∀ id, id ∈ v.subscriptions ↔
          Incoming.subscribes h.channels id (decide (id ∈ v.subscriptions)) (.text t) := by
        intro id
        simp [Incoming.subscribes, hparse]
      split at hr <;> simp only [Prod.mk.injEq] at hr <;> obtain ⟨rfl, rfl, _⟩ := hr
      · rename_i state _ _ _
        exact ⟨hheard (.remembering state) v.subscriptions [] (Or.inl rfl) hsame
          (List.forall_mem_nil _) (by simp), .refl _⟩
      · exact ⟨hheard v.stage v.subscriptions [] (Or.inl (by rw [hlive]; rfl)) hsame
          (List.forall_mem_nil _) (by simp), .refl _⟩

end Viewer

end Replay
