import Replay.Proofs.Hub.Backlog
import Replay.Proofs.Hub.Channels

/-!
What a hub tells, read one piece at a time: the state, or the channel under an id. For a piece, what
was told last is what the hub knows, wherever a reader of the feed begins (`Newest.backlog`).
-/

namespace Replay

def Outgoing.advertised : Outgoing → List Advertised
  | .message (.advertise channels) => channels
  | _ => []

def Outgoing.states : Outgoing → List State
  | .message (.state s) => [s]
  | _ => []

namespace Hub

def Posting.content : Posting → Outgoing
  | .everyone x => x
  | .subscribers _ x => x

/-- A piece of what is told: what a message says of it, and what a hub with these channels and this
state knows of it. The greeting, warnings and frames say nothing of it. -/
structure Reading (β : Type) where
  said : Outgoing → List β
  known : List Advertised → Option State → Option β
  said_frame : ∀ f, said (.frame f) = []
  said_info : ∀ info, said (.message (.serverInfo info)) = []
  said_status : ∀ severity text, said (.message (.status severity text)) = []
  known_state : ∀ cs last x,
    known cs (some x) = (said (.message (.state x))).getLast?.or (known cs last)
  known_insert : ∀ cs last a, Ordered cs →
    known (insertChannel a cs) last =
      (said (.message (.advertise [a]))).getLast?.or (known cs last)
  last_catchUp : ∀ cs last, ((catchUp cs last).flatMap said).getLast? = known cs last

namespace Reading

def state : Reading State where
  said := Outgoing.states
  known _ last := last
  said_frame _ := rfl
  said_info _ := rfl
  said_status _ _ := rfl
  known_state _ _ _ := rfl
  known_insert _ _ _ _ := rfl
  last_catchUp cs last := by
    unfold catchUp
    split <;> cases last <;> rfl

def channel (id : ChannelId) : Reading Advertised where
  said x := x.advertised.filter (·.id == id)
  known cs _ := withId? id cs
  said_frame _ := rfl
  said_info _ := rfl
  said_status _ _ := rfl
  known_state _ _ _ := rfl
  known_insert _ _ a h := h.withId_insert id a
  last_catchUp cs last := by
    unfold catchUp
    by_cases hcs : cs = []
    · subst hcs
      cases last <;> rfl
    · cases last <;> simp [hcs, Outgoing.advertised, withId?]

variable {β : Type} (r : Reading β)

def last (xs : List Outgoing) : Option β := (xs.flatMap r.said).getLast?

def knows (h : Hub) : Option β := r.known h.channels h.lastState

theorem last_append (xs ys : List Outgoing) : r.last (xs ++ ys) = (r.last ys).or (r.last xs) := by
  simp only [last, List.flatMap_append, List.getLast?_append]

theorem last_singleton (x : Outgoing) : r.last [x] = (r.said x).getLast? := by
  simp only [last, List.flatMap_singleton]

theorem last_send_of_nil {x : Outgoing} (h : r.said x = []) (xs : List Outgoing) :
    r.last (xs ++ [x]) = r.last xs := by
  rw [last_append, last_singleton, h, List.getLast?_nil, Option.none_or]

end Reading

/-- What can happen to a hub as a whole: nothing is told; a frame is; a state is remembered and
told; a channel is entered and told. -/
inductive Tells (h h' : Hub) : Prop where
  | nothing (hfeed : h'.feed = h.feed) (hchannels : h'.channels = h.channels)
      (hlast : h'.lastState = h.lastState)
  | frame (p : Posting) (f : Frame) (hp : p.content = .frame f) (hfeed : h'.feed = h.feed.push p)
      (hchannels : h'.channels = h.channels) (hlast : h'.lastState = h.lastState)
  | state (x : State) (hfeed : h'.feed = h.feed.push (.everyone (.message (.state x))))
      (hchannels : h'.channels = h.channels) (hlast : h'.lastState = some x)
  | channel (a : Advertised)
      (hfeed : h'.feed = h.feed.push (.everyone (.message (.advertise [a]))))
      (hchannels : h'.channels = insertChannel a h.channels) (hlast : h'.lastState = h.lastState)

theorem Tells.refl (h : Hub) : h.Tells h := .nothing rfl rfl rfl

theorem tells_addChannel (c : Channel) (h : Hub) : h.Tells (h.addChannel c).2 := by
  unfold addChannel
  split
  · exact .refl h
  · exact .channel (c.advertise h.nextChannel) rfl rfl rfl

theorem Tells.ordered {h h' : Hub} (ht : h.Tells h') (ho : Ordered h.channels) :
    Ordered h'.channels := by
  cases ht with
  | nothing _ hchannels _ => exact hchannels ▸ ho
  | frame _ _ _ _ hchannels _ => exact hchannels ▸ ho
  | state _ _ hchannels _ => exact hchannels ▸ ho
  | channel a _ hchannels _ => exact hchannels ▸ ho.insert a

/-- Postings for the subscribers of a channel are frames. -/
def Framed (h : Hub) : Prop := ∀ id x, .subscribers id x ∈ h.feed.recent → ∃ f, x = .frame f

theorem mem_recent_push {α : Type} {f : Feed α} {a b : α} (h : b ∈ (f.push a).recent) :
    b ∈ f.recent ∨ b = a := by
  rw [Feed.recent_push] at h
  simpa using List.mem_of_mem_drop h

theorem Tells.framed {h h' : Hub} (ht : h.Tells h') (hf : h.Framed) : h'.Framed := by
  intro id x hx
  cases ht with
  | nothing hfeed _ _ => exact hf id x (hfeed ▸ hx)
  | frame p f hp hfeed _ _ =>
    rcases mem_recent_push (hfeed ▸ hx) with hx | hx
    · exact hf id x hx
    · subst hx
      exact ⟨f, hp⟩
  | state _ hfeed _ _ =>
    rcases mem_recent_push (hfeed ▸ hx) with hx | hx
    · exact hf id x hx
    · cases hx
  | channel _ hfeed _ _ =>
    rcases mem_recent_push (hfeed ▸ hx) with hx | hx
    · exact hf id x hx
    · cases hx

variable {β : Type} {r : Reading β}

/-- For a piece of what is told: what the hub knows of it after `p` is what `p` says, or else what
it knew before. This holds of what a viewer is yet to be told at a lookup of the state as well. -/
theorem Tells.known {h h' : Hub} (ht : h.Tells h') (ho : Ordered h.channels) :
    (h'.feed = h.feed ∧ h'.channels = h.channels ∧ h'.lastState = h.lastState) ∨
    ∃ p, h'.feed = h.feed.push p ∧
      r.knows h' = (r.said p.content).getLast?.or (r.knows h) ∧
      ∀ cs, r.known cs h'.lastState = r.known cs h.lastState ∨
        r.known cs h'.lastState = (r.said p.content).getLast?.or (r.known cs h.lastState) := by
  cases ht with
  | nothing hfeed hchannels hlast => exact Or.inl ⟨hfeed, hchannels, hlast⟩
  | frame p f hp hfeed hchannels hlast =>
    refine Or.inr ⟨p, hfeed, ?_, fun cs => Or.inl (hlast ▸ rfl)⟩
    rw [hp, r.said_frame, List.getLast?_nil, Option.none_or, Reading.knows, hchannels, hlast]
    rfl
  | state x hfeed hchannels hlast =>
    refine Or.inr ⟨_, hfeed, ?_, fun cs => Or.inr ?_⟩
    · rw [Reading.knows, hchannels, hlast]
      exact r.known_state h.channels h.lastState x
    · rw [hlast]
      exact r.known_state cs h.lastState x
  | channel a hfeed hchannels hlast =>
    refine Or.inr ⟨_, hfeed, ?_, fun cs => Or.inl (hlast ▸ rfl)⟩
    rw [Reading.knows, hchannels, hlast]
    exact r.known_insert h.channels h.lastState a ho

/-- What is kept in the feed does not say anything newer than what the hub knows, nor is its last
word older. -/
def Newest (r : Reading β) (h : Hub) : Prop :=
  (r.last (h.feed.recent.map Posting.content)).or (r.knows h) = r.knows h

theorem or_eq_of_or_or_eq {a b k : Option β} (h : (a.or b).or k = k) : a.or k = k := by
  cases a with
  | none => rfl
  | some a => exact h

theorem Newest.tells {h h' : Hub} (hn : h.Newest r) (ho : Ordered h.channels)
    (ht : h.Tells h') : h'.Newest r := by
  rcases ht.known (r := r) ho with ⟨hfeed, hchannels, hlast⟩ | ⟨p, hfeed, hknows, _⟩
  · simpa only [Newest, Reading.knows, hfeed, hchannels, hlast] using hn
  · have hall : (r.last ((h.feed.recent ++ [p]).map Posting.content)).or (r.knows h') =
        r.knows h' := by
      rw [List.map_append, r.last_append, List.map_singleton, r.last_singleton, hknows]
      cases (r.said p.content).getLast? with
      | none => exact hn
      | some b => rfl
    -- what is left of the items after the oldest are dropped ends as they did
    rw [← List.take_append_drop (h.feed.recent.length + 1 - h.feed.room) (h.feed.recent ++ [p]),
      List.map_append, r.last_append] at hall
    rw [Newest, hfeed, Feed.recent_push]
    exact or_eq_of_or_or_eq hall

/-- Wherever a reader begins, its backlog says nothing that is older than what the hub knows. -/
theorem Newest.backlog {h : Hub} (hn : h.Newest r) (place : Nat) :
    (r.last ((h.feed.backlog place).map Posting.content)).or (r.knows h) = r.knows h := by
  rw [Newest, ← List.take_append_drop (place - h.feed.oldest) h.feed.recent, List.map_append,
    r.last_append] at hn
  exact or_eq_of_or_or_eq hn

end Hub

end Replay
