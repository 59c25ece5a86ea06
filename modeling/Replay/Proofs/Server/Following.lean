import Replay.Proofs.Hub.Told
import Replay.Server

/-!
A viewer that follows a hub. What it was sent, with what it is about to be sent and its backlog in
the feed, ends with what the hub knows; where it has fallen behind, this comes true again as soon as
it is to be brought up to date.
-/

namespace Replay.Viewer

open Hub

/-- What a connection is about to send before it waits for the feed again, with the hub as it is. -/
def ahead (h : Hub) (v : Viewer) : List Outgoing :=
  match v.stage with
  | .arriving => catchUp h.channels h.lastState
  | .attached => catchUp h.channels h.lastState
  | .listening => catchUp h.channels h.lastState
  | .greeting => catchUp h.channels h.lastState
  | .lookingUpChannels => catchUp h.channels h.lastState
  | .lookingUpState channels => catchUp channels h.lastState
  | .catchingUp frames => frames
  | .live => []
  | .remembering _ => []
  | .announcing _ => []
  | .gone => []

variable {β : Type} {r : Reading β} {h h' : Hub} {v v' : Viewer}

/-- For a piece of what is told: nothing is said of what the hub does not know, and a viewer that
has not fallen behind is told in the end what the hub knows. -/
structure Follows (r : Reading β) (h : Hub) (v : Viewer) : Prop where
  place_le : v.place ≤ h.feed.sent
  none_told : r.knows h = none → r.last (v.sent ++ v.ahead h) = none
  current : h.feed.oldest ≤ v.place →
    r.last (v.sent ++ v.ahead h ++ (h.feed.backlog v.place).map Posting.content) = r.knows h

theorem Follows.restart (hn : h.Newest r) (hplace : v.place ≤ h.feed.sent)
    (hahead : v.ahead h = catchUp h.channels h.lastState)
    (hnone : r.knows h = none → r.last v.sent = none) : Follows r h v := by
  have hcatch : r.last (v.ahead h) = r.knows h := by
    rw [hahead]
    exact r.last_catchUp h.channels h.lastState
  refine ⟨hplace, ?_, ?_⟩
  · intro hk
    rw [r.last_append, hcatch, hk, hnone hk, Option.none_or]
  · intro _
    have hlog := hn.backlog v.place
    rw [r.last_append, r.last_append, hcatch]
    cases hk : r.knows h with
    | none =>
      rw [hnone hk, Option.none_or]
      exact hk ▸ hlog
    | some b =>
      rw [Option.some_or]
      exact hk ▸ hlog

theorem Follows.congr (hf : Follows r h v) (hplace : v'.place = v.place)
    (hsent : r.last (v'.sent ++ v'.ahead h) = r.last (v.sent ++ v.ahead h)) : Follows r h v' := by
  refine ⟨hplace ▸ hf.place_le, fun hk => hsent ▸ hf.none_told hk, ?_⟩
  intro hold
  have hlast := hf.current (hplace ▸ hold)
  rw [r.last_append] at hlast ⊢
  rw [hsent, hplace, hlast]

/-- What becomes of what is about to be sent when the hub tells something. -/
theorem last_ahead_tells {p : Posting}
    (hknows : r.knows h' = (r.said p.content).getLast?.or (r.knows h))
    (hknown : ∀ cs, r.known cs h'.lastState = r.known cs h.lastState ∨
      r.known cs h'.lastState = (r.said p.content).getLast?.or (r.known cs h.lastState))
    (v : Viewer) :
    r.last (v.ahead h') = r.last (v.ahead h) ∨
      r.last (v.ahead h') = (r.said p.content).getLast?.or (r.last (v.ahead h)) := by
  have hcatch : ∀ (k : Hub) (cs : List Advertised),
      r.last (catchUp cs k.lastState) = r.known cs k.lastState :=
    fun k cs => r.last_catchUp cs k.lastState
  have hall : r.last (catchUp h'.channels h'.lastState) =
      (r.said p.content).getLast?.or (r.last (catchUp h.channels h.lastState)) := by
    rw [hcatch, hcatch]
    exact hknows
  unfold ahead
  cases v.stage with
  | arriving => exact Or.inr hall
  | attached => exact Or.inr hall
  | listening => exact Or.inr hall
  | greeting => exact Or.inr hall
  | lookingUpChannels => exact Or.inr hall
  | lookingUpState channels => simpa only [hcatch] using hknown channels
  | catchingUp frames => exact Or.inl rfl
  | live => exact Or.inl rfl
  | remembering s => exact Or.inl rfl
  | announcing s => exact Or.inl rfl
  | gone => exact Or.inl rfl

theorem Follows.tells (hf : Follows r h v) (ho : Ordered h.channels) (ht : h.Tells h') :
    Follows r h' v := by
  rcases ht.known (r := r) ho with ⟨hfeed, hchannels, hlast⟩ | ⟨p, hfeed, hknows, hknown⟩
  · have hahead : v.ahead h' = v.ahead h := by simp only [ahead, hchannels, hlast]
    have hsame : r.knows h' = r.knows h := by simp only [Reading.knows, hchannels, hlast]
    exact ⟨hfeed ▸ hf.place_le, by rw [hsame, hahead]; exact hf.none_told,
      by rw [hfeed, hsame, hahead]; exact hf.current⟩
  · have hahead := last_ahead_tells hknows hknown v
    refine ⟨?_, ?_, ?_⟩
    · rw [hfeed, Feed.sent_push]
      exact Nat.le_succ_of_le hf.place_le
    · intro hk
      rw [hknows] at hk
      obtain ⟨hsaid, hbefore⟩ := Option.or_eq_none_iff.mp hk
      rw [hsaid, Option.none_or, or_self] at hahead
      rw [r.last_append, hahead, ← r.last_append]
      exact hf.none_told hbefore
    · intro hold
      rw [hfeed] at hold ⊢
      rw [Feed.backlog_push hf.place_le hold, List.map_append, List.map_singleton,
        ← List.append_assoc, r.last_append, r.last_singleton, hknows]
      cases hsaid : (r.said p.content).getLast? with
      | some b => rfl
      | none =>
        rw [hsaid] at hahead
        simp only [Option.none_or, or_self] at hahead ⊢
        rw [r.last_append, r.last_append, hahead, ← r.last_append, ← r.last_append]
        exact hf.current (Nat.le_trans (Feed.oldest_le_push p h.feed) hold)

theorem follows_arrive (hn : h.Newest r) (id : ClientId) : Follows r h (arrive id) :=
  .restart hn (Nat.zero_le _) rfl fun _ => rfl

theorem Follows.none_sent (hf : Follows r h v) (hk : r.knows h = none) : r.last v.sent = none := by
  have hnone := hf.none_told hk
  rw [r.last_append] at hnone
  exact (Option.or_eq_none_iff.mp hnone).2

/-- A step of its connection, but for an answer that is being published, leaves the hub as it is,
or ends the connection. -/
theorem Follows.proceed (hf : Follows r h v) (hn : h.Newest r)
    (hr : ∀ s, v.stage ≠ .remembering s) (ha : ∀ s, v.stage ≠ .announcing s)
    (hp : v.proceed h = some (h', v')) : h.Tells h' ∧ (v'.stage ≠ .gone → Follows r h' v') := by
  unfold Viewer.proceed at hp
  cases hstage : v.stage with
  | arriving =>
    simp only [hstage, Option.some.injEq, Prod.mk.injEq] at hp
    obtain ⟨rfl, rfl⟩ := hp
    exact ⟨.refl h, fun _ => .restart hn (Nat.le_refl _) rfl hf.none_sent⟩
  | attached =>
    simp only [hstage, Option.some.injEq, Prod.mk.injEq] at hp
    obtain ⟨rfl, rfl⟩ := hp
    exact ⟨.refl h, fun _ => hf.congr rfl (by simp only [ahead, hstage])⟩
  | listening =>
    simp only [hstage, Option.some.injEq] at hp
    split at hp <;> simp only [leave, Prod.mk.injEq] at hp <;> obtain ⟨rfl, rfl⟩ := hp
    · exact ⟨.nothing rfl rfl rfl, fun hgone => absurd rfl hgone⟩
    · exact ⟨.refl h, fun _ => hf.congr rfl (by simp only [ahead, hstage])⟩
  | greeting =>
    simp only [hstage, Option.some.injEq, Prod.mk.injEq] at hp
    obtain ⟨rfl, rfl⟩ := hp
    refine ⟨.refl h, fun _ => hf.congr rfl ?_⟩
    simp only [ahead, hstage, send]
    rw [r.last_append, r.last_send_of_nil (r.said_info h.info), ← r.last_append]
  | lookingUpChannels =>
    simp only [hstage, Option.some.injEq, Prod.mk.injEq] at hp
    obtain ⟨rfl, rfl⟩ := hp
    exact ⟨.refl h, fun _ => hf.congr rfl (by simp only [ahead, hstage])⟩
  | lookingUpState channels =>
    simp only [hstage, Option.some.injEq, Prod.mk.injEq] at hp
    obtain ⟨rfl, rfl⟩ := hp
    exact ⟨.refl h, fun _ => hf.congr rfl (by simp only [ahead, hstage])⟩
  | catchingUp frames =>
    cases frames with
    | nil =>
      simp only [hstage, Option.some.injEq, Prod.mk.injEq] at hp
      obtain ⟨rfl, rfl⟩ := hp
      exact ⟨.refl h, fun _ => hf.congr rfl (by simp only [ahead, hstage])⟩
    | cons x xs =>
      simp only [hstage, Option.some.injEq, Prod.mk.injEq] at hp
      obtain ⟨rfl, rfl⟩ := hp
      refine ⟨.refl h, fun _ => hf.congr rfl ?_⟩
      simp only [ahead, hstage, send, List.append_assoc, List.singleton_append]
  | live => simp [hstage] at hp
  | remembering s => exact absurd hstage (hr s)
  | announcing s => exact absurd hstage (ha s)
  | gone => simp [hstage] at hp

theorem Follows.dequeue (hf : Follows r h v) (hn : h.Newest r) (hframed : h.Framed)
    (hd : v.dequeue h = some v') : Follows r h v' := by
  unfold Viewer.dequeue at hd
  split at hd
  · rename_i hlive
    have hahead : v.ahead h = [] := by simp only [ahead, hlive]
    rcases h.feed.receive_cases v.place with ⟨_, hget⟩ | ⟨_, _, hget⟩ | ⟨hold, p, hlog, hget⟩
    · simp only [hget, Option.some.injEq] at hd
      subst hd
      exact .restart hn h.feed.oldest_le_sent rfl hf.none_sent
    · simp [hget] at hd
    · have hlt := Feed.place_lt_sent hold (hlog ▸ List.cons_ne_nil _ _)
      have hcurrent := hf.current hold
      rw [hahead, List.append_nil, hlog, List.map_cons, List.append_cons] at hcurrent
      -- all that follows depends on what the viewer was sent when the item is behind it
      have hnext : ∀ sent, r.last sent = r.last (v.sent ++ [p.content]) →
          Follows r h { v with sent, place := v.place + 1 } := by
        intro sent hsent
        have hahead' : ahead h { v with sent, place := v.place + 1 } = [] := by
          simp only [ahead, hlive]
        have htold : r.last (sent ++ (h.feed.backlog (v.place + 1)).map Posting.content) =
            r.knows h := by
          rw [← hcurrent, r.last_append, r.last_append, hsent]
        refine ⟨hlt, ?_, ?_⟩
        · intro hk
          rw [hk, r.last_append] at htold
          rw [hahead', List.append_nil]
          exact (Option.or_eq_none_iff.mp htold).2
        · intro _
          rw [hahead', List.append_nil]
          exact htold
      cases p with
      | everyone x =>
        simp only [hget, Option.some.injEq] at hd
        subst hd
        exact hnext _ rfl
      | subscribers id x =>
        have hmem : Posting.subscribers id x ∈ h.feed.recent :=
          List.mem_of_mem_drop (hlog ▸ List.mem_cons_self)
        obtain ⟨f, rfl⟩ := hframed id x hmem
        simp only [hget, Option.some.injEq] at hd
        split at hd <;> subst hd
        · exact hnext _ rfl
        · exact hnext _ (r.last_send_of_nil (r.said_frame f) v.sent).symm
  · cases hd

theorem Follows.warn (hf : Follows r h v) (text : String) : Follows r h (v.warn text) := by
  refine hf.congr rfl ?_
  have hahead : (v.warn text).ahead h = v.ahead h := rfl
  rw [hahead, Viewer.warn, send, r.last_append, r.last_send_of_nil (r.said_status _ _),
    ← r.last_append]

theorem Follows.subscribe (hf : Follows r h v) (ids : List ChannelId) :
    Follows r h (v.subscribe h ids) := by
  unfold Viewer.subscribe
  dsimp only
  split
  · exact hf.congr rfl rfl
  · refine Follows.warn ?_ _
    exact hf.congr rfl rfl

variable {ℓ : Type} [Listener ℓ]

theorem Follows.receive {w : World} {x : Incoming} {l l' : ℓ} (hf : Follows r h v)
    (hlive : v.stage = .live) (hr : v.receive w x h l = (h', v', l')) :
    h.Tells h' ∧ (v'.stage ≠ .gone → Follows r h' v') := by
  unfold Viewer.receive at hr
  split at hr
  · simp only [leave, Prod.mk.injEq] at hr
    obtain ⟨rfl, rfl, _⟩ := hr
    exact ⟨.nothing rfl rfl rfl, fun hgone => absurd rfl hgone⟩
  · simp only [Prod.mk.injEq] at hr
    obtain ⟨rfl, rfl, _⟩ := hr
    exact ⟨.refl h, fun _ => hf.warn _⟩
  · split at hr
    · simp only [Prod.mk.injEq] at hr
      obtain ⟨rfl, rfl, _⟩ := hr
      exact ⟨.refl h, fun _ => hf.warn _⟩
    · simp only [Prod.mk.injEq] at hr
      obtain ⟨rfl, rfl, _⟩ := hr
      exact ⟨.refl h, fun _ => hf.subscribe _⟩
    · simp only [Prod.mk.injEq] at hr
      obtain ⟨rfl, rfl, _⟩ := hr
      exact ⟨.refl h, fun _ => hf.congr rfl rfl⟩
    · split at hr <;> simp only [Prod.mk.injEq] at hr <;> obtain ⟨rfl, rfl, _⟩ := hr
      · exact ⟨.refl h, fun _ => hf.congr rfl (by simp only [ahead, hlive])⟩
      · exact ⟨.refl h, fun _ => hf⟩

theorem live_of_dequeue (hd : v.dequeue h = some v') : v.stage = .live := by
  apply Decidable.byContradiction
  intro hn
  simp [Viewer.dequeue, hn] at hd

/-- A live viewer with nothing left in the feed was told last what the hub knows. -/
theorem Follows.drained (hf : Follows r h v) (hlive : v.stage = .live)
    (hd : v.dequeue h = none) : r.last v.sent = r.knows h := by
  simp only [Viewer.dequeue, hlive, if_true] at hd
  rcases h.feed.receive_cases v.place with ⟨_, hget⟩ | ⟨hold, hlog, _⟩ | ⟨_, p, _, hget⟩
  · simp [hget] at hd
  · have hcurrent := hf.current hold
    simpa [ahead, hlive, hlog] using hcurrent
  · cases p <;> simp [hget] at hd

end Replay.Viewer
