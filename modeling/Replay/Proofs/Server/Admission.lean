import Mathlib.Data.List.Nodup
import Mathlib.Data.List.Perm.Basic
import Replay.Proofs.Server.Moves

/-!
Who is there. A connection is accepted, registers under its id, and takes its id off the list when
it ends; it may register when the server is stopped already. Each event lets one connection register,
go on or leave at most (`change_step`), and the list is right throughout exactly if no id is given
to a connection while another has it (`counts_right_iff`), as is so for the first 2^32 connections
(`distinct_of_few`).
-/

namespace Replay

namespace Hub

variable (h : Hub)

/-- Gives a connection its id. -/
def reserve : Hub := { h with nextClient := h.nextClient + 1 }

/-- Puts a connection on the list. -/
def enlist (id : ClientId) : Hub :=
  { h with clients := if id ∈ h.clients then h.clients else h.clients ++ [id] }

theorem enterClient_eq : h.enterClient = (h.nextClient, h.reserve.enlist h.nextClient) := rfl

/-- Nobody comes, and no signal is given. -/
structure Keeps (h h' : Hub) : Prop where
  stops : h'.stops = h.stops
  nextClient : h'.nextClient = h.nextClient

end Hub

namespace Viewer

/-- Whether the connection goes on although it has looked for the signal to stop. -/
def Stage.isServing : Stage → Bool
  | .arriving | .attached | .listening | .gone => false
  | _ => true

/-- A connection that goes on, while the signal has come so often. It looks for the signal once
before it serves its viewer. -/
inductive Goes (stops : Nat) (v v' : Viewer) : Prop where
  | attaches (hv : v.stage = .arriving) (hv' : v'.stage = .attached)
      (hseen : v'.stopsSeen = v.stopsSeen) (hsent : v'.sent = v.sent)
  | listens (hv : v.stage = .attached) (hv' : v'.stage = .listening) (hseen : v'.stopsSeen = stops)
      (hsent : v'.sent = v.sent)
  | passes (hv : v.stage = .listening) (hstops : stops = 0) (hv' : v'.stage.isServing = true)
      (hseen : v'.stopsSeen = v.stopsSeen)
  | serves (hv : v.stage.isServing = true) (hv' : v'.stage.isServing = true)
      (hseen : v'.stopsSeen = v.stopsSeen)

/-- A connection that ends. Before it serves its viewer it has nothing to send for that. -/
structure Leaves (v v' : Viewer) : Prop where
  before : v.isGone = false
  after : v'.isGone = true
  sent : v.stage.isServing = false → v'.sent = v.sent

variable {h h' : Hub} {v v' : Viewer}

theorem not_gone_of_isServing (hv : v.stage.isServing = true) : v.isGone = false := by
  unfold isGone
  cases hstage : v.stage <;> simp_all [Stage.isServing]

theorem Goes.not_gone {stops : Nat} (hg : Goes stops v v') :
    v.isGone = false ∧ v'.isGone = false := by
  cases hg with
  | attaches hv hv' => simp [isGone, hv, hv']
  | listens hv hv' => simp [isGone, hv, hv']
  | passes hv _ hv' => exact ⟨by simp [isGone, hv], not_gone_of_isServing hv'⟩
  | serves hv hv' => exact ⟨not_gone_of_isServing hv, not_gone_of_isServing hv'⟩

/-- What an own step or a frame of a viewer does to its connection and to the list. -/
inductive Turns (h : Hub) (v : Viewer) (h' : Hub) (v' : Viewer) : Prop where
  | goes (hg : Goes h.stops v v') (hid : v'.id = v.id) (hkeeps : h.Keeps h')
      (hclients : h'.clients = h.clients)
  | leaves (hl : Leaves v v') (hid : v'.id = v.id) (hkeeps : h.Keeps h')
      (hclients : h'.clients = (h.removeClient v.id).clients)

theorem Turns.id (ht : Turns h v h' v') : v'.id = v.id := by
  cases ht with
  | goes _ hid | leaves _ hid => exact hid

theorem Turns.keeps (ht : Turns h v h' v') : h.Keeps h' := by
  cases ht with
  | goes _ _ hkeeps | leaves _ _ hkeeps => exact hkeeps

theorem turns_leave (h : Hub) (hv : v.isGone = false) : Turns h v (v.leave h).1 (v.leave h).2 :=
  .leaves ⟨hv, rfl, fun _ => rfl⟩ rfl ⟨rfl, rfl⟩ rfl

theorem turns_proceed (hp : v.proceed h = some (h', v')) : Turns h v h' v' := by
  obtain ⟨id, stage, place, stopsSeen, subscriptions, sent⟩ := v
  unfold proceed at hp
  cases stage with
  | arriving =>
    obtain ⟨rfl, rfl⟩ := Prod.mk.inj (Option.some.inj hp)
    exact .goes (.attaches rfl rfl rfl rfl) rfl ⟨rfl, rfl⟩ rfl
  | attached =>
    obtain ⟨rfl, rfl⟩ := Prod.mk.inj (Option.some.inj hp)
    exact .goes (.listens rfl rfl rfl rfl) rfl ⟨rfl, rfl⟩ rfl
  | listening =>
    simp only [Option.some.injEq] at hp
    split at hp <;> obtain ⟨rfl, rfl⟩ := Prod.mk.inj hp
    · exact turns_leave h rfl
    · rename_i hstops
      have hzero : h.stops = 0 := by simpa [Hub.isStopped] using hstops
      exact .goes (.passes rfl hzero rfl rfl) rfl ⟨rfl, rfl⟩ rfl
  | catchingUp frames =>
    cases frames with
    | nil =>
      obtain ⟨rfl, rfl⟩ := Prod.mk.inj (Option.some.inj hp)
      exact .goes (.serves rfl rfl rfl) rfl ⟨rfl, rfl⟩ rfl
    | cons x xs =>
      obtain ⟨rfl, rfl⟩ := Prod.mk.inj (Option.some.inj hp)
      exact .goes (.serves rfl rfl rfl) rfl ⟨rfl, rfl⟩ rfl
  | greeting | lookingUpChannels | lookingUpState channels | remembering x | announcing x =>
    obtain ⟨rfl, rfl⟩ := Prod.mk.inj (Option.some.inj hp)
    exact .goes (.serves rfl rfl rfl) rfl ⟨rfl, rfl⟩ rfl
  | live | gone => cases hp

/-- A live connection goes on serving its viewer. -/
theorem turns_live (hlive : v.stage = .live) (hv' : v'.stage.isServing = true) (hid : v'.id = v.id)
    (hseen : v'.stopsSeen = v.stopsSeen) : Turns h v h v' :=
  .goes (.serves (by rw [hlive]; rfl) hv' hseen) hid ⟨rfl, rfl⟩ rfl

theorem turns_dequeue (hd : v.dequeue h = some v') : Turns h v h v' := by
  have hlive := live_of_dequeue hd
  have hserving : v.stage.isServing = true := by rw [hlive]; rfl
  rw [dequeue, if_pos hlive] at hd
  split at hd
  · cases hd
  · obtain rfl := Option.some.inj hd
    exact turns_live hlive hserving rfl rfl
  · obtain rfl := Option.some.inj hd
    split <;> exact turns_live hlive hserving rfl rfl
  · obtain rfl := Option.some.inj hd
    exact turns_live hlive rfl rfl rfl

theorem turns_receive {ℓ : Type} [Listener ℓ] {w : World} {x : Incoming} {l l' : ℓ}
    (hlive : v.stage = .live) (hr : v.receive w x h l = (h', v', l')) : Turns h v h' v' := by
  have hserving : v.stage.isServing = true := by rw [hlive]; rfl
  unfold receive at hr
  split at hr
  · obtain ⟨rfl, rfl, -⟩ := hr
    exact turns_leave h (not_gone_of_isServing hserving)
  · obtain ⟨rfl, rfl, -⟩ := hr
    exact turns_live hlive hserving rfl rfl
  · split at hr
    · obtain ⟨rfl, rfl, -⟩ := hr
      exact turns_live hlive hserving rfl rfl
    · rename_i ids _
      obtain ⟨rfl, rfl, -⟩ := hr
      obtain ⟨replies, -, heq⟩ := subscribe_eq (h := h) (v := v) ids
      rw [heq]
      exact turns_live hlive hserving rfl rfl
    · obtain ⟨rfl, rfl, -⟩ := hr
      exact turns_live hlive hserving rfl rfl
    · split at hr <;> obtain ⟨rfl, rfl, -⟩ := hr
      · exact turns_live hlive rfl rfl rfl
      · exact turns_live hlive hserving rfl rfl

end Viewer

/-- A server with the connections that are accepted and have not registered. -/
structure Reception (ℓ : Type) where
  server : Server ℓ
  accepted : List ClientId

namespace Reception

inductive Event (ℓ : Type) where
  | accept
  | register (k : Nat)
  | act (w : World) (a : Server.Action)
  /-- The listener changes by itself. -/
  | listen (l : ℓ)

variable {ℓ : Type} {e : Event ℓ} {r r' : Reception ℓ} {n : Nat}

/-- Whether an event may give an id to a connection. -/
def Event.givesId : Event ℓ → Bool
  | .accept => true
  | .act _ .connect => true
  | _ => false

def start (info : ServerInfo) (capacity : Nat) (l : ℓ) : Reception ℓ :=
  ⟨.start info capacity l, []⟩

/-- A connection begins under its id. -/
def enter (id : ClientId) (s : Server ℓ) : Server ℓ :=
  { s with hub := s.hub.enlist id, viewers := s.viewers ++ [.arrive id] }

/-- The connections that have registered and have not ended. -/
def present (r : Reception ℓ) : List Viewer := r.server.viewers.filter (!·.isGone)

/-- The id under which an event lets a connection register. -/
def registering? (e : Event ℓ) (r : Reception ℓ) : Option ClientId :=
  match e with
  | .register k => r.accepted[k]?
  | .act _ .connect => if r.server.hub.isStopped then none else some r.server.hub.nextClient
  | _ => none

/-- What an event changes for the connections and on the list. -/
inductive Change (e : Event ℓ) (r r' : Reception ℓ) : Prop where
  | rests (hid : registering? e r = none) (hviewers : r'.server.viewers = r.server.viewers)
      (haccepted : r'.accepted = r.accepted)
      (hclients : r'.server.hub.clients = r.server.hub.clients)
      (hnext : r'.server.hub.nextClient = r.server.hub.nextClient)
      (hstops : r.server.hub.stops ≤ r'.server.hub.stops)
  | accepts (hid : registering? e r = none) (he : e.givesId = true)
      (hserver : r'.server = { r.server with hub := r.server.hub.reserve })
      (haccepted : r'.accepted = r.accepted ++ [r.server.hub.nextClient])
  | registers (k : Nat) (id : ClientId) (hid : registering? e r = some id)
      (hk : r.accepted[k]? = some id) (hserver : r'.server = enter id r.server)
      (haccepted : r'.accepted = r.accepted.eraseIdx k)
  | connects (hid : registering? e r = some r.server.hub.nextClient) (he : e.givesId = true)
      (hserver : r'.server =
        enter r.server.hub.nextClient { r.server with hub := r.server.hub.reserve })
      (haccepted : r'.accepted = r.accepted)
  | turns (hid : registering? e r = none) (before after : List Viewer) (v v' : Viewer)
      (hviewers : r.server.viewers = before ++ v :: after)
      (hviewers' : r'.server.viewers = before ++ v' :: after)
      (haccepted : r'.accepted = r.accepted)
      (ht : v.Turns r.server.hub r'.server.hub v')

/-- The connection of a viewer among the others. -/
theorem viewers_split {s : Server ℓ} {v : Viewer} (hv : s.viewer? n = some v) :
    ∃ before after, s.viewers = before ++ v :: after ∧
      ∀ outcome, (s.update n outcome).viewers = before ++ outcome.2 :: after := by
  obtain ⟨hlt, hget⟩ := List.getElem?_eq_some_iff.mp hv
  refine ⟨s.viewers.take n, s.viewers.drop (n + 1), ?_, fun outcome => ?_⟩
  · rw [← hget, List.getElem_cons_drop, List.take_append_drop]
  · exact List.set_eq_take_append_cons_drop.trans (if_pos hlt)

theorem change_update {s : Server ℓ} {l : ℓ} {accepted : List ClientId} {v : Viewer}
    {outcome : Hub × Viewer} (hid : registering? e ⟨s, accepted⟩ = none)
    (hv : s.viewer? n = some v) (ht : v.Turns s.hub outcome.1 outcome.2) :
    Change e ⟨s, accepted⟩ ⟨{ s with listener := l }.update n outcome, accepted⟩ := by
  obtain ⟨before, after, hviewers, hafter⟩ := viewers_split hv
  exact .turns hid before after v outcome.2 hviewers (hafter outcome) rfl ht

/-- What becomes of the connection of one viewer. -/
theorem Change.viewer {v : Viewer} (hc : Change e r r') (hv : r.server.viewer? n = some v) :
    r'.server.viewer? n = some v ∨ ∃ v', r'.server.viewer? n = some v' ∧
      v.Turns r.server.hub r'.server.hub v' := by
  have hentered : ∀ (s : Server ℓ) (id : ClientId), s.viewers = r.server.viewers →
      r'.server = enter id s → r'.server.viewer? n = some v := by
    intro s id hviewers hserver
    rw [hserver, Server.viewer?, enter, hviewers]
    exact List.getElem?_append_left (List.getElem?_eq_some_iff.mp hv).1 ▸ hv
  cases hc with
  | rests _ hviewers => exact .inl (by rw [Server.viewer?, hviewers]; exact hv)
  | accepts _ _ hserver => exact .inl (by rw [hserver]; exact hv)
  | registers _ _ _ _ hserver => exact .inl (hentered _ _ rfl hserver)
  | connects _ _ hserver => exact .inl (hentered _ _ (by rfl) hserver)
  | turns _ before after u u' hviewers hviewers' _ ht =>
    rw [Server.viewer?, hviewers] at hv
    rw [Server.viewer?, hviewers']
    rcases Nat.lt_trichotomy n before.length with hlt | rfl | hgt
    · rw [List.getElem?_append_left hlt] at hv ⊢
      exact .inl hv
    · rw [List.getElem?_append_right (Nat.le_refl _), Nat.sub_self] at hv ⊢
      obtain rfl := Option.some.inj hv
      exact .inr ⟨u', rfl, ht⟩
    · obtain ⟨k, hk⟩ : ∃ k, n - before.length = k + 1 := ⟨n - before.length - 1, by omega⟩
      rw [List.getElem?_append_right (Nat.le_of_lt hgt), hk] at hv ⊢
      exact .inl hv

/-- What ends takes its own id off the list. -/
theorem Change.own_entry_removed {v v' : Viewer} (hc : Change e r r')
    (hv : r.server.viewer? n = some v) (hv' : r'.server.viewer? n = some v')
    (hbefore : v.isGone = false) (hafter : v'.isGone = true) :
    r'.server.hub.clients = r.server.hub.clients.filter (fun id => id != v.id) := by
  rcases hc.viewer hv with hsame | ⟨u, hu, ht⟩
  · obtain rfl := Option.some.inj (hsame.symm.trans hv')
    exact absurd (hafter.symm.trans hbefore) nofun
  · obtain rfl := Option.some.inj (hu.symm.trans hv')
    cases ht with
    | goes hg => exact absurd (hafter.symm.trans hg.not_gone.2) nofun
    | leaves _ _ _ hclients => exact hclients

/-- An id is taken off the list only where a connection ends that has it. -/
theorem Change.removed_by_own_end (hc : Change e r r') {id : ClientId}
    (hid : id ∈ r.server.hub.clients) (hno : id ∉ r'.server.hub.clients) :
    ∃ n v v', r.server.viewer? n = some v ∧ r'.server.viewer? n = some v' ∧ v.id = id ∧
      v.isGone = false ∧ v'.isGone = true := by
  have hentered : ∀ (s : Server ℓ) (new : ClientId), s.hub.clients = r.server.hub.clients →
      r'.server = enter new s → id ∈ r'.server.hub.clients := by
    intro s new hclients hserver
    rw [hserver, enter, Hub.enlist, hclients]
    dsimp only
    split
    · exact hid
    · exact List.mem_append_left _ hid
  cases hc with
  | rests _ _ _ hclients => exact absurd (hclients ▸ hid) hno
  | accepts _ _ hserver => exact absurd (by rw [hserver]; exact hid) hno
  | registers _ _ _ _ hserver => exact absurd (hentered _ _ (by rfl) hserver) hno
  | connects _ _ hserver => exact absurd (hentered _ _ (by rfl) hserver) hno
  | turns _ before after v v' hviewers hviewers' _ ht =>
    cases ht with
    | goes _ _ _ hclients => exact absurd (hclients ▸ hid) hno
    | leaves hl _ _ hclients =>
      refine ⟨before.length, v, v', ?_, ?_, ?_, hl.before, hl.after⟩
      · simp [Server.viewer?, hviewers]
      · simp [Server.viewer?, hviewers']
      · rw [hclients, Hub.removeClient] at hno
        exact Decidable.byContradiction fun hne =>
          hno (List.mem_filter.mpr ⟨hid, bne_iff_ne.mpr (Ne.symm hne)⟩)

/-- The list has the ids of those that are present, and no id twice. -/
structure Listed (r : Reception ℓ) : Prop where
  clients : r.server.hub.clients = r.present.map (·.id)
  nodup : r.server.hub.clients.Nodup

def Counts (r : Reception ℓ) : Prop := r.server.hub.clients.length = r.present.length

theorem listed_start (info : ServerInfo) (capacity : Nat) (l : ℓ) :
    Listed (start info capacity l) := ⟨rfl, List.nodup_nil⟩

theorem Listed.counts (h : Listed r) : Counts r := by
  rw [Counts, h.clients, List.length_map]

theorem present_enter {id : ClientId} {s : Server ℓ} (hserver : r'.server = enter id s) :
    r'.present = s.viewers.filter (!·.isGone) ++ [.arrive id] := by
  rw [present, hserver, enter, List.filter_append]
  rfl

/-- Under an id that is free, a connection is put on the list. -/
theorem Listed.enter {id : ClientId} (h : Listed r) (hfree : id ∉ r.server.hub.clients)
    (s : Server ℓ) (hviewers : s.viewers = r.server.viewers)
    (hclients : s.hub.clients = r.server.hub.clients) (hserver : r'.server = enter id s) :
    Listed r' := by
  have hnew : r'.server.hub.clients = r.server.hub.clients ++ [id] := by
    rw [hserver, Reception.enter, Hub.enlist, hclients, if_neg hfree]
  constructor
  · rw [hnew, present_enter hserver, hviewers, h.clients, List.map_append]
    rfl
  · rw [hnew, List.nodup_append_comm]
    exact List.nodup_cons.mpr ⟨hfree, h.nodup⟩

theorem filter_ne_of_split {id : ClientId} {before after : List ClientId}
    (h : id ∉ before ++ after) :
    (before ++ id :: after).filter (fun a => a != id) = before ++ after := by
  simp only [List.filter_append, List.filter_cons, bne_self_eq_false, Bool.false_eq_true, if_false]
  rw [← List.filter_append]
  refine List.filter_eq_self.mpr fun a ha => bne_iff_ne.mpr ?_
  rintro rfl
  exact h ha

/-- What ends takes its own id off the list, and no other. -/
theorem Listed.turns (h : Listed r) {before after : List Viewer} {v v' : Viewer}
    (hviewers : r.server.viewers = before ++ v :: after)
    (hviewers' : r'.server.viewers = before ++ v' :: after)
    (ht : v.Turns r.server.hub r'.server.hub v') : Listed r' := by
  obtain ⟨hclients, hnodup⟩ := h
  cases ht with
  | goes hg hid _ hclients' =>
    obtain ⟨hstays, hstays'⟩ := hg.not_gone
    refine ⟨?_, hclients' ▸ hnodup⟩
    rw [hclients', hclients, present, present, hviewers, hviewers']
    simp [hstays, hstays', hid]
  | leaves hl _ _ hclients' =>
    have hbefore := hl.before
    have hafter := hl.after
    have hids : r.server.hub.clients = (before.filter (!·.isGone)).map (·.id) ++
        v.id :: (after.filter (!·.isGone)).map (·.id) := by
      rw [hclients, present, hviewers]
      simp [hbefore]
    rw [hids, List.nodup_middle, List.nodup_cons] at hnodup
    obtain ⟨hown, hothers⟩ := hnodup
    have hrest : r'.server.hub.clients = (before.filter (!·.isGone)).map (·.id) ++
        (after.filter (!·.isGone)).map (·.id) := by
      rw [hclients', Hub.removeClient, hids]
      exact filter_ne_of_split hown
    refine ⟨?_, hrest ▸ hothers⟩
    rw [hrest, present, hviewers']
    simp [hafter]

theorem Listed.change (h : Listed r) (hc : Change e r r')
    (hfree : ∀ id, registering? e r = some id → id ∉ r.server.hub.clients) : Listed r' := by
  cases hc with
  | rests _ hviewers _ hclients _ _ =>
    have hpresent : r'.present = r.present := by rw [present, present, hviewers]
    exact ⟨by rw [hclients, hpresent, h.clients], hclients ▸ h.nodup⟩
  | accepts _ _ hserver _ =>
    have hpresent : r'.present = r.present := by rw [present, present, hserver]
    exact ⟨by rw [hserver, hpresent]; exact h.clients, by rw [hserver]; exact h.nodup⟩
  | registers k id hid _ hserver _ => exact h.enter (hfree id hid) _ rfl rfl hserver
  | connects hid _ hserver _ => exact h.enter (hfree _ hid) _ (by rfl) (by rfl) hserver
  | turns _ before after v v' hviewers hviewers' _ ht => exact h.turns hviewers hviewers' ht

/-- With an id that is on the list already, one more is present than is listed. -/
theorem not_counts_of_taken (h : Counts r) {id : ClientId} (hid : registering? e r = some id)
    (htaken : id ∈ r.server.hub.clients) (hc : Change e r r') : ¬ Counts r' := by
  have hentered : ∀ s : Server ℓ, s.viewers = r.server.viewers →
      s.hub.clients = r.server.hub.clients → r'.server = enter id s → ¬ Counts r' := by
    intro s hviewers hclients hserver
    have hlist : r'.server.hub.clients = r.server.hub.clients := by
      rw [hserver, enter, Hub.enlist, hclients, if_pos htaken]
    rw [Counts, hlist, present_enter hserver, hviewers, List.length_append, List.length_singleton,
      h, present]
    omega
  cases hc with
  | rests hnone | accepts hnone | turns hnone => simp [hid] at hnone
  | registers k id' hid' _ hserver _ =>
    obtain rfl := Option.some.inj (hid.symm.trans hid')
    exact hentered _ rfl rfl hserver
  | connects hid' _ hserver _ =>
    obtain rfl := Option.some.inj (hid.symm.trans hid')
    exact hentered _ (by rfl) (by rfl) hserver

/-- The ids that were given, of connections that have registered and of the others. -/
def givenIds (r : Reception ℓ) : List ClientId := r.server.viewers.map (·.id) ++ r.accepted

/-- So many ids were given: the first ones, each once. -/
structure Given (n : Nat) (r : Reception ℓ) : Prop where
  ids : (givenIds r).Perm ((List.range n).map fun i => UInt32.ofNat (i + 1))
  nextId : r.server.hub.nextClient = UInt32.ofNat (n + 1)

theorem Given.same (h : Given n r) (hids : (givenIds r').Perm (givenIds r))
    (hnext : r'.server.hub.nextClient = r.server.hub.nextClient) : Given n r' :=
  ⟨hids.trans h.ids, hnext.trans h.nextId⟩

theorem Given.more (h : Given n r)
    (hids : (givenIds r').Perm (givenIds r ++ [r.server.hub.nextClient]))
    (hnext : r'.server.hub.nextClient = r.server.hub.nextClient + 1) : Given (n + 1) r' := by
  constructor
  · rw [List.range_succ, List.map_append, List.map_singleton, ← h.nextId]
    exact hids.trans (h.ids.append_right _)
  · rw [hnext, h.nextId]
    exact (UInt32.ofNat_add (n + 1) 1).symm

/-- An event gives one id at most. -/
theorem Given.change (h : Given n r) (hc : Change e r r') :
    Given n r' ∨ e.givesId = true ∧ Given (n + 1) r' := by
  cases hc with
  | rests _ hviewers haccepted _ hnext _ =>
    refine .inl (h.same ?_ hnext)
    rw [givenIds, givenIds, hviewers, haccepted]
  | accepts _ he hserver haccepted =>
    refine .inr ⟨he, h.more ?_ (by rw [hserver]; rfl)⟩
    rw [givenIds, givenIds, hserver, haccepted, ← List.append_assoc]
  | registers k id _ hk hserver haccepted =>
    obtain ⟨hlt, rfl⟩ := List.getElem?_eq_some_iff.mp hk
    refine .inl (h.same ?_ (by rw [hserver]; rfl))
    rw [givenIds, givenIds, hserver, haccepted, enter, List.map_append, List.append_assoc]
    exact (List.getElem_cons_eraseIdx_perm hlt).append_left _
  | connects _ he hserver haccepted =>
    refine .inr ⟨he, h.more ?_ (by rw [hserver]; rfl)⟩
    rw [givenIds, givenIds, hserver, haccepted, enter, List.map_append, List.append_assoc,
      List.append_assoc]
    exact List.perm_append_comm.append_left _
  | turns _ before after v v' hviewers hviewers' haccepted ht =>
    refine .inl (h.same ?_ ht.keeps.nextClient)
    rw [givenIds, givenIds, hviewers, hviewers', haccepted]
    simp [ht.id]

theorem nodup_firstIds (hn : n ≤ UInt32.size) :
    ((List.range n).map fun i => UInt32.ofNat (i + 1)).Nodup := by
  refine List.Nodup.map_on ?_ List.nodup_range
  intro i hi j hj hij
  have hmod := congrArg UInt32.toNat hij
  rw [UInt32.toNat_ofNat', UInt32.toNat_ofNat'] at hmod
  have hi := List.mem_range.mp hi
  have hj := List.mem_range.mp hj
  have hsize : UInt32.size = 4294967296 := rfl
  omega

theorem Given.nodup (h : Given n r) (hn : n ≤ UInt32.size) : (givenIds r).Nodup :=
  h.ids.nodup_iff.mpr (nodup_firstIds hn)

/-- While ids are given for the first time, the next one is not among them. -/
theorem Given.nextClient_notMem (h : Given n r) (hn : n < UInt32.size) :
    r.server.hub.nextClient ∉ givenIds r := by
  have hall := nodup_firstIds (Nat.succ_le_of_lt hn)
  rw [List.range_succ, List.map_append, List.map_singleton, ← h.nextId, List.nodup_append_comm]
    at hall
  exact fun hmem => (List.nodup_cons.mp hall).1 (h.ids.mem_iff.mp hmem)

theorem Listed.mem_viewers (h : Listed r) {id : ClientId} (hid : id ∈ r.server.hub.clients) :
    id ∈ r.server.viewers.map (·.id) := by
  rw [h.clients] at hid
  obtain ⟨v, hv, rfl⟩ := List.mem_map.mp hid
  exact List.mem_map.mpr ⟨v, (List.mem_filter.mp hv).1, rfl⟩

/-- Among the first 2^32 ids that are given none is on the list when it is registered. -/
theorem Given.free (h : Given n r) (hl : Listed r) {id : ClientId}
    (hid : registering? e r = some id) (hc : Change e r r')
    (hn : n + (if e.givesId then 1 else 0) ≤ UInt32.size) : id ∉ r.server.hub.clients := by
  intro hmem
  have hviewer := hl.mem_viewers hmem
  cases hc with
  | rests hnone | accepts hnone | turns hnone => simp [hid] at hnone
  | registers k id' hid' hk _ _ =>
    obtain rfl := Option.some.inj (hid.symm.trans hid')
    have hnodup := h.nodup (by omega)
    exact List.disjoint_of_nodup_append hnodup hviewer (List.mem_of_getElem? hk)
  | connects hid' he _ _ =>
    obtain rfl := Option.some.inj (hid.symm.trans hid')
    rw [if_pos he] at hn
    exact h.nextClient_notMem hn (List.mem_append_left _ hviewer)

theorem given_start (info : ServerInfo) (capacity : Nat) (l : ℓ) :
    Given 0 (start info capacity l) := ⟨.refl _, rfl⟩

variable [Listener ℓ]

/-- What an event leads to; none if it is not possible. Connections are accepted and register
whether the server is stopped or not. -/
def step (e : Event ℓ) (r : Reception ℓ) : Option (Reception ℓ) :=
  match e with
  | .accept => some
    { server := { r.server with hub := r.server.hub.reserve }
      accepted := r.accepted ++ [r.server.hub.nextClient] }
  | .register k =>
    r.accepted[k]?.map fun id => ⟨enter id r.server, r.accepted.eraseIdx k⟩
  | .act w a => (r.server.step w a).map fun server => { r with server }
  | .listen l => some { r with server := { r.server with listener := l } }

def next (r : Reception ℓ) (e : Event ℓ) : Reception ℓ := (r.step e).getD r

/-- Events one after the other, as far as they are possible. -/
def run (r : Reception ℓ) (es : List (Event ℓ)) : Reception ℓ := es.foldl next r

/-- To connect is to be accepted and to register at once. -/
theorem connect_eq (w : World) (r : Reception ℓ)
    (hstops : r.server.hub.isStopped = false) (haccepted : r.accepted = []) :
    r.step (.act w .connect) = (r.step .accept).bind (step (.register 0)) := by
  simp [step, Server.step, hstops, haccepted, enter, Hub.enterClient_eq]

theorem change_act {w : World} {a : Server.Action} {s s' : Server ℓ} (accepted : List ClientId)
    (hs : s.step w a = some s') : Change (.act w a) ⟨s, accepted⟩ ⟨s', accepted⟩ := by
  cases a with
  | connect =>
    simp only [Server.step] at hs
    split at hs
    · cases hs
    · rename_i hstopped
      obtain rfl := Option.some.inj hs
      exact .connects (if_neg hstopped) rfl rfl rfl
  | proceed n =>
    obtain ⟨v, outcome, hv, hp, rfl⟩ := Server.step_proceed_iff.mp hs
    exact change_update rfl hv (Viewer.turns_proceed hp)
  | dequeue n =>
    obtain ⟨v, v', hv, hd, rfl⟩ := (Server.step_dequeue_iff (w := w)).mp hs
    exact change_update rfl hv (Viewer.turns_dequeue hd)
  | receive n x =>
    obtain ⟨v, hub, v', l', hv, hlive, hr, rfl⟩ := Server.step_receive_iff.mp hs
    exact change_update rfl hv (Viewer.turns_receive hlive hr)
  | hearStop n =>
    obtain ⟨v, hv, hlive, rfl⟩ := Server.step_hearStop hs
    have hstays : v.isGone = false := by simp [Viewer.isGone, hlive]
    exact change_update rfl hv (Viewer.turns_leave s.hub hstays)
  | lose n =>
    simp only [Server.step, Option.bind_eq_bind, Option.bind_eq_some_iff, Option.pure_def] at hs
    obtain ⟨v, hv, hs⟩ := hs
    split at hs
    · cases hs
    · rename_i hstays
      obtain rfl := Option.some.inj hs
      exact change_update rfl hv (Viewer.turns_leave s.hub (Bool.eq_false_iff.mpr hstays))
  | enter c =>
    simp only [Server.step] at hs
    split at hs
    · cases hs
    · split at hs <;> obtain rfl := Option.some.inj hs <;>
        exact .rests rfl rfl rfl rfl rfl (Nat.le_refl _)
  | announce =>
    obtain ⟨x, -, rfl⟩ := Option.map_eq_some_iff.mp hs
    exact .rests rfl rfl rfl rfl rfl (Nat.le_refl _)
  | stop =>
    obtain rfl := Option.some.inj hs
    exact .rests rfl rfl rfl rfl rfl (Nat.le_succ _)
  | time t | state x | log id payload t =>
    obtain rfl := Option.some.inj hs
    exact .rests rfl rfl rfl rfl rfl (Nat.le_refl _)

theorem change_step (hs : r.step e = some r') : Change e r r' := by
  cases e with
  | accept =>
    obtain rfl := Option.some.inj hs
    exact .accepts rfl rfl rfl rfl
  | register k =>
    obtain ⟨id, hid, rfl⟩ := Option.map_eq_some_iff.mp hs
    exact .registers k id hid hid rfl rfl
  | act w a =>
    obtain ⟨s', hs', rfl⟩ := Option.map_eq_some_iff.mp hs
    exact change_act r.accepted hs'
  | listen l =>
    obtain rfl := Option.some.inj hs
    exact .rests rfl rfl rfl rfl rfl (Nat.le_refl _)

/-- A connection can register under the id that it has. -/
theorem step_of_registering {id : ClientId} (hid : registering? e r = some id) :
    r.step e ≠ none := by
  cases e with
  | accept | listen => cases hid
  | register k => simp [step, show r.accepted[k]? = some id from hid]
  | act w a =>
    cases a with
    | connect =>
      simp only [registering?] at hid
      split at hid
      · cases hid
      · rename_i hstopped
        simp [step, Server.step, hstopped]
    | _ => cases hid

theorem next_cases (e : Event ℓ) (r : Reception ℓ) :
    r.next e = r ∧ registering? e r = none ∨ Change e r (r.next e) := by
  unfold next
  cases hs : r.step e with
  | none =>
    refine .inl ⟨rfl, ?_⟩
    cases hid : registering? e r with
    | none => rfl
    | some id => exact absurd hs (step_of_registering hid)
  | some r' => exact .inr (change_step hs)

theorem Listed.next (h : Listed r)
    (hfree : ∀ id, registering? e r = some id → id ∉ r.server.hub.clients) :
    Listed (r.next e) := by
  rcases next_cases e r with ⟨hsame, -⟩ | hc
  · rwa [hsame]
  · exact h.change hc hfree

/-- Whether no connection in a run registers under an id that is on the list. -/
def DistinctIds : List (Event ℓ) → Reception ℓ → Prop
  | [], _ => True
  | e :: es, r =>
    (∀ id, registering? e r = some id → id ∉ r.server.hub.clients) ∧ DistinctIds es (r.next e)

theorem counts_right_iff (h : Listed r) (es : List (Event ℓ)) :
    (∀ k, Counts (r.run (es.take k))) ↔ DistinctIds es r := by
  induction es generalizing r with
  | nil =>
    simp only [List.take_nil, DistinctIds, iff_true]
    exact fun _ => h.counts
  | cons e es ih =>
    constructor
    · intro hright
      have hfree : ∀ id, registering? e r = some id → id ∉ r.server.hub.clients := by
        intro id hid htaken
        rcases next_cases e r with ⟨-, hnone⟩ | hc
        · exact absurd (hid.symm.trans hnone) nofun
        · exact not_counts_of_taken h.counts hid htaken hc (hright 1)
      exact ⟨hfree, (ih (h.next hfree)).mp fun k => hright (k + 1)⟩
    · rintro ⟨hfree, hrest⟩ k
      cases k with
      | zero => exact h.counts
      | succ k => exact (ih (h.next hfree)).mpr hrest k

/-- While 2^32 ids are given at most, no connection registers under an id that is on the list. -/
theorem distinct_of_few (h : Listed r) (hg : Given n r) {es : List (Event ℓ)}
    (hfew : n + es.countP Event.givesId ≤ UInt32.size) : DistinctIds es r := by
  induction es generalizing r n with
  | nil => trivial
  | cons e es ih =>
    rw [List.countP_cons] at hfew
    rcases next_cases e r with ⟨hsame, hnone⟩ | hc
    · refine ⟨fun id hid => absurd (hid.symm.trans hnone) nofun, ?_⟩
      rw [hsame]
      exact ih h hg (by omega)
    · have hfree : ∀ id, registering? e r = some id → id ∉ r.server.hub.clients :=
        fun id hid => hg.free h hid hc (by omega)
      refine ⟨hfree, ?_⟩
      rcases hg.change hc with hg' | ⟨he, hg'⟩
      · exact ih (h.next hfree) hg' (by omega)
      · rw [if_pos he] at hfew
        exact ih (h.next hfree) hg' (by omega)

end Reception

end Replay
