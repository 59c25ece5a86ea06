import Replay.Proofs.Player.Delivery
import Replay.Proofs.Server.Following
import Replay.Proofs.Server.Whole

/-!
Every viewer converges. Where publications are single steps, a live viewer with nothing left in the
feed was told last the state that the hub remembers, and the channels it was told are the channels
of the hub, however small the feed is and however often the viewer has fallen behind.
-/

namespace Replay

def Viewer.lastState (v : Viewer) : Option State := (v.sent.flatMap Outgoing.states).getLast?

/-- All channels that a viewer was told, by id. -/
def Viewer.channels (v : Viewer) : List Advertised :=
  (v.sent.flatMap Outgoing.advertised).foldl (fun all a => Hub.insertChannel a all) []

namespace Server

open Hub

theorem foldl_insertChannel (cs : List Advertised) {all : List Advertised} (h : Ordered all) :
    Ordered (cs.foldl (fun all a => insertChannel a all) all) ∧
      ∀ id, withId? id (cs.foldl (fun all a => insertChannel a all) all) =
        (withId? id cs).or (withId? id all) := by
  induction cs generalizing all with
  | nil => exact ⟨h, fun _ => rfl⟩
  | cons a cs ih =>
    obtain ⟨hord, hwith⟩ := ih (h.insert a)
    refine ⟨hord, ?_⟩
    intro id
    have hcons : withId? id (a :: cs) = (withId? id cs).or (withId? id [a]) := by
      rw [withId?, ← List.singleton_append, List.filter_append, List.getLast?_append]
      rfl
    rw [List.foldl_cons, hwith, h.withId_insert, hcons, Option.or_assoc]

theorem ordered_channels (v : Viewer) : Ordered v.channels :=
  (foldl_insertChannel _ List.Pairwise.nil).1

theorem last_channel (id : ChannelId) (v : Viewer) :
    (Reading.channel id).last v.sent = withId? id v.channels := by
  rw [Viewer.channels, (foldl_insertChannel _ List.Pairwise.nil).2]
  simp only [Reading.last, Reading.channel, withId?, List.filter_flatMap, List.filter_nil,
    List.getLast?_nil, Option.or_none]

variable {ℓ : Type} {β : Type} {r : Reading β}

/-- What holds of a server along every run: the feed ends with what the hub knows, and every viewer
follows. -/
structure Converging (r : Reading β) (s : Server ℓ) : Prop where
  ordered : Ordered s.hub.channels
  framed : s.hub.Framed
  newest : s.hub.Newest r
  follows : ∀ v ∈ s.viewers, v.stage ≠ .gone → v.Follows r s.hub

theorem converging_start (info : ServerInfo) (capacity : Nat) (l : ℓ) :
    Converging r (start info capacity l) where
  ordered := List.Pairwise.nil
  framed := nofun
  newest := rfl
  follows := nofun

theorem Converging.tells {s : Server ℓ} (h : Converging r s) {hub : Hub} (ht : s.hub.Tells hub) :
    Converging r { s with hub } where
  ordered := ht.ordered h.ordered
  framed := ht.framed h.framed
  newest := h.newest.tells h.ordered ht
  follows v hv hg := (h.follows v hv hg).tells h.ordered ht

theorem Converging.update {s : Server ℓ} (h : Converging r s) {hub : Hub}
    (ht : s.hub.Tells hub) {v : Viewer} (hf : v.stage ≠ .gone → v.Follows r hub) (n : Nat) :
    Converging r (s.update n (hub, v)) := by
  have hall := h.tells ht
  refine ⟨hall.ordered, hall.framed, hall.newest, ?_⟩
  intro u hu hg
  rcases List.mem_or_eq_of_mem_set hu with hu | rfl
  · exact hall.follows u hu hg
  · exact hf hg

theorem Converging.leave {s : Server ℓ} (h : Converging r s) (v : Viewer) (n : Nat) :
    Converging r (s.update n (v.leave s.hub)) := by
  have ht : s.hub.Tells (s.hub.removeClient v.id) := .nothing rfl rfl rfl
  exact h.update ht (fun hg => absurd rfl hg) n

theorem Converging.proceedWhole {s : Server ℓ} (h : Converging r s) {v v' : Viewer}
    (hv : v ∈ s.viewers) {hub : Hub} (hp : v.proceedWhole s.hub = some (hub, v')) :
    s.hub.Tells hub ∧ (v'.stage ≠ .gone → v'.Follows r hub) := by
  unfold Viewer.proceedWhole at hp
  split at hp
  · rename_i x hstage
    obtain ⟨rfl, rfl⟩ := Prod.mk.inj (Option.some.inj hp)
    have ht : s.hub.Tells (s.hub.publishState x) := .state x rfl rfl rfl
    refine ⟨ht, ?_⟩
    intro _
    have hf := h.follows v hv (by simp [hstage])
    exact (hf.tells h.ordered ht).congr rfl (by simp only [Viewer.ahead, hstage])
  · cases hp
  · rename_i hr ha
    have hg : v.stage ≠ .gone := by
      intro hgone
      simp [Viewer.proceed, hgone] at hp
    exact (h.follows v hv hg).proceed h.newest hr ha hp

variable [Listener ℓ]

theorem Converging.step {s s' : Server ℓ} (h : Converging r s) {w : World} {a : Action}
    (hs : s.stepWhole w a = some s') : Converging r s' := by
  cases a with
  | connect =>
    simp only [stepWhole, Server.step] at hs
    split at hs
    · cases hs
    · obtain rfl := Option.some.inj hs
      have hsame : s.hub.Tells s.hub.enterClient.2 := .nothing rfl rfl rfl
      have hall := h.tells hsame
      refine ⟨hall.ordered, hall.framed, hall.newest, ?_⟩
      intro v hv hg
      rcases List.mem_append.mp hv with hv | hv
      · exact hall.follows v hv hg
      · obtain rfl := List.mem_singleton.mp hv
        exact Viewer.follows_arrive hall.newest _
  | proceed n =>
    obtain ⟨v, ⟨hub, v'⟩, hv, hp, rfl⟩ := stepWhole_proceed_iff.mp hs
    obtain ⟨ht, hf⟩ := h.proceedWhole (List.mem_of_getElem? hv) hp
    exact h.update ht hf n
  | dequeue n =>
    obtain ⟨v, v', hv, hd, rfl⟩ := (step_dequeue_iff (w := w)).mp hs
    refine h.update (.refl _) ?_ n
    intro _
    have hf := h.follows v (List.mem_of_getElem? hv) (by simp [Viewer.live_of_dequeue hd])
    exact hf.dequeue h.newest h.framed hd
  | receive n x =>
    obtain ⟨v, hub, v', l', hv, hlive, hr, rfl⟩ := step_receive_iff.mp hs
    have hf := h.follows v (List.mem_of_getElem? hv) (by simp [hlive])
    obtain ⟨ht, hf'⟩ := hf.receive hlive hr
    have hsame : Converging r { s with listener := l' } :=
      ⟨h.ordered, h.framed, h.newest, h.follows⟩
    exact hsame.update ht hf' n
  | hearStop n =>
    obtain ⟨v, hv, _, rfl⟩ := step_hearStop (w := w) hs
    exact h.leave v n
  | lose n =>
    obtain ⟨v, hv, rfl⟩ := step_lose (w := w) hs
    exact h.leave v n
  | time t =>
    obtain rfl := Option.some.inj hs
    exact h.tells (.frame _ (.time t) rfl rfl rfl rfl)
  | state x =>
    obtain rfl := Option.some.inj hs
    exact h.tells (.state x rfl rfl rfl)
  | log id payload t =>
    obtain rfl := Option.some.inj hs
    exact h.tells (.frame _ (.message id t payload) rfl rfl rfl rfl)
  | enter c =>
    obtain rfl := Option.some.inj hs
    exact h.tells (tells_addChannel c s.hub)
  | announce => cases hs
  | stop =>
    obtain rfl := Option.some.inj hs
    exact h.tells (.nothing rfl rfl rfl)

theorem Converging.run {s : Server ℓ} (h : Converging r s) (os : List (World × Action)) :
    Converging r (s.runWhole os) := by
  induction os generalizing s with
  | nil => exact h
  | cons o os ih =>
    cases hs : s.stepWhole o.1 o.2 with
    | none => simpa only [runWhole, List.foldl_cons, hs, Option.getD_none] using ih h
    | some s' => simpa only [runWhole, List.foldl_cons, hs, Option.getD_some] using ih (h.step hs)

/-- Whatever is published and whenever a viewer connects, dequeues and falls behind: once it is live
with nothing left in the feed, the state told to it last is the one that the hub remembers, and it
was told the channels of the hub. -/
theorem drained_viewer_converges (info : ServerInfo) (capacity : Nat) (l : ℓ)
    (os : List (World × Action)) {n : Nat} {v : Viewer} :
    let s := (start info capacity l).runWhole os
    s.viewer? n = some v → v.stage = .live → v.dequeue s.hub = none →
    v.lastState = s.hub.lastState ∧ v.channels = s.hub.channels := by
  intro s hv hlive hd
  have hall : ∀ {β : Type} (r : Reading β), Converging r s :=
    fun r => (converging_start info capacity l).run os
  have hg : v.stage ≠ .gone := by simp [hlive]
  have hlast : ∀ {β : Type} (r : Reading β), r.last v.sent = r.knows s.hub :=
    fun r => ((hall r).follows v (List.mem_of_getElem? hv) hg).drained hlive hd
  refine ⟨hlast Reading.state, ?_⟩
  apply (ordered_channels v).ext_withId (hall Reading.state).ordered
  intro id
  rw [← last_channel]
  exact hlast (Reading.channel id)

def sampleInfo : ServerInfo := ⟨"replay", [.rangedPlayback, .time], 3, 9, "s"⟩

def sampleState (t : Nanos) : State := ⟨t, Binary64.ofNat 1, .playing, false, none⟩

/-- A viewer is connecting while a state is published, and falls behind while it is brought up to
date: the feed holds one item. -/
def sampleActions : List (World × Action) :=
  [.connect, .proceed 0, .proceed 0, .proceed 0, .proceed 0, .proceed 0, .state (sampleState 3),
    .proceed 0, .enter ⟨"/a", "json", none⟩, .state (sampleState 5), .proceed 0, .proceed 0,
    .dequeue 0, .proceed 0, .proceed 0, .proceed 0, .proceed 0, .proceed 0, .dequeue 0].map
      (⟨0, .empty⟩, ·)

def sampleViewer : Viewer where
  id := 1
  stage := .live
  place := 3
  stopsSeen := 0
  subscriptions := []
  sent := [.message (.serverInfo sampleInfo), .message (.state (sampleState 3)),
    .message (.advertise [⟨1, "/a", "json", "", none, ""⟩]), .message (.state (sampleState 5)),
    .message (.state (sampleState 5))]

theorem drained_sample_converges :
    let s := (start sampleInfo 1 Player.samplePlayer).runWhole sampleActions
    s.viewer? 0 = some sampleViewer ∧ sampleViewer.stage = .live ∧
    sampleViewer.dequeue s.hub = none ∧ s.hub.lastState = some (sampleState 5) ∧
    s.hub.channels = [⟨1, "/a", "json", "", none, ""⟩] ∧
    sampleViewer.lastState = s.hub.lastState ∧ sampleViewer.channels = s.hub.channels := by
  intro s
  have hv : s.viewer? 0 = some sampleViewer := by decide +kernel
  have hd : sampleViewer.dequeue s.hub = none := by decide +kernel
  exact ⟨hv, rfl, hd, by decide +kernel, by decide +kernel,
    drained_viewer_converges sampleInfo 1 Player.samplePlayer sampleActions hv rfl hd⟩

end Server

end Replay
