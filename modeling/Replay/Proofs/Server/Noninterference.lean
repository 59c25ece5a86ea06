import Replay.Proofs.Pacing.TurnsInSections
import Replay.Proofs.Server.Handling
import Replay.Proofs.Server.Publication

/-!
Viewers cannot disturb each other. Of what a viewer sends, only requests to the player reach anything
that others see: two runs in which the same happens but for one viewer's other frames, its own
steps and the end of its connection are the same for all others (`agree_of_shared_eq`).
-/

namespace Replay

/-- A hub without the list of who is there. -/
def Hub.anonymous (h : Hub) : Hub := { h with clients := [] }

/-- What does not depend on who is there is the same for hubs that are equal otherwise. -/
theorem Hub.eq_of_anonymous {β : Type} (f : Hub → β) (hf : ∀ h, f h.anonymous = f h) {h h' : Hub}
    (heq : h.anonymous = h'.anonymous) : f h = f h' := by
  rw [← hf h, heq, hf h']

theorem Hub.anonymous_carries : Sink.Carries Hub.anonymous where
  time _ _ := rfl
  state _ _ := rfl
  addChannel c h := by
    have hid : h.anonymous.topicId? c.topic = h.topicId? c.topic := rfl
    change Hub.addChannel c h.anonymous = ((Hub.addChannel c h).1, (Hub.addChannel c h).2.anonymous)
    cases ht : h.topicId? c.topic with
    | some id => simp only [Hub.addChannel, hid, ht]
    | none =>
      simp only [Hub.addChannel, hid, ht]
      rfl
  log _ _ _ _ := rfl

namespace Viewer

/-- What a connection does does not depend on who is there. -/
theorem proceed_anonymous (h : Hub) (v : Viewer) :
    (v.proceed h.anonymous).map (fun o => (o.1.anonymous, o.2)) =
      (v.proceed h).map fun o => (o.1.anonymous, o.2) := by
  unfold proceed
  cases hstage : v.stage with
  | listening =>
    have hstop : h.anonymous.isStopped = h.isStopped := rfl
    cases hs : h.isStopped <;> simp only [hs, hstop] <;> rfl
  | catchingUp frames => cases frames <;> rfl
  | arriving | attached | greeting | lookingUpChannels | lookingUpState | live | remembering
  | announcing | gone => rfl

/-- A step that publishes no answer concerns the connection alone. -/
theorem proceed_private {h h' : Hub} {v v' : Viewer} (hp : v.proceed h = some (h', v'))
    (hnone : v.stage.toAnnounce? = none) :
    h'.anonymous = h.anonymous ∧ v'.stage.toAnnounce? = none := by
  unfold proceed at hp
  cases hstage : v.stage with
  | remembering x | announcing x =>
    rw [hstage] at hnone
    cases hnone
  | live | gone => simp [hstage] at hp
  | listening =>
    simp only [hstage, Option.some.injEq] at hp
    split at hp <;> simp only [leave, Prod.mk.injEq] at hp <;> obtain ⟨rfl, rfl⟩ := hp <;>
      exact ⟨rfl, rfl⟩
  | catchingUp frames =>
    cases frames <;> simp only [hstage, Option.some.injEq, Prod.mk.injEq] at hp <;>
      obtain ⟨rfl, rfl⟩ := hp <;> exact ⟨rfl, rfl⟩
  | arriving | attached | greeting | lookingUpChannels | lookingUpState =>
    simp only [hstage, Option.some.injEq, Prod.mk.injEq] at hp
    obtain ⟨rfl, rfl⟩ := hp
    exact ⟨rfl, rfl⟩

variable {ℓ : Type} [Listener ℓ]

theorem receive_anonymous (w : World) (x : Incoming) (h : Hub) (v : Viewer) (l : ℓ) :
    ((v.receive w x h.anonymous l).1.anonymous, (v.receive w x h.anonymous l).2) =
      ((v.receive w x h l).1.anonymous, (v.receive w x h l).2) := by
  cases x with
  | close => rfl
  | binary bs => rfl
  | text t =>
    simp only [receive]
    cases ClientMessage.wire.parse t with
    | error e => rfl
    | ok m =>
      cases m with
      | subscribe ids => rfl
      | unsubscribe ids => rfl
      | control r =>
        dsimp only
        cases Listener.answer w r l with
        | mk answer l' => cases answer <;> rfl

/-- What is no request concerns the connection alone. -/
theorem receive_private {w : World} {x : Incoming} {h h' : Hub} {v v' : Viewer} {l l' : ℓ}
    (hlive : v.stage = .live) (hx : x.isControl = false) (hr : v.receive w x h l = (h', v', l')) :
    h'.anonymous = h.anonymous ∧ l' = l ∧ v'.stage.toAnnounce? = none := by
  by_cases hclose : x = .close
  · subst hclose
    simp only [receive, leave, Prod.mk.injEq] at hr
    obtain ⟨rfl, rfl, rfl⟩ := hr
    exact ⟨rfl, rfl, rfl⟩
  · obtain ⟨u, k, heq, hhandled⟩ := handled (h := h) (w := w) (l := l) hlive hclose
    rw [hr, Prod.mk.injEq, Prod.mk.injEq] at heq
    obtain ⟨rfl, rfl, rfl⟩ := heq
    obtain ⟨hstage, hl⟩ := hhandled.quiet hx
    exact ⟨rfl, hl, by rw [hstage]; rfl⟩

end Viewer

namespace Server

variable {ℓ : Type}

/-- A step of the loop, with the player and the hub. It does not look who is there. -/
structure Turn (ℓ : Type) where
  run : ℓ → Hub → ℓ × Hub
  oblivious : ∀ l h, ((run l h.anonymous).1, (run l h.anonymous).2.anonymous) =
    ((run l h).1, (run l h).2.anonymous)

/-- What happens to a server and to the player that it shares with the loop. -/
inductive Occurrence (ℓ : Type) where
  | act (w : World) (a : Action)
  | turn (t : Turn ℓ)

variable [Listener ℓ]

/-- Whether an action is of viewer `n` and concerns its own connection only: all but handling a
request and publishing the answer. -/
def isPrivate (n : Nat) (s : Server ℓ) : Action → Bool
  | .proceed m => m = n && (s.toAnnounce? n).isNone
  | .dequeue m | .hearStop m | .lose m => m = n
  | .receive m x => m = n && !x.isControl
  | _ => false

def occur (s : Server ℓ) : Occurrence ℓ → Server ℓ
  | .act w a => (s.step w a).getD s
  | .turn t => { s with listener := (t.run s.listener s.hub).1, hub := (t.run s.listener s.hub).2 }

def occurAll (s : Server ℓ) (os : List (Occurrence ℓ)) : Server ℓ := os.foldl occur s

/-- Whether something happens that is not private to viewer `n`. -/
def isShared (n : Nat) (s : Server ℓ) : Occurrence ℓ → Bool
  | .act w a => (s.step w a).isSome && !s.isPrivate n a
  | .turn _ => true

/-- What happens in a run, but for what is private to viewer `n`. -/
def shared (n : Nat) (s : Server ℓ) : List (Occurrence ℓ) → List (Occurrence ℓ)
  | [] => []
  | o :: os => (if s.isShared n o then [o] else []) ++ (s.occur o).shared n os

/-- For all that is to happen whether it happens and is shared. -/
def marks (n : Nat) (s : Server ℓ) : List (Occurrence ℓ) → List Bool
  | [] => []
  | o :: os => s.isShared n o :: (s.occur o).marks n os

theorem shared_eq_marked (n : Nat) (s : Server ℓ) (os : List (Occurrence ℓ)) :
    s.shared n os = ((os.zip (s.marks n os)).filter (·.2)).map (·.1) := by
  induction os generalizing s with
  | nil => rfl
  | cons o os ih =>
    rw [shared, ih, marks, List.zip_cons_cons]
    cases hs : s.isShared n o <;> simp

/-- All but viewer `n` see the same in both servers, and if both have an answer of viewer `n` to
publish it is the same. -/
structure Agree (n : Nat) (s s' : Server ℓ) : Prop where
  hub : s.hub.anonymous = s'.hub.anonymous
  listener : s.listener = s'.listener
  entered : s.entered = s'.entered
  length : s.viewers.length = s'.viewers.length
  others : ∀ m, m ≠ n → s.viewer? m = s'.viewer? m
  answer : ∀ v v', s.viewer? n = some v → s'.viewer? n = some v' →
    v.stage.toAnnounce?.isSome → v'.stage.toAnnounce?.isSome → v.stage = v'.stage

variable {n m : Nat} {s s' t t' : Server ℓ} {w : World} {a : Action}

/-- What is private to a viewer changes its own connection and who is there. -/
theorem step_private (hp : s.isPrivate n a = true) (hs : s.step w a = some t) :
    ∃ v hub v', s.viewer? n = some v ∧ t = s.update n (hub, v') ∧
      hub.anonymous = s.hub.anonymous ∧ v'.stage.toAnnounce? = none := by
  cases a with
  | proceed m =>
    simp only [isPrivate, Bool.and_eq_true, decide_eq_true_eq, Option.isNone_iff_eq_none] at hp
    obtain ⟨rfl, hnone⟩ := hp
    obtain ⟨v, ⟨hub, v'⟩, hv, hproceed, rfl⟩ := step_proceed_iff.mp hs
    rw [toAnnounce?, hv, Option.bind_some] at hnone
    obtain ⟨hhub, hafter⟩ := Viewer.proceed_private hproceed hnone
    exact ⟨v, hub, v', hv, rfl, hhub, hafter⟩
  | dequeue m =>
    obtain rfl : m = n := of_decide_eq_true hp
    obtain ⟨v, v', hv, hd, rfl⟩ := step_dequeue_iff.mp hs
    exact ⟨v, s.hub, v', hv, rfl, rfl, (Viewer.dequeue_quiet hd).2⟩
  | receive m x =>
    simp only [isPrivate, Bool.and_eq_true, decide_eq_true_eq, Bool.not_eq_true'] at hp
    obtain ⟨rfl, hx⟩ := hp
    obtain ⟨v, hub, v', l', hv, hlive, hr, rfl⟩ := step_receive_iff.mp hs
    obtain ⟨hhub, rfl, hafter⟩ := Viewer.receive_private hlive hx hr
    exact ⟨v, hub, v', hv, rfl, hhub, hafter⟩
  | hearStop m =>
    obtain rfl : m = n := of_decide_eq_true hp
    obtain ⟨v, hv, _, rfl⟩ := step_hearStop hs
    exact ⟨v, _, _, hv, rfl, rfl, rfl⟩
  | lose m =>
    obtain rfl : m = n := of_decide_eq_true hp
    obtain ⟨v, hv, rfl⟩ := step_lose hs
    exact ⟨v, _, _, hv, rfl, rfl, rfl⟩
  | connect | time _ | state _ | log _ _ _ | enter _ | announce | stop => cases hp

omit [Listener ℓ] in
theorem viewer_update_of_ne (hm : m ≠ n) (outcome : Hub × Viewer) :
    (s.update n outcome).viewer? m = s.viewer? m :=
  List.getElem?_set_ne (Ne.symm hm)

namespace Agree

omit [Listener ℓ]

theorem refl (n : Nat) (s : Server ℓ) : Agree n s s := by
  refine ⟨rfl, rfl, rfl, rfl, fun _ _ => rfl, ?_⟩
  intro v v' hv hv' _ _
  rw [Option.some.inj (hv.symm.trans hv')]

theorem symm (h : Agree n s s') : Agree n s' s :=
  ⟨h.hub.symm, h.listener.symm, h.entered.symm, h.length.symm, fun m hm => (h.others m hm).symm,
    fun v v' hv hv' ha ha' => (h.answer v' v hv' hv ha' ha).symm⟩

/-- A connection that has no answer to publish. -/
theorem own (h : Agree n s s') {v v' : Viewer} (hv : s.viewer? n = some v) {hub : Hub}
    (hhub : hub.anonymous = s.hub.anonymous) (hnone : v'.stage.toAnnounce? = none) :
    Agree n (s.update n (hub, v')) s' := by
  refine ⟨hhub.trans h.hub, h.listener, h.entered, ?_, ?_, ?_⟩
  · exact List.length_set.trans h.length
  · intro m hm
    rw [viewer_update_of_ne hm, h.others m hm]
  · intro u u' hu _ ha _
    rw [viewer_update hv, Option.some.injEq] at hu
    subst hu
    rw [hnone] at ha
    cases ha

theorem withHub (h : Agree n s s') {hub hub' : Hub} (hhub : hub.anonymous = hub'.anonymous) :
    Agree n { s with hub } { s' with hub := hub' } :=
  ⟨hhub, h.listener, h.entered, h.length, h.others, h.answer⟩

theorem withListener (h : Agree n s s') (l : ℓ) :
    Agree n { s with listener := l } { s' with listener := l } :=
  ⟨h.hub, rfl, h.entered, h.length, h.others, h.answer⟩

theorem withEntered (h : Agree n s s') (e : Option Advertised) :
    Agree n { s with entered := e } { s' with entered := e } :=
  ⟨h.hub, h.listener, rfl, h.length, h.others, h.answer⟩

/-- The same becomes of another connection. -/
theorem other (h : Agree n s s') (hm : m ≠ n) {hub hub' : Hub}
    (hhub : hub.anonymous = hub'.anonymous) (v : Viewer) :
    Agree n (s.update m (hub, v)) (s'.update m (hub', v)) := by
  refine ⟨hhub, h.listener, h.entered, ?_, ?_, ?_⟩
  · simp only [update, List.length_set, h.length]
  · intro k hk
    have hold := h.others k hk
    simp only [viewer?] at hold
    simp only [viewer?, update, List.getElem?_set, h.length, hold]
  · intro u u' hu hu'
    rw [viewer_update_of_ne (Ne.symm hm)] at hu hu'
    exact h.answer u u' hu hu'

/-- Both have the same answer to publish, or none. -/
theorem both (h : Agree n s s') {v v' u u' : Viewer} (hv : s.viewer? n = some v)
    (hv' : s'.viewer? n = some v') {hub hub' : Hub} (hhub : hub.anonymous = hub'.anonymous)
    (hstage : u.stage = u'.stage) : Agree n (s.update n (hub, u)) (s'.update n (hub', u')) := by
  refine ⟨hhub, h.listener, h.entered, ?_, ?_, ?_⟩
  · simp only [update, List.length_set, h.length]
  · intro m hm
    rw [viewer_update_of_ne hm, viewer_update_of_ne hm, h.others m hm]
  · intro x x' hx hx' _ _
    rw [viewer_update hv, Option.some.injEq] at hx
    rw [viewer_update hv', Option.some.injEq] at hx'
    rw [← hx, ← hx', hstage]

theorem connected (h : Agree n s s') (id : ClientId) :
    Agree n { s with viewers := s.viewers ++ [.arrive id] }
      { s' with viewers := s'.viewers ++ [.arrive id] } := by
  refine ⟨h.hub, h.listener, h.entered, ?_, ?_, ?_⟩
  · simp only [List.length_append, h.length]
  · intro m hm
    have hold := h.others m hm
    simp only [viewer?] at hold
    simp only [viewer?, List.getElem?_append, h.length, hold]
  · intro v v' hv hv' ha ha'
    simp only [viewer?, List.getElem?_append, h.length] at hv hv'
    split at hv
    · rename_i hlt
      rw [if_pos hlt] at hv'
      exact h.answer v v' hv hv' ha ha'
    · obtain rfl := List.mem_singleton.mp (List.mem_of_getElem? hv)
      cases ha

end Agree

/-- A request of viewer `n`, and the publication of its answer. -/
theorem Agree.step_own (h : Agree n s s') (ha : a = .proceed n ∨ ∃ x, a = .receive n x)
    (hs : s.step w a = some t) (hs' : s'.step w a = some t') (hp : s.isPrivate n a = false)
    (hp' : s'.isPrivate n a = false) : Agree n t t' := by
  rcases ha with rfl | ⟨x, rfl⟩
  · obtain ⟨v, ⟨hub, u⟩, hv, hproceed, rfl⟩ := step_proceed_iff.mp hs
    obtain ⟨v', ⟨hub', u'⟩, hv', hproceed', rfl⟩ := step_proceed_iff.mp hs'
    have ha : v.stage.toAnnounce?.isSome := by
      simpa [isPrivate, toAnnounce?, hv, Option.isSome_iff_ne_none] using hp
    have ha' : v'.stage.toAnnounce?.isSome := by
      simpa [isPrivate, toAnnounce?, hv', Option.isSome_iff_ne_none] using hp'
    have hstage : v.stage = v'.stage := h.answer v v' hv hv' ha ha'
    rcases Viewer.proceed_cases hproceed with ⟨x, hx, rfl, rfl⟩ | ⟨x, hx, rfl, rfl⟩ | ⟨hnone, _⟩
    · have hsame : v'.proceed s'.hub =
          some (s'.hub.remember x, { v' with stage := .announcing x }) := by
        simp only [Viewer.proceed, ← hstage, hx]
      obtain ⟨rfl, rfl⟩ := Prod.mk.inj (Option.some.inj (hproceed'.symm.trans hsame))
      exact h.both hv hv' (congrArg (Hub.remember x) h.hub) rfl
    · have hsame : v'.proceed s'.hub =
          some (s'.hub.announceState x, { v' with stage := .live }) := by
        simp only [Viewer.proceed, ← hstage, hx]
      obtain ⟨rfl, rfl⟩ := Prod.mk.inj (Option.some.inj (hproceed'.symm.trans hsame))
      exact h.both hv hv' (congrArg (Hub.announceState x) h.hub) rfl
    · rw [hnone] at ha
      cases ha
  · obtain ⟨v, hub, u, l, hv, hlive, hr, rfl⟩ := step_receive_iff.mp hs
    obtain ⟨v', hub', u', l', hv', hlive', hr', rfl⟩ := step_receive_iff.mp hs'
    have hx : x.isControl = true := by simpa [isPrivate] using hp
    obtain ⟨answer, next, heq⟩ := Viewer.receive_control w hx s.listener
    rw [heq, Prod.mk.injEq, Prod.mk.injEq] at hr
    rw [← h.listener, heq, Prod.mk.injEq, Prod.mk.injEq] at hr'
    obtain ⟨rfl, rfl, rfl⟩ := hr
    obtain ⟨rfl, rfl, rfl⟩ := hr'
    exact (h.withListener next).both hv hv' h.hub (by rw [hlive, hlive'])

/-- What is done by another connection. -/
theorem Agree.step_other (h : Agree n s s') (hm : m ≠ n)
    (ha : a = .proceed m ∨ a = .dequeue m ∨ (∃ x, a = .receive m x) ∨ a = .hearStop m ∨ a = .lose m)
    (hs : s.step w a = some t) (hs' : s'.step w a = some t') : Agree n t t' := by
  have hsame : ∀ {v v' : Viewer}, s.viewer? m = some v → s'.viewer? m = some v' → v = v' := by
    intro v v' hv hv'
    exact Option.some.inj (hv.symm.trans ((h.others m hm).trans hv'))
  rcases ha with rfl | rfl | ⟨x, rfl⟩ | rfl | rfl
  · obtain ⟨v, ⟨hub, u⟩, hv, hproceed, rfl⟩ := step_proceed_iff.mp hs
    obtain ⟨v', ⟨hub', u'⟩, hv', hproceed', rfl⟩ := step_proceed_iff.mp hs'
    obtain rfl := hsame hv hv'
    have heq := Hub.eq_of_anonymous (fun hub => (v.proceed hub).map fun o => (o.1.anonymous, o.2))
      (fun hub => v.proceed_anonymous hub) h.hub
    rw [hproceed, hproceed'] at heq
    obtain ⟨hhub, rfl⟩ := Prod.mk.inj (Option.some.inj heq)
    exact h.other hm hhub u
  · obtain ⟨v, u, hv, hd, rfl⟩ := step_dequeue_iff.mp hs
    obtain ⟨v', u', hv', hd', rfl⟩ := step_dequeue_iff.mp hs'
    obtain rfl := hsame hv hv'
    have heq : v.dequeue s.hub = v.dequeue s'.hub :=
      Hub.eq_of_anonymous (fun hub => v.dequeue hub) (fun _ => rfl) h.hub
    obtain rfl := Option.some.inj (hd.symm.trans (heq.trans hd'))
    exact h.other hm h.hub u
  · obtain ⟨v, hub, u, l, hv, _, hr, rfl⟩ := step_receive_iff.mp hs
    obtain ⟨v', hub', u', l', hv', _, hr', rfl⟩ := step_receive_iff.mp hs'
    obtain rfl := hsame hv hv'
    have heq := Hub.eq_of_anonymous (fun hub => ((v.receive w x hub s.listener).1.anonymous,
      (v.receive w x hub s.listener).2)) (fun hub => v.receive_anonymous w x hub s.listener) h.hub
    rw [← h.listener] at hr'
    rw [hr, hr', Prod.mk.injEq, Prod.mk.injEq] at heq
    obtain ⟨hhub, rfl, rfl⟩ := heq
    exact (h.withListener l).other hm hhub u
  · obtain ⟨v, hv, _, rfl⟩ := step_hearStop hs
    obtain ⟨v', hv', _, rfl⟩ := step_hearStop hs'
    obtain rfl := hsame hv hv'
    have hhub : (s.hub.removeClient v.id).anonymous = (s'.hub.removeClient v.id).anonymous := h.hub
    exact h.other hm hhub _
  · obtain ⟨v, hv, rfl⟩ := step_lose hs
    obtain ⟨v', hv', rfl⟩ := step_lose hs'
    obtain rfl := hsame hv hv'
    have hhub : (s.hub.removeClient v.id).anonymous = (s'.hub.removeClient v.id).anonymous := h.hub
    exact h.other hm hhub _

/-- What both do that is not private to viewer `n`. -/
theorem Agree.step (h : Agree n s s') (hs : s.step w a = some t) (hs' : s'.step w a = some t')
    (hp : s.isPrivate n a = false) (hp' : s'.isPrivate n a = false) : Agree n t t' := by
  cases a with
  | connect =>
    have hid : s.hub.enterClient.1 = s'.hub.enterClient.1 :=
      Hub.eq_of_anonymous (fun hub => hub.enterClient.1) (fun _ => rfl) h.hub
    have hhub : s.hub.enterClient.2.anonymous = s'.hub.enterClient.2.anonymous :=
      congrArg (fun hub : Hub => { hub with nextClient := hub.nextClient + 1 }) h.hub
    simp only [Server.step] at hs hs'
    split at hs
    · cases hs
    split at hs'
    · cases hs'
    obtain rfl := Option.some.inj hs
    obtain rfl := Option.some.inj hs'
    rw [← hid]
    exact (h.withHub hhub).connected _
  | proceed m =>
    by_cases hm : m = n
    · exact h.step_own (hm ▸ Or.inl rfl) hs hs' hp hp'
    · exact h.step_other hm (Or.inl rfl) hs hs'
  | receive m x =>
    by_cases hm : m = n
    · exact h.step_own (hm ▸ Or.inr ⟨x, rfl⟩) hs hs' hp hp'
    · exact h.step_other hm (Or.inr (Or.inr (Or.inl ⟨x, rfl⟩))) hs hs'
  | dequeue m =>
    exact h.step_other (of_decide_eq_false hp) (Or.inr (Or.inl rfl)) hs hs'
  | hearStop m =>
    exact h.step_other (of_decide_eq_false hp) (Or.inr (Or.inr (Or.inr (Or.inl rfl)))) hs hs'
  | lose m =>
    exact h.step_other (of_decide_eq_false hp) (Or.inr (Or.inr (Or.inr (Or.inr rfl)))) hs hs'
  | time i =>
    cases hs
    cases hs'
    exact h.withHub (congrArg (Sink.time i) h.hub)
  | state x =>
    cases hs
    cases hs'
    exact h.withHub (congrArg (Hub.publishState x) h.hub)
  | log id payload i =>
    cases hs
    cases hs'
    exact h.withHub (congrArg (Sink.log id payload i) h.hub)
  | enter c =>
    have htopic : s.hub.topicId? c.topic = s'.hub.topicId? c.topic :=
      Hub.eq_of_anonymous (fun hub => hub.topicId? c.topic) (fun _ => rfl) h.hub
    have hadvertised : (s.hub.enterChannel c).1 = (s'.hub.enterChannel c).1 :=
      Hub.eq_of_anonymous (fun hub => (hub.enterChannel c).1) (fun _ => rfl) h.hub
    have hhub : (s.hub.enterChannel c).2.anonymous = (s'.hub.enterChannel c).2.anonymous :=
      congrArg (fun hub : Hub => (hub.enterChannel c).2) h.hub
    simp only [Server.step] at hs hs'
    split at hs
    · cases hs
    split at hs'
    · cases hs'
    cases hfound : s.hub.topicId? c.topic with
    | some id =>
      simp only [hfound, ← htopic, Option.some.injEq] at hs hs'
      exact hs ▸ hs' ▸ h
    | none =>
      simp only [hfound, ← htopic, Option.some.injEq] at hs hs'
      obtain rfl := hs
      obtain rfl := hs'
      rw [← hadvertised]
      exact (h.withHub hhub).withEntered _
  | announce =>
    simp only [Server.step, Option.map_eq_some_iff] at hs hs'
    obtain ⟨x, hx, rfl⟩ := hs
    obtain ⟨x', hx', rfl⟩ := hs'
    obtain rfl := Option.some.inj (hx.symm.trans (h.entered.trans hx'))
    have hhub : (s.hub.announceChannel x).anonymous = (s'.hub.announceChannel x).anonymous :=
      congrArg (Hub.announceChannel x) h.hub
    exact (h.withHub hhub).withEntered none
  | stop =>
    cases hs
    cases hs'
    exact h.withHub (congrArg Hub.stop h.hub)

/-- A step that is not shared leaves what the others see. -/
theorem Agree.occur_left (h : Agree n s s') {o : Occurrence ℓ} (ho : s.isShared n o = false) :
    Agree n (s.occur o) s' := by
  cases o with
  | turn t => cases ho
  | act w a =>
    cases hs : s.step w a with
    | none => simpa [occur, hs] using h
    | some t =>
      have hp : s.isPrivate n a = true := by simpa [isShared, hs] using ho
      obtain ⟨v, hub, v', hv, rfl, hhub, hnone⟩ := step_private hp hs
      simpa [occur, hs] using h.own hv hhub hnone

/-- What is shared takes servers that agree to servers that agree. -/
theorem Agree.occur_both (h : Agree n s s') {o : Occurrence ℓ} (ho : s.isShared n o = true)
    (ho' : s'.isShared n o = true) : Agree n (s.occur o) (s'.occur o) := by
  cases o with
  | turn t =>
    have heq := Hub.eq_of_anonymous (fun hub => ((t.run s.listener hub).1,
      (t.run s.listener hub).2.anonymous)) (t.oblivious s.listener) h.hub
    obtain ⟨hlistener, hhub⟩ := Prod.mk.inj heq
    have hafter := (h.withListener (t.run s.listener s.hub).1).withHub hhub
    simpa [occur, ← h.listener, hlistener] using hafter
  | act w a =>
    simp only [isShared, Bool.and_eq_true, Option.isSome_iff_exists, Bool.not_eq_true'] at ho ho'
    obtain ⟨⟨t, hs⟩, hp⟩ := ho
    obtain ⟨⟨t', hs'⟩, hp'⟩ := ho'
    simpa [occur, hs, hs'] using h.step hs hs' hp hp'

theorem agree_of_shared_nil (h : Agree n s s') {os : List (Occurrence ℓ)}
    (hnil : s'.shared n os = []) : Agree n s (s'.occurAll os) := by
  induction os generalizing s' with
  | nil => exact h
  | cons o os ih =>
    simp only [shared, List.append_eq_nil_iff, ite_eq_right_iff, reduceCtorEq, imp_false,
      Bool.not_eq_true] at hnil
    exact ih (h.symm.occur_left hnil.1).symm hnil.2

/-- Where a run does the first thing that is shared. -/
theorem shared_eq_cons {o : Occurrence ℓ} {os rest : List (Occurrence ℓ)}
    (h : s.shared n os = o :: rest) : ∃ before after, os = before ++ o :: after ∧
      s.shared n before = [] ∧ (s.occurAll before).isShared n o = true ∧
      ((s.occurAll before).occur o).shared n after = rest := by
  induction os generalizing s with
  | nil => cases h
  | cons p os ih =>
    rw [shared] at h
    by_cases hp : s.isShared n p = true
    · rw [if_pos hp, List.singleton_append, List.cons.injEq] at h
      obtain ⟨rfl, hrest⟩ := h
      exact ⟨[], os, rfl, rfl, hp, hrest⟩
    · rw [if_neg hp, List.nil_append] at h
      obtain ⟨before, after, rfl, hnil, ho, hrest⟩ := ih h
      exact ⟨p :: before, after, rfl, by rw [shared, if_neg hp, hnil]; rfl, ho, hrest⟩

theorem occurAll_append (s : Server ℓ) (os os' : List (Occurrence ℓ)) :
    s.occurAll (os ++ os') = (s.occurAll os).occurAll os' :=
  List.foldl_append

/-- Runs in which the same happens but for what is private to viewer `n`. -/
theorem agree_of_shared_eq (h : Agree n s s') {os os' : List (Occurrence ℓ)}
    (heq : s.shared n os = s'.shared n os') : Agree n (s.occurAll os) (s'.occurAll os') := by
  induction os generalizing s s' os' with
  | nil => exact agree_of_shared_nil h heq.symm
  | cons o os ih =>
    rw [shared] at heq
    by_cases ho : s.isShared n o = true
    · rw [if_pos ho, List.singleton_append] at heq
      obtain ⟨before, after, rfl, hnil, ho', hrest⟩ := shared_eq_cons heq.symm
      have hbefore := agree_of_shared_nil h hnil
      rw [occurAll_append]
      exact ih (hbefore.occur_both ho ho') hrest.symm
    · rw [if_neg ho, List.nil_append] at heq
      exact ih (h.occur_left (Bool.not_eq_true _ ▸ ho)) heq

/-- To publish an answer is to remember it or to announce it, and sends the viewer nothing else. -/
theorem step_answer {v : Viewer} {y : State} (hv : s.viewer? n = some v)
    (hy : v.stage.toAnnounce? = some y) (hs : s.step w (.proceed n) = some t) :
    ∃ hub stage, t = s.update n (hub, { v with stage }) ∧
      (hub = s.hub.remember y ∨ hub = s.hub.announceState y) := by
  obtain ⟨u, ⟨hub, u'⟩, hu, hproceed, rfl⟩ := step_proceed_iff.mp hs
  obtain rfl := Option.some.inj (hv.symm.trans hu)
  rcases Viewer.proceed_cases hproceed with ⟨x, hx, rfl, rfl⟩ | ⟨x, hx, rfl, rfl⟩ | ⟨hnone, _⟩
  · rw [hx] at hy
    obtain rfl := Option.some.inj hy
    exact ⟨_, _, rfl, Or.inl rfl⟩
  · rw [hx] at hy
    obtain rfl := Option.some.inj hy
    exact ⟨_, _, rfl, Or.inr rfl⟩
  · rw [hnone] at hy
    cases hy

/-- Viewers cannot disturb each other. Take two runs in which the same happens but for what is
private to viewer `n`: its own steps and the end of its connection, and all it sends that is no
request. Then all other viewers are sent the same, and feed, channels, last state and listener, the
player with its loop, are the same. What viewer `n` sends as text or bytes is always handled: no
other connection changes, nothing is told to others, and to the viewer at most one warning; what an
answer to it adds is the state. -/
theorem viewers_cannot_disturb (n : Nat) (s : Server ℓ) :
    (∀ os os' : List (Occurrence ℓ), s.shared n os = s.shared n os' →
      let t := s.occurAll os
      let t' := s.occurAll os'
      (∀ m, m ≠ n → t.viewer? m = t'.viewer? m) ∧ t.hub.feed = t'.hub.feed ∧
        t.hub.channels = t'.hub.channels ∧ t.hub.lastState = t'.hub.lastState ∧
        t.listener = t'.listener) ∧
    (∀ w x v, x ≠ .close → s.viewer? n = some v → v.stage = .live →
      ∃ v' l', s.step w (.receive n x) = some ({ s with listener := l' }.update n (s.hub, v')) ∧
        v.Handled s.hub x v' s.listener l') ∧
    (∀ w v y t, s.viewer? n = some v → v.stage.toAnnounce? = some y →
      s.step w (.proceed n) = some t → ∃ hub stage, t = s.update n (hub, { v with stage }) ∧
        (hub = s.hub.remember y ∨ hub = s.hub.announceState y)) := by
  refine ⟨?_, ?_, fun _ _ _ _ hv hy hs => step_answer hv hy hs⟩
  · intro os os' heq t t'
    have h : Agree n t t' := agree_of_shared_eq (.refl n s) heq
    exact ⟨h.others, Hub.eq_of_anonymous Hub.feed (fun _ => rfl) h.hub,
      Hub.eq_of_anonymous Hub.channels (fun _ => rfl) h.hub,
      Hub.eq_of_anonymous Hub.lastState (fun _ => rfl) h.hub, h.listener⟩
  · intro w x v hx hv hlive
    obtain ⟨v', l', hr, hhandled⟩ := Viewer.handled (h := s.hub) (w := w) (l := s.listener) hlive hx
    exact ⟨v', l', step_receive_iff.mpr ⟨v, s.hub, v', l', hv, hlive, hr, rfl⟩, hhandled⟩

end Server

namespace Pacing

/-- A player, and where the loop that drives it stands. -/
structure Driven where
  player : Player
  wasEnded : Bool
  stage : Stage
  deriving DecidableEq

instance : Listener Driven where
  answer w r d :=
    let (state, p) := Source.apply w r d.player
    (some state, { d with player := p })

/-- The next section of the loop, with a hub as its sink. -/
def Driven.turn (w : World) : Server.Turn Driven where
  run d h :=
    let x := (⟨d.player, h, d.wasEnded, d.stage⟩ : Playback Player Hub).step (.loop w)
    (⟨x.source, x.wasEnded, x.stage⟩, x.sink)
  oblivious d h := by
    have hf := Traced.map_carries Hub.anonymous_carries
    cases hs : d.stage with
    | look =>
      have hlook : look d.wasEnded d.player (⟨h.anonymous, []⟩ : Traced Hub) = _ :=
        look_carried hf d.wasEnded d.player ⟨h, []⟩
      simp only [Playback.step, Playback.act, hlook]
      rfl
    | read =>
      have hlog : d.player.logNext w (⟨h.anonymous, []⟩ : Traced Hub) = _ :=
        Player.logNext_carried hf w d.player ⟨h, []⟩
      simp only [Playback.step, Playback.act, Source.logNext, hlog]
      rfl
    | failed e => rfl

end Pacing

namespace Server

open Pacing

def inSample (as : List Action) : List (Occurrence Driven) :=
  as.map (.act ⟨4, Recording.sampleDisk⟩ ·)

def sampleServer : Server Driven := start sampleInfo 8 ⟨Player.samplePlayer, false, .look⟩

/-- Two viewers are connected and live. -/
def sampleArrivals : List (Occurrence Driven) :=
  inSample ([.connect, .connect] ++ List.replicate 7 (.proceed 0) ++ List.replicate 7 (.proceed 1))

/-- A request of the first viewer is handled and its answer published, and a message is played. -/
def samplePlayed : List (Occurrence Driven) :=
  inSample [.receive 0 (History.sampleRequest "play"), .proceed 0, .proceed 0] ++
    List.replicate 2 (.turn (Driven.turn ⟨4, Recording.sampleDisk⟩)) ++
    inSample [.dequeue 1, .dequeue 1, .dequeue 1]

def sampleUnknown : Incoming := .text "\x7b\"op\":\"subscribe\",\"channelIds\":[9,7]\x7d"

/-- The first viewer sends other frames before its request, and closes its connection after it. -/
def sampleNoisy : List (Occurrence Driven) :=
  sampleArrivals ++
    inSample [.receive 0 (.binary [1]), .receive 0 (.text "stop"), .receive 0 sampleUnknown] ++
    samplePlayed ++ inSample [.receive 0 .close]

def sampleGreeted : Viewer := ⟨1, .live, 0, 0, [], [.message (.serverInfo sampleInfo)]⟩

def sampleAnswer : State := ⟨3, Binary64.ofNat 1, .playing, false, none⟩

theorem sample_undisturbed :
    let t := sampleServer.occurAll sampleNoisy
    let t' := sampleServer.occurAll (sampleArrivals ++ samplePlayed)
    let s := sampleServer.occurAll sampleArrivals
    let r := sampleServer.occurAll
      (sampleArrivals ++ inSample [.receive 0 (History.sampleRequest "play")])
    let v := { sampleGreeted with stage := .remembering sampleAnswer }
    sampleServer.shared 0 sampleNoisy = sampleServer.shared 0 (sampleArrivals ++ samplePlayed) ∧
    t.viewer? 1 = t'.viewer? 1 ∧ t.listener = t'.listener ∧
    ((t.viewer? 1).map (·.sent.length) = some 3 ∧ t.hub.channels.length = 1 ∧
      (t.viewer? 0).map (·.stage) = some .gone ∧ (t'.viewer? 0).map (·.stage) = some .live) ∧
    s.viewer? 0 = some sampleGreeted ∧
    (∃ v' l', s.step ⟨4, Recording.sampleDisk⟩ (.receive 0 sampleUnknown) =
        some ({ s with listener := l' }.update 0 (s.hub, v')) ∧
      sampleGreeted.Handled s.hub sampleUnknown v' s.listener l') ∧
    r.viewer? 0 = some v ∧
    (∃ hub stage, r.update 0 (r.hub.remember sampleAnswer, { v with stage := .announcing sampleAnswer }) =
        r.update 0 (hub, { v with stage }) ∧
      (hub = r.hub.remember sampleAnswer ∨ hub = r.hub.announceState sampleAnswer)) := by
  intro t t' s r v
  have hnoisy : sampleServer.marks 0 sampleNoisy = [true, true] ++ List.replicate 7 false ++
      List.replicate 7 true ++ List.replicate 3 false ++ List.replicate 8 true ++ [false] := by
    decide +kernel
  have hplayed : sampleServer.marks 0 (sampleArrivals ++ samplePlayed) = [true, true] ++
      List.replicate 7 false ++ List.replicate 7 true ++ List.replicate 8 true := by
    decide +kernel
  have hshared : sampleServer.shared 0 sampleNoisy =
      sampleServer.shared 0 (sampleArrivals ++ samplePlayed) := by
    rw [shared_eq_marked, shared_eq_marked, hnoisy, hplayed]
    rfl
  have hgreeted : s.viewer? 0 = some sampleGreeted := by decide +kernel
  have hanswering : r.viewer? 0 = some v := by decide +kernel
  have hremember : r.step ⟨4, Recording.sampleDisk⟩ (.proceed 0) = some (r.update 0
      (r.hub.remember sampleAnswer, { v with stage := .announcing sampleAnswer })) :=
    step_proceed_iff.mpr ⟨v, _, hanswering, rfl, rfl⟩
  obtain ⟨hothers, _, _, _, hlistener⟩ :=
    (viewers_cannot_disturb 0 sampleServer).1 sampleNoisy (sampleArrivals ++ samplePlayed) hshared
  exact ⟨hshared, hothers 1 (by decide), hlistener, by decide +kernel, hgreeted,
    (viewers_cannot_disturb 0 s).2.1 _ sampleUnknown sampleGreeted nofun hgreeted rfl, hanswering,
    (viewers_cannot_disturb 0 r).2.2 _ v sampleAnswer _ hanswering rfl hremember⟩

end Server

end Replay
