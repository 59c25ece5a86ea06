import Replay.Pacing
import Replay.Proofs.Hub.Told
import Replay.Proofs.Server.Whole

/-!
The history of what a server publishes. A state is taken in a section, while the player is locked.
The pacing loop publishes it within its section; the answer to a request is remembered and announced
after the section, in two steps of the connection. Main statement: what an event can do to the
history (`step_moves`).
-/

namespace Replay

def Viewer.Stage.toRemember? : Viewer.Stage → Option State
  | .remembering x => some x
  | _ => none

def Viewer.Stage.toAnnounce? : Viewer.Stage → Option State
  | .remembering x => some x
  | .announcing x => some x
  | _ => none

namespace Viewer

variable {h h' : Hub} {v v' : Viewer}

/-- A step of a connection remembers an answer, or announces one, or has nothing to do with
answers. -/
theorem proceed_cases (hp : v.proceed h = some (h', v')) :
    (∃ x, v.stage = .remembering x ∧ h' = h.remember x ∧ v' = { v with stage := .announcing x }) ∨
    (∃ x, v.stage = .announcing x ∧ h' = h.announceState x ∧ v' = { v with stage := .live }) ∨
    (v.stage.toAnnounce? = none ∧ v'.stage.toAnnounce? = none ∧ h'.feed = h.feed ∧
      h'.lastState = h.lastState) := by
  unfold proceed at hp
  cases hstage : v.stage with
  | remembering x =>
    simp only [hstage, Option.some.injEq, Prod.mk.injEq] at hp
    exact Or.inl ⟨x, rfl, hp.1.symm, hp.2.symm⟩
  | announcing x =>
    simp only [hstage, Option.some.injEq, Prod.mk.injEq] at hp
    exact Or.inr (Or.inl ⟨x, rfl, hp.1.symm, hp.2.symm⟩)
  | listening =>
    simp only [hstage, Option.some.injEq] at hp
    split at hp <;> simp only [leave, Prod.mk.injEq] at hp <;> obtain ⟨rfl, rfl⟩ := hp <;>
      exact Or.inr (Or.inr ⟨rfl, rfl, rfl, rfl⟩)
  | catchingUp frames =>
    cases frames <;> simp only [hstage, Option.some.injEq, Prod.mk.injEq] at hp <;>
      obtain ⟨rfl, rfl⟩ := hp <;> exact Or.inr (Or.inr ⟨rfl, rfl, rfl, rfl⟩)
  | live => simp [hstage] at hp
  | gone => simp [hstage] at hp
  | arriving | attached | greeting | lookingUpChannels | lookingUpState =>
    simp only [hstage, Option.some.injEq, Prod.mk.injEq] at hp
    obtain ⟨rfl, rfl⟩ := hp
    exact Or.inr (Or.inr ⟨rfl, rfl, rfl, rfl⟩)

/-- What a viewer sends changes nothing that is told, but may leave an answer to be published. -/
theorem receive_cases {ℓ : Type} [Listener ℓ] {w : World} {x : Incoming} {l l' : ℓ}
    (hlive : v.stage = .live) (hr : v.receive w x h l = (h', v', l')) :
    h'.feed = h.feed ∧ h'.lastState = h.lastState ∧
      ((∃ y, v'.stage = .remembering y) ∨ v'.stage.toAnnounce? = none) := by
  have hnone : v.stage.toAnnounce? = none := by rw [hlive]; rfl
  have hsub : ∀ ids, (v.subscribe h ids).stage = v.stage := by
    intro ids
    unfold subscribe
    dsimp only
    split <;> rfl
  unfold receive at hr
  split at hr
  · simp only [leave, Prod.mk.injEq] at hr
    obtain ⟨rfl, rfl, _⟩ := hr
    exact ⟨rfl, rfl, Or.inr rfl⟩
  · simp only [Prod.mk.injEq] at hr
    obtain ⟨rfl, rfl, _⟩ := hr
    exact ⟨rfl, rfl, Or.inr hnone⟩
  · split at hr
    · simp only [Prod.mk.injEq] at hr
      obtain ⟨rfl, rfl, _⟩ := hr
      exact ⟨rfl, rfl, Or.inr hnone⟩
    · simp only [Prod.mk.injEq] at hr
      obtain ⟨rfl, rfl, _⟩ := hr
      exact ⟨rfl, rfl, Or.inr (hsub _ ▸ hnone)⟩
    · simp only [Prod.mk.injEq] at hr
      obtain ⟨rfl, rfl, _⟩ := hr
      exact ⟨rfl, rfl, Or.inr hnone⟩
    · split at hr <;> simp only [Prod.mk.injEq] at hr <;> obtain ⟨rfl, rfl, _⟩ := hr
      · exact ⟨rfl, rfl, Or.inl ⟨_, rfl⟩⟩
      · exact ⟨rfl, rfl, Or.inr hnone⟩

theorem dequeue_quiet (hd : v.dequeue h = some v') :
    v.stage.toAnnounce? = none ∧ v'.stage.toAnnounce? = none := by
  unfold dequeue at hd
  split at hd
  · rename_i hlive
    have hnone : v.stage.toAnnounce? = none := by rw [hlive]; rfl
    refine ⟨hnone, ?_⟩
    split at hd
    · cases hd
    · obtain rfl := Option.some.inj hd
      exact hnone
    · obtain rfl := Option.some.inj hd
      split <;> exact hnone
    · obtain rfl := Option.some.inj hd
      rfl
  · cases hd

end Viewer

namespace Server

open Hub

variable {ℓ : Type} {s : Server ℓ} {n : Nat}

def toRemember? (s : Server ℓ) (n : Nat) : Option State :=
  (s.viewer? n).bind (·.stage.toRemember?)

def toAnnounce? (s : Server ℓ) (n : Nat) : Option State :=
  (s.viewer? n).bind (·.stage.toAnnounce?)

theorem toAnnounce_of_toRemember {x : State} (h : s.toRemember? n = some x) :
    s.toAnnounce? n = some x := by
  obtain ⟨v, hv, hx⟩ := Option.bind_eq_some_iff.mp h
  refine Option.bind_eq_some_iff.mpr ⟨v, hv, ?_⟩
  unfold Viewer.Stage.toRemember? at hx
  split at hx
  · rename_i y hy
    rw [hy]
    exact hx
  · cases hx

/-- What is put into the feed by an action, which is one item at most. -/
def posted (h h' : Hub) : List Posting :=
  if h.feed.sent < h'.feed.sent then h'.feed.recent.getLast?.toList else []

theorem posted_of_feed_eq {h h' : Hub} (hfeed : h'.feed = h.feed) : posted h h' = [] := by
  rw [posted, hfeed, if_neg (Nat.lt_irrefl _)]

theorem posted_of_push {h h' : Hub} {p : Posting} (hfeed : h'.feed = h.feed.push p) :
    posted h h' = [p] := by
  have hlt : h.feed.sent < (h.feed.push p).sent := Nat.lt_succ_self _
  rw [posted, hfeed, if_pos hlt, Feed.getLast_recent_push]
  rfl

section

variable {v : Viewer} (hv : s.viewer? n = some v) (outcome : Hub × Viewer) (m : Nat)

include hv

theorem bind_viewer_update (f : Viewer → Option State) :
    ((s.update n outcome).viewer? m).bind f =
      if m = n then f outcome.2 else (s.viewer? m).bind f := by
  by_cases hm : m = n
  · rw [if_pos hm, hm, viewer_update hv, Option.bind_some]
  · have hsame : (s.update n outcome).viewer? m = s.viewer? m :=
      List.getElem?_set_ne (Ne.symm hm)
    rw [if_neg hm, hsame]

theorem toRemember_update : (s.update n outcome).toRemember? m =
    if m = n then outcome.2.stage.toRemember? else s.toRemember? m :=
  bind_viewer_update hv outcome m _

theorem toAnnounce_update : (s.update n outcome).toAnnounce? m =
    if m = n then outcome.2.stage.toAnnounce? else s.toAnnounce? m :=
  bind_viewer_update hv outcome m _

end

/-- What neither takes a snapshot nor publishes one. -/
structure Quiet (s s' : Server ℓ) : Prop where
  toRemember : ∀ n, s'.toRemember? n = s.toRemember? n
  toAnnounce : ∀ n, s'.toAnnounce? n = s.toAnnounce? n
  lastState : s'.hub.lastState = s.hub.lastState
  feed : s'.hub.feed = s.hub.feed ∨ ∃ p, s'.hub.feed = s.hub.feed.push p ∧ p.content.states = []

theorem toRemember_of_toAnnounce (h : s.toAnnounce? n = none) : s.toRemember? n = none := by
  cases hx : s.toRemember? n with
  | none => rfl
  | some x => exact absurd (h ▸ toAnnounce_of_toRemember hx) nofun

theorem quiet_update {v : Viewer} (hv : s.viewer? n = some v) (hbefore : v.stage.toAnnounce? = none)
    {hub : Hub} {v' : Viewer} (hafter : v'.stage.toAnnounce? = none)
    (hfeed : hub.feed = s.hub.feed) (hlast : hub.lastState = s.hub.lastState) :
    Quiet s (s.update n (hub, v')) := by
  have hnone : s.toAnnounce? n = none := by rw [toAnnounce?, hv, Option.bind_some, hbefore]
  have hnone' : (s.update n (hub, v')).toAnnounce? n = none := by
    rw [toAnnounce_update hv, if_pos rfl, hafter]
  refine ⟨?_, ?_, hlast, Or.inl hfeed⟩
  · intro m
    by_cases hm : m = n
    · rw [hm, toRemember_of_toAnnounce hnone, toRemember_of_toAnnounce hnone']
    · rw [toRemember_update hv, if_neg hm]
  · intro m
    by_cases hm : m = n
    · rw [hm, hnone, hnone']
    · rw [toAnnounce_update hv, if_neg hm]

theorem bind_getElem_concat {f : Viewer → Option State} {v : Viewer} (hv : f v = none)
    (vs : List Viewer) (m : Nat) : (vs ++ [v])[m]?.bind f = vs[m]?.bind f := by
  rcases Nat.lt_trichotomy m vs.length with hlt | rfl | hgt
  · rw [List.getElem?_append_left hlt]
  · rw [List.getElem?_concat_length, List.getElem?_eq_none (Nat.le_refl _), Option.bind_some, hv,
      Option.bind_none]
  · have hout : (vs ++ [v]).length ≤ m := by
      rw [List.length_append, List.length_singleton]
      exact hgt
    rw [List.getElem?_eq_none hout, List.getElem?_eq_none (Nat.le_of_lt hgt)]

end Server

/-- A server in use, with the history of what was published. A section is known by its number. -/
structure History (π : Type) where
  server : Server π
  /-- Whether the loop found the playback ended when it looked last. -/
  wasEnded : Bool
  /-- The snapshots that were taken to be published, one in each section. -/
  sections : List State
  /-- The section that the answer of a connection comes from. -/
  held : Nat → Nat
  /-- The sections in the order in which their snapshots were remembered. -/
  remembered : List Nat
  /-- The sections in the order in which their snapshots were announced. -/
  announced : List Nat
  /-- All that was put into the feed. -/
  enqueued : List Hub.Posting

/-- What happens to a server and to the player that it shares with the pacing loop. -/
inductive History.Event (π : Type) where
  | act (w : World) (a : Server.Action)
  /-- The first section of a turn of the loop. -/
  | look
  /-- The second section of a turn. It reads on, and what it gives to the sink are actions of their
  own. -/
  | read (f : π → π)

namespace History

open Server Hub

variable {π : Type}

def start (s : Server π) : History π where
  server := s
  wasEnded := false
  sections := []
  held _ := 0
  remembered := []
  announced := []
  enqueued := []

def lastAnnounced (t : History π) : Option State :=
  (t.enqueued.flatMap (·.content.states)).getLast?

/-- No connection has an answer to publish. -/
def Rests (t : History π) : Prop := ∀ v ∈ t.server.viewers, v.stage.toAnnounce? = none

instance (t : History π) : Decidable t.Rests :=
  inferInstanceAs (Decidable (∀ v ∈ t.server.viewers, v.stage.toAnnounce? = none))

/-- The snapshot of the most recent section is remembered, and it is the state announced last. -/
def NewestDisplayed (t : History π) : Prop :=
  t.server.hub.lastState = t.sections.getLast? ∧ t.lastAnnounced = t.sections.getLast?

instance (t : History π) : Decidable t.NewestDisplayed :=
  inferInstanceAs (Decidable (_ ∧ _))

def goOn (s : Server π) (t : History π) : History π :=
  { t with server := s, enqueued := t.enqueued ++ posted t.server.hub s.hub }

/-- A section that publishes what it takes itself. -/
def publishing (x : State) (t : History π) : History π :=
  { t with
    sections := t.sections ++ [x]
    remembered := t.remembered ++ [t.sections.length]
    announced := t.announced ++ [t.sections.length] }

/-- A section whose snapshot a connection is to publish. -/
def answering (n : Nat) (x : State) (t : History π) : History π :=
  { t with
    sections := t.sections ++ [x]
    held := fun m => if m = n then t.sections.length else t.held m }

def remembering (n : Nat) (t : History π) : History π :=
  { t with remembered := t.remembered ++ [t.held n] }

def announcing (n : Nat) (t : History π) : History π :=
  { t with announced := t.announced ++ [t.held n] }

/-- What an action that leads to `s` adds to the history. -/
def note (a : Action) (s : Server π) (t : History π) : History π :=
  match a with
  | .state x => t.publishing x
  | .receive n _ =>
    match s.toAnnounce? n with
    | some x => t.answering n x
    | none => t
  | .proceed n =>
    if (t.server.toRemember? n).isSome then t.remembering n
    else if (t.server.toAnnounce? n).isSome then t.announcing n
    else t
  | _ => t

/-- Whether an action ends a connection that has an answer to publish. This does not happen: such a
connection waits for nothing. -/
def cutsOff (a : Action) (s : Server π) : Bool :=
  match a with
  | .lose n => (s.toAnnounce? n).isSome
  | _ => false

variable [Source π]

def step (e : Event π) (t : History π) : History π :=
  match e with
  | .act w a =>
    if cutsOff a t.server then t
    else match t.server.step w a with
      | none => t
      | some s => (t.note a s).goOn s
  | .look =>
    let (_, wasEnded, hub) := Pacing.look t.wasEnded t.server.listener t.server.hub
    let t := { t with wasEnded }
    -- the section publishes if the feed has grown
    if hub.feed.sent = t.server.hub.feed.sent then t.goOn { t.server with hub }
    else (t.publishing (Source.snapshot false none t.server.listener)).goOn { t.server with hub }
  | .read f => t.goOn { t.server with listener := f t.server.listener }

def run (es : List (Event π)) (t : History π) : History π := es.foldl (fun t e => t.step e) t

/-- What an event can do: nothing about states; a section that publishes; a section whose snapshot
is left to a connection; or a connection remembers its snapshot, or announces it. -/
inductive Moves (t : History π) : History π → Prop where
  | quiet (s : Server π) (hq : Quiet t.server s) : Moves t (t.goOn s)
  | publishing (s : Server π) (x : State)
      (hr : ∀ m, s.toRemember? m = t.server.toRemember? m)
      (ha : ∀ m, s.toAnnounce? m = t.server.toAnnounce? m)
      (hlast : s.hub.lastState = some x)
      (hfeed : s.hub.feed = t.server.hub.feed.push (.everyone (.message (.state x)))) :
      Moves t ((t.publishing x).goOn s)
  | answering (s : Server π) (n : Nat) (x : State) (hnone : t.server.toAnnounce? n = none)
      (hr : ∀ m, s.toRemember? m = if m = n then some x else t.server.toRemember? m)
      (ha : ∀ m, s.toAnnounce? m = if m = n then some x else t.server.toAnnounce? m)
      (hlast : s.hub.lastState = t.server.hub.lastState)
      (hfeed : s.hub.feed = t.server.hub.feed) : Moves t ((t.answering n x).goOn s)
  | remembering (s : Server π) (n : Nat) (x : State) (hx : t.server.toRemember? n = some x)
      (hr : ∀ m, s.toRemember? m = if m = n then none else t.server.toRemember? m)
      (ha : ∀ m, s.toAnnounce? m = t.server.toAnnounce? m)
      (hlast : s.hub.lastState = some x) (hfeed : s.hub.feed = t.server.hub.feed) :
      Moves t ((t.remembering n).goOn s)
  | announcing (s : Server π) (n : Nat) (x : State) (hx : t.server.toAnnounce? n = some x)
      (hr : ∀ m, s.toRemember? m = t.server.toRemember? m)
      (ha : ∀ m, s.toAnnounce? m = if m = n then none else t.server.toAnnounce? m)
      (hlast : s.hub.lastState = t.server.hub.lastState)
      (hfeed : s.hub.feed = t.server.hub.feed.push (.everyone (.message (.state x)))) :
      Moves t ((t.announcing n).goOn s)

variable {t : History π} {s : Server π} {w : World}

theorem moves_act {a : Action} (hcut : cutsOff a t.server = false)
    (hs : t.server.step w a = some s) : Moves t ((t.note a s).goOn s) := by
  have hquiet : ∀ p : Posting, p.content.states = [] → ∀ hub : Hub,
      hub.feed = t.server.hub.feed.push p → hub.lastState = t.server.hub.lastState →
      Quiet t.server { t.server with hub } :=
    fun p hp hub hfeed hlast => ⟨fun _ => rfl, fun _ => rfl, hlast, Or.inr ⟨p, hfeed, hp⟩⟩
  cases a with
  | connect =>
    simp only [Server.step] at hs
    split at hs
    · cases hs
    · obtain rfl := Option.some.inj hs
      exact Moves.quiet _ ⟨bind_getElem_concat rfl _, bind_getElem_concat rfl _, rfl, Or.inl rfl⟩
  | proceed n =>
    obtain ⟨v, ⟨hub, v'⟩, hv, hp, rfl⟩ := step_proceed_iff.mp hs
    rcases Viewer.proceed_cases hp with ⟨x, hstage, rfl, rfl⟩ | ⟨x, hstage, rfl, rfl⟩ |
      ⟨hbefore, hafter, hfeed, hlast⟩
    · have hx : t.server.toRemember? n = some x := by
        rw [toRemember?, hv, Option.bind_some, hstage]
        rfl
      rw [note, hx]
      refine Moves.remembering _ n x hx (toRemember_update hv _) ?_ rfl rfl
      intro m
      rw [toAnnounce_update hv]
      split
      · rename_i hm
        exact hm ▸ (toAnnounce_of_toRemember hx).symm
      · rfl
    · have hr : t.server.toRemember? n = none := by
        rw [toRemember?, hv, Option.bind_some, hstage]
        rfl
      have hx : t.server.toAnnounce? n = some x := by
        rw [toAnnounce?, hv, Option.bind_some, hstage]
        rfl
      rw [note, hr, hx]
      refine Moves.announcing _ n x hx ?_ (toAnnounce_update hv _) rfl rfl
      intro m
      rw [toRemember_update hv]
      split
      · rename_i hm
        exact hm ▸ hr.symm
      · rfl
    · have hnone : t.server.toAnnounce? n = none := by
        rw [toAnnounce?, hv, Option.bind_some, hbefore]
      rw [note, hnone, toRemember_of_toAnnounce hnone]
      exact Moves.quiet _ (quiet_update hv hbefore hafter hfeed hlast)
  | dequeue n =>
    obtain ⟨v, v', hv, hd, rfl⟩ := (step_dequeue_iff (w := w)).mp hs
    obtain ⟨hbefore, hafter⟩ := Viewer.dequeue_quiet hd
    exact Moves.quiet _ (quiet_update hv hbefore hafter rfl rfl)
  | receive n i =>
    obtain ⟨v, hub, v', l', hv, hlive, hr, rfl⟩ := step_receive_iff.mp hs
    have hbefore : v.stage.toAnnounce? = none := by rw [hlive]; rfl
    have hnone : t.server.toAnnounce? n = none := by
      rw [toAnnounce?, hv, Option.bind_some, hbefore]
    obtain ⟨hfeed, hlast, hafter⟩ := Viewer.receive_cases hlive hr
    have hx : ({ t.server with listener := l' }.update n (hub, v')).toAnnounce? n =
        v'.stage.toAnnounce? := by
      rw [toAnnounce_update (s := { t.server with listener := l' }) hv, if_pos rfl]
    rcases hafter with ⟨x, hstage⟩ | hafter
    · rw [hstage] at hx
      rw [note, hx]
      refine Moves.answering _ n x hnone ?_ ?_ hlast hfeed
      · intro m
        rw [toRemember_update (s := { t.server with listener := l' }) hv, hstage]
        rfl
      · intro m
        rw [toAnnounce_update (s := { t.server with listener := l' }) hv, hstage]
        rfl
    · rw [hafter] at hx
      rw [note, hx]
      have hq := quiet_update (s := { t.server with listener := l' }) hv hbefore hafter hfeed hlast
      exact Moves.quiet _ ⟨hq.toRemember, hq.toAnnounce, hq.lastState, hq.feed⟩
  | hearStop n =>
    obtain ⟨v, hv, hlive, rfl⟩ := step_hearStop hs
    exact Moves.quiet _ (quiet_update hv (by rw [hlive]; rfl) rfl rfl rfl)
  | lose n =>
    obtain ⟨v, hv, rfl⟩ := step_lose hs
    have hnone : v.stage.toAnnounce? = none := by
      simpa [cutsOff, toAnnounce?, hv] using hcut
    exact Moves.quiet _ (quiet_update hv hnone rfl rfl rfl)
  | time i =>
    obtain rfl := Option.some.inj hs
    exact Moves.quiet _ (hquiet (.everyone (.frame (.time i))) rfl _ rfl rfl)
  | state x =>
    obtain rfl := Option.some.inj hs
    exact Moves.publishing _ x (fun _ => rfl) (fun _ => rfl) rfl rfl
  | log id payload i =>
    obtain rfl := Option.some.inj hs
    exact Moves.quiet _ (hquiet (.subscribers id (.frame (.message id i payload))) rfl _ rfl rfl)
  | enter c =>
    simp only [Server.step] at hs
    split at hs
    · cases hs
    · split at hs <;> obtain rfl := Option.some.inj hs <;>
        exact Moves.quiet _ ⟨fun _ => rfl, fun _ => rfl, rfl, Or.inl rfl⟩
  | announce =>
    obtain ⟨a, _, rfl⟩ := Option.map_eq_some_iff.mp hs
    refine Moves.quiet _ ⟨fun _ => rfl, fun _ => rfl, rfl, Or.inr ⟨_, rfl, rfl⟩⟩
  | stop =>
    obtain rfl := Option.some.inj hs
    exact Moves.quiet _ ⟨fun _ => rfl, fun _ => rfl, rfl, Or.inl rfl⟩

theorem look_cases (wasEnded : Bool) (p : π) (hub : Hub) :
    (Pacing.look wasEnded p hub).2.2 = hub ∨
      (Pacing.look wasEnded p hub).2.2 = hub.publishState (Source.snapshot false none p) := by
  simp only [Pacing.look]
  split
  · exact Or.inr rfl
  · exact Or.inl rfl

theorem moves_look : ∃ wasEnded, Moves { t with wasEnded } (t.step .look) := by
  refine ⟨(Pacing.look t.wasEnded t.server.listener t.server.hub).2.1, ?_⟩
  simp only [step]
  rcases look_cases t.wasEnded t.server.listener t.server.hub with hsame | hpublish
  · rw [hsame, if_pos rfl]
    exact .quiet _ ⟨fun _ => rfl, fun _ => rfl, rfl, Or.inl rfl⟩
  · have hgrown : ∀ x, (t.server.hub.publishState x).feed.sent ≠ t.server.hub.feed.sent :=
      fun _ => Nat.succ_ne_self _
    rw [hpublish, if_neg (hgrown _)]
    exact .publishing _ _ (fun _ => rfl) (fun _ => rfl) rfl rfl

/-- An event that is not possible changes nothing; any other makes one move. -/
theorem step_moves (e : Event π) (t : History π) :
    t.step e = t ∨ ∃ wasEnded, Moves { t with wasEnded } (t.step e) := by
  cases e with
  | act w a =>
    simp only [step]
    cases hcut : cutsOff a t.server with
    | true => exact Or.inl rfl
    | false =>
      cases hs : t.server.step w a with
      | none => exact Or.inl rfl
      | some s => exact Or.inr ⟨t.wasEnded, moves_act hcut hs⟩
  | look => exact Or.inr moves_look
  | read f => exact Or.inr ⟨t.wasEnded, .quiet _ ⟨fun _ => rfl, fun _ => rfl, rfl, Or.inl rfl⟩⟩

end History

end Replay
