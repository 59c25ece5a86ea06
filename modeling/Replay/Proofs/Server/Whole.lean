import Replay.Server

/-!
What the single actions of a server lead to, said once, and publications as single steps: a state is
remembered and announced at once, and so is a channel entered and announced. Each such step is made
of single actions (`stepWhole_run`).
-/

namespace Replay

/-- The next step of a connection, with the publication of an answer as one step. -/
def Viewer.proceedWhole (h : Hub) (v : Viewer) : Option (Hub × Viewer) :=
  match v.stage with
  | .remembering s => some (h.publishState s, { v with stage := .live })
  | .announcing _ => none
  | _ => v.proceed h

namespace Server

variable {ℓ : Type} [Listener ℓ] {w : World} {s s' : Server ℓ} {n : Nat}

/-- Actions one after the other, each in a world of its own, as far as they are possible. -/
def runIn (os : List (World × Action)) (s : Server ℓ) : Server ℓ :=
  os.foldl (fun s o => (s.step o.1 o.2).getD s) s

/-- What an action leads to when publications are single steps. -/
def stepWhole (w : World) (a : Action) (s : Server ℓ) : Option (Server ℓ) :=
  match a with
  | .proceed n => do
    let v ← s.viewer? n
    return s.update n (← v.proceedWhole s.hub)
  | .enter c => some { s with hub := (s.hub.addChannel c).2 }
  | .announce => none
  | a => s.step w a

def runWhole (os : List (World × Action)) (s : Server ℓ) : Server ℓ :=
  os.foldl (fun s o => (s.stepWhole o.1 o.2).getD s) s

omit [Listener ℓ] in
theorem viewer_update {v : Viewer} (hv : s.viewer? n = some v) (outcome : Hub × Viewer) :
    (s.update n outcome).viewer? n = some outcome.2 := by
  have hlt : n < s.viewers.length := (List.getElem?_eq_some_iff.mp hv).1
  exact List.getElem?_set_self hlt

omit [Listener ℓ] in
theorem update_update (a b : Hub × Viewer) : (s.update n a).update n b = s.update n b := by
  simp only [update, List.set_set]

theorem step_proceed_iff : s.step w (.proceed n) = some s' ↔
    ∃ v outcome, s.viewer? n = some v ∧ v.proceed s.hub = some outcome ∧
      s' = s.update n outcome := by
  simp only [step, Option.bind_eq_bind, Option.bind_eq_some_iff, Option.pure_def,
    Option.some.injEq]
  constructor
  · rintro ⟨v, hv, outcome, hp, rfl⟩
    exact ⟨v, outcome, hv, hp, rfl⟩
  · rintro ⟨v, outcome, hv, hp, rfl⟩
    exact ⟨v, hv, outcome, hp, rfl⟩

theorem stepWhole_proceed_iff : s.stepWhole w (.proceed n) = some s' ↔
    ∃ v outcome, s.viewer? n = some v ∧ v.proceedWhole s.hub = some outcome ∧
      s' = s.update n outcome := by
  simp only [stepWhole, Option.bind_eq_bind, Option.bind_eq_some_iff, Option.pure_def,
    Option.some.injEq]
  constructor
  · rintro ⟨v, hv, outcome, hp, rfl⟩
    exact ⟨v, outcome, hv, hp, rfl⟩
  · rintro ⟨v, outcome, hv, hp, rfl⟩
    exact ⟨v, hv, outcome, hp, rfl⟩

theorem step_dequeue_iff : s.step w (.dequeue n) = some s' ↔
    ∃ v v', s.viewer? n = some v ∧ v.dequeue s.hub = some v' ∧ s' = s.update n (s.hub, v') := by
  simp only [step, Option.bind_eq_bind, Option.bind_eq_some_iff, Option.pure_def,
    Option.some.injEq]
  constructor
  · rintro ⟨v, hv, v', hd, rfl⟩
    exact ⟨v, v', hv, hd, rfl⟩
  · rintro ⟨v, v', hv, hd, rfl⟩
    exact ⟨v, hv, v', hd, rfl⟩

theorem step_receive_iff {x : Incoming} : s.step w (.receive n x) = some s' ↔
    ∃ v h' v' l', s.viewer? n = some v ∧ v.stage = .live ∧
      v.receive w x s.hub s.listener = (h', v', l') ∧
      s' = { s with listener := l' }.update n (h', v') := by
  cases hv : s.viewer? n with
  | none => simp [step, hv]
  | some v =>
    by_cases hlive : v.stage = .live
    · simp only [step, hv, hlive, Option.bind_eq_bind, Option.bind_some, ne_eq, not_true,
        if_false, Option.pure_def, Option.some.injEq]
      constructor
      · rintro rfl
        exact ⟨v, _, _, _, rfl, hlive, rfl, rfl⟩
      · rintro ⟨v', h', u, l', rfl, _, hr, rfl⟩
        rw [hr]
    · constructor
      · intro h
        simp [step, hv, hlive] at h
      · rintro ⟨v', _, _, _, hv', hlive', _⟩
        exact absurd (Option.some.inj hv' ▸ hlive') hlive

theorem step_hearStop (h : s.step w (.hearStop n) = some s') :
    ∃ v, s.viewer? n = some v ∧ v.stage = .live ∧ s' = s.update n (v.leave s.hub) := by
  simp only [step, Option.bind_eq_bind, Option.bind_eq_some_iff, Option.pure_def] at h
  obtain ⟨v, hv, h⟩ := h
  split at h
  · rename_i hears
    simp only [Viewer.hearsStop, Bool.and_eq_true, decide_eq_true_eq] at hears
    exact ⟨v, hv, hears.1, (Option.some.inj h).symm⟩
  · cases h

theorem step_lose (h : s.step w (.lose n) = some s') :
    ∃ v, s.viewer? n = some v ∧ s' = s.update n (v.leave s.hub) := by
  simp only [step, Option.bind_eq_bind, Option.bind_eq_some_iff, Option.pure_def] at h
  obtain ⟨v, hv, h⟩ := h
  split at h
  · cases h
  · exact ⟨v, hv, (Option.some.inj h).symm⟩

theorem proceedWhole_run (w : World) (h : s.stepWhole w (.proceed n) = some s') :
    s.runIn [(w, .proceed n)] = s' ∨ s.runIn [(w, .proceed n), (w, .proceed n)] = s' := by
  obtain ⟨v, outcome, hv, hp, rfl⟩ := stepWhole_proceed_iff.mp h
  have hone : ∀ (s : Server ℓ) v outcome, s.viewer? n = some v → v.proceed s.hub = some outcome →
      (s.step w (.proceed n)).getD s = s.update n outcome := by
    intro s v outcome hv hp
    rw [step_proceed_iff.mpr ⟨v, outcome, hv, hp, rfl⟩, Option.getD_some]
  unfold Viewer.proceedWhole at hp
  split at hp
  · rename_i x hstage
    obtain rfl := Option.some.inj hp
    have hfirst : v.proceed s.hub = some (s.hub.remember x, { v with stage := .announcing x }) := by
      simp only [Viewer.proceed, hstage]
    apply Or.inr
    simp only [runIn, List.foldl_cons, List.foldl_nil]
    rw [hone s v _ hv hfirst, hone _ _ _ (viewer_update hv _) rfl, update_update]
    rfl
  · cases hp
  · apply Or.inl
    simp only [runIn, List.foldl_cons, List.foldl_nil]
    exact hone s v outcome hv hp

/-- Adding a channel as one step is entering it and then announcing it. -/
theorem addChannel_run (w : World) (c : Channel) (he : s.entered = none) :
    s.runIn [(w, .enter c), (w, .announce)] = { s with hub := (s.hub.addChannel c).2 } := by
  obtain ⟨hub, viewers, listener, entered⟩ := s
  obtain rfl : entered = none := he
  cases ht : hub.topicId? c.topic with
  | some id => simp [runIn, step, ht, Hub.addChannel]
  | none => simp [runIn, step, ht, Hub.addChannel]

theorem step_entered {a : Action} (hc : ∀ c, a ≠ .enter c) (ha : a ≠ .announce)
    (h : s.step w a = some s') : s'.entered = s.entered := by
  cases a with
  | connect =>
    simp only [step] at h
    split at h
    · cases h
    · rw [← Option.some.inj h]
  | proceed n =>
    obtain ⟨_, _, _, _, rfl⟩ := step_proceed_iff.mp h
    rfl
  | dequeue n =>
    obtain ⟨_, _, _, _, rfl⟩ := step_dequeue_iff.mp h
    rfl
  | receive n x =>
    obtain ⟨_, _, _, _, _, _, _, rfl⟩ := step_receive_iff.mp h
    rfl
  | hearStop n =>
    obtain ⟨_, _, _, rfl⟩ := step_hearStop h
    rfl
  | lose n =>
    obtain ⟨_, _, rfl⟩ := step_lose h
    rfl
  | time t => rw [← Option.some.inj h]
  | state x => rw [← Option.some.inj h]
  | log id payload t => rw [← Option.some.inj h]
  | enter c => exact absurd rfl (hc c)
  | announce => exact absurd rfl ha
  | stop => rw [← Option.some.inj h]

/-- A whole step is made of single actions. -/
theorem stepWhole_run {a : Action} (he : s.entered = none) (h : s.stepWhole w a = some s') :
    s'.entered = none ∧ ∃ os, s.runIn os = s' := by
  have hsingle : (∀ c, a ≠ .enter c) → a ≠ .announce → s.step w a = some s' →
      s'.entered = none ∧ ∃ os, s.runIn os = s' := by
    intro hc ha hstep
    refine ⟨(step_entered hc ha hstep).trans he, [(w, a)], ?_⟩
    simp only [runIn, List.foldl_cons, List.foldl_nil, hstep, Option.getD_some]
  cases a with
  | proceed n =>
    obtain ⟨_, _, _, _, hs⟩ := stepWhole_proceed_iff.mp h
    refine ⟨hs ▸ he, ?_⟩
    rcases proceedWhole_run w h with hone | htwo
    · exact ⟨_, hone⟩
    · exact ⟨_, htwo⟩
  | enter c =>
    obtain rfl := Option.some.inj h
    exact ⟨he, _, addChannel_run w c he⟩
  | announce => cases h
  | connect => exact hsingle nofun nofun h
  | dequeue n => exact hsingle nofun nofun h
  | receive n x => exact hsingle nofun nofun h
  | hearStop n => exact hsingle nofun nofun h
  | lose n => exact hsingle nofun nofun h
  | time t => exact hsingle nofun nofun h
  | state x => exact hsingle nofun nofun h
  | log id payload t => exact hsingle nofun nofun h
  | stop => exact hsingle nofun nofun h

theorem runWhole_run (he : s.entered = none) (os : List (World × Action)) :
    ∃ os', s.runIn os' = s.runWhole os := by
  induction os generalizing s with
  | nil => exact ⟨[], rfl⟩
  | cons o os ih =>
    cases h : s.stepWhole o.1 o.2 with
    | none =>
      obtain ⟨os', hos'⟩ := ih he
      exact ⟨os', by simpa only [runWhole, List.foldl_cons, h, Option.getD_none] using hos'⟩
    | some s' =>
      obtain ⟨he', first, hfirst⟩ := stepWhole_run he h
      obtain ⟨rest, hrest⟩ := ih he'
      refine ⟨first ++ rest, ?_⟩
      rw [runIn, List.foldl_append]
      simp only [runIn] at hfirst hrest
      simpa only [hfirst, runWhole, List.foldl_cons, h, Option.getD_some] using hrest

end Server

end Replay
