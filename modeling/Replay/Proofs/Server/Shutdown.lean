import Replay.Proofs.Server.Admission
import Replay.Proofs.Server.Convergence

/-!
The signal to stop reaches everyone. When it is given, a connection that does not serve its viewer
yet has sent nothing, and will end without having sent anything; one that does serve it began to
listen before, and has the signal to hear when it next waits. Main statement:
`every_viewer_heeds_stop`.
-/

namespace Replay

namespace Viewer

/-- What a connection has seen of the signal before it came for the last time. -/
structure Alert (stops : Nat) (v : Viewer) : Prop where
  seen : v.isGone = false → v.stopsSeen ≤ stops
  silent : v.isGone = false → v.stage.isServing = false → v.sent = []
  /-- Its look for the signal found none. -/
  unaware : v.stage.isServing = true → v.stopsSeen = 0

/-- Nothing is sent yet, and the look for the signal is still to come, unless it was the end. -/
def Unserved (v : Viewer) : Prop := v.stage.isServing = false ∧ v.sent = []

/-- The signal has come since the connection listens for it, and the connection goes on until it
waits for something. -/
def Pending (stops : Nat) (v : Viewer) : Prop :=
  v.stage.isServing = true ∧ v.stopsSeen < stops

variable {stops stops' : Nat} {h h' : Hub} {v v' : Viewer}

theorem alert_arrive (stops : Nat) (id : ClientId) : (arrive id).Alert stops :=
  ⟨fun _ => Nat.zero_le _, fun _ _ => rfl, nofun⟩

theorem Alert.mono (ha : v.Alert stops) (hle : stops ≤ stops') : v.Alert stops' :=
  ⟨fun hv => Nat.le_trans (ha.seen hv) hle, ha.silent, ha.unaware⟩

theorem alert_of_isGone (hv : v.isGone = true) : v.Alert stops where
  seen hno := by simp [hv] at hno
  silent hno := by simp [hv] at hno
  unaware hserving := by
    have hstage : v.stage = .gone := by simpa [isGone] using hv
    simp [hstage, Stage.isServing] at hserving

theorem Alert.goes (ha : v.Alert stops) (hg : Goes stops v v') : v'.Alert stops := by
  obtain ⟨hstays, -⟩ := hg.not_gone
  have hseen := ha.seen hstays
  cases hg with
  | attaches hv hv' hseen' hsent =>
    have hsilent := ha.silent hstays (by rw [hv]; rfl)
    refine ⟨fun _ => hseen' ▸ hseen, fun _ _ => hsent.trans hsilent, fun hserving => ?_⟩
    simp [hv', Stage.isServing] at hserving
  | listens hv hv' hseen' hsent =>
    have hsilent := ha.silent hstays (by rw [hv]; rfl)
    refine ⟨fun _ => Nat.le_of_eq hseen', fun _ _ => hsent.trans hsilent, fun hserving => ?_⟩
    simp [hv', Stage.isServing] at hserving
  | passes hv hzero hv' hseen' =>
    refine ⟨fun _ => hseen' ▸ hseen, fun _ hidle => ?_, fun _ => by omega⟩
    simp [hv'] at hidle
  | serves hv hv' hseen' =>
    refine ⟨fun _ => hseen' ▸ hseen, fun _ hidle => ?_, fun _ => hseen'.trans (ha.unaware hv)⟩
    simp [hv'] at hidle

theorem Alert.turns (ha : v.Alert h.stops) (ht : Turns h v h' v') : v'.Alert h'.stops := by
  rw [ht.keeps.stops]
  cases ht with
  | goes hg => exact ha.goes hg
  | leaves hl => exact alert_of_isGone hl.after

/-- When the signal was given, a connection has ended or will not serve, or has it to hear. -/
theorem Alert.cases (ha : v.Alert stops) (hstops : 0 < stops) :
    v.isGone = true ∨ v.Unserved ∨ v.Pending stops := by
  cases hgone : v.isGone with
  | true => exact .inl rfl
  | false =>
    cases hserving : v.stage.isServing with
    | false => exact .inr (.inl ⟨hserving, ha.silent hgone hserving⟩)
    | true => exact .inr (.inr ⟨hserving, ha.unaware hserving ▸ hstops⟩)

/-- Once the signal was given, a connection that does not serve its viewer will not do so. -/
theorem Unserved.turns (hu : v.Unserved) (hstops : 0 < h.stops) (ht : Turns h v h' v') :
    v'.Unserved := by
  obtain ⟨hv, hsent⟩ := hu
  cases ht with
  | goes hg =>
    cases hg with
    | attaches _ hv' _ hsent' => exact ⟨by rw [hv']; rfl, hsent'.trans hsent⟩
    | listens _ hv' _ hsent' => exact ⟨by rw [hv']; rfl, hsent'.trans hsent⟩
    | passes _ hzero => omega
    | serves hserving => exact absurd (hserving.symm.trans hv) nofun
  | leaves hl =>
    have hstage : v'.stage = .gone := by simpa [isGone] using hl.after
    exact ⟨by rw [hstage]; rfl, (hl.sent hv).trans hsent⟩

theorem Turns.stays_gone (ht : Turns h v h' v') (hgone : v.isGone = true) : v'.isGone = true := by
  cases ht with
  | goes hg => exact absurd (hgone.symm.trans hg.not_gone.1) nofun
  | leaves hl => exact hl.after

theorem Pending.turns (hp : v.Pending h.stops) (ht : Turns h v h' v') :
    v'.isGone = true ∨ v'.Pending h'.stops := by
  rw [ht.keeps.stops]
  obtain ⟨hserving, hlt⟩ := hp
  cases ht with
  | goes hg =>
    cases hg with
    | attaches hv | listens hv | passes hv => simp [hv, Stage.isServing] at hserving
    | serves _ hserving' hseen => exact .inr ⟨hserving', hseen ▸ hlt⟩
  | leaves hl => exact .inl hl.after

/-- So many own steps at most lead to the end, or to where the connection waits. -/
def Stage.stepsLeft : Stage → Nat
  | .arriving => 3
  | .attached => 2
  | .listening => 1
  | .greeting => 6
  | .lookingUpChannels => 5
  | .lookingUpState _ => 4
  | .catchingUp frames => frames.length + 1
  | .live => 0
  | .remembering _ => 2
  | .announcing _ => 1
  | .gone => 0

theorem length_catchUp_le (channels : List Advertised) (last : Option State) :
    (Hub.catchUp channels last).length ≤ 2 := by
  unfold Hub.catchUp
  split <;> cases last <;> simp

theorem stepsLeft_proceed (hp : v.proceed h = some (h', v')) (hstops : 0 < h.stops) :
    v'.stage.stepsLeft < v.stage.stepsLeft := by
  obtain ⟨id, stage, place, stopsSeen, subscriptions, sent⟩ := v
  unfold proceed at hp
  cases stage with
  | listening =>
    have hstopped : h.isStopped = true := by simpa [Hub.isStopped] using hstops
    simp only [hstopped, if_true, Option.some.injEq] at hp
    obtain ⟨-, rfl⟩ := Prod.mk.inj hp
    exact Nat.zero_lt_one
  | lookingUpState channels =>
    obtain ⟨-, rfl⟩ := Prod.mk.inj (Option.some.inj hp)
    have hlen := length_catchUp_le channels h.lastState
    simp only [Stage.stepsLeft]
    omega
  | catchingUp frames =>
    cases frames <;> obtain ⟨-, rfl⟩ := Prod.mk.inj (Option.some.inj hp) <;>
      simp [Stage.stepsLeft]
  | arriving | attached | greeting | lookingUpChannels | remembering x | announcing x =>
    obtain ⟨-, rfl⟩ := Prod.mk.inj (Option.some.inj hp)
    simp [Stage.stepsLeft]
  | live | gone => cases hp

theorem proceed_eq_none (hp : v.proceed h = none) : v.stage = .live ∨ v.isGone = true := by
  unfold proceed at hp
  cases hstage : v.stage with
  | live => exact .inl rfl
  | gone => exact .inr (by simp [isGone, hstage])
  | catchingUp frames => cases frames <;> simp [hstage] at hp
  | _ => simp [hstage] at hp

end Viewer

namespace Reception

open Viewer

variable {ℓ : Type} {e : Event ℓ} {r r' : Reception ℓ} {n : Nat} {v v' : Viewer}

def IsAlert (r : Reception ℓ) : Prop := ∀ v ∈ r.server.viewers, v.Alert r.server.hub.stops

theorem Change.stops_le (hc : Change e r r') : r.server.hub.stops ≤ r'.server.hub.stops := by
  cases hc with
  | rests _ _ _ _ _ hstops => exact hstops
  | accepts _ _ hserver | registers _ _ _ _ hserver | connects _ _ hserver =>
    exact Nat.le_of_eq (by rw [hserver]; rfl)
  | turns _ _ _ _ _ _ _ _ ht => exact Nat.le_of_eq ht.keeps.stops.symm

theorem IsAlert.enter {id : ClientId} (h : IsAlert r) (s : Server ℓ)
    (hviewers : s.viewers = r.server.viewers) (hstops : s.hub.stops = r.server.hub.stops)
    (hserver : r'.server = enter id s) : IsAlert r' := by
  intro v hv
  rw [hserver, Reception.enter, hviewers] at hv
  have hsame : r'.server.hub.stops = r.server.hub.stops := by rw [hserver]; exact hstops
  rw [hsame]
  rcases List.mem_append.mp hv with hv | hv
  · exact h v hv
  · rw [List.mem_singleton.mp hv]
    exact alert_arrive _ id

theorem IsAlert.change (h : IsAlert r) (hc : Change e r r') : IsAlert r' := by
  cases hc with
  | rests _ hviewers _ _ _ hstops =>
    intro v hv
    exact (h v (hviewers ▸ hv)).mono hstops
  | accepts _ _ hserver =>
    intro v hv
    rw [hserver] at hv ⊢
    exact h v hv
  | registers _ _ _ _ hserver => exact h.enter _ rfl rfl hserver
  | connects _ _ hserver => exact h.enter _ (by rfl) (by rfl) hserver
  | turns _ before after v v' hviewers hviewers' _ ht =>
    intro u hu
    have hturned := (h v (by simp [hviewers])).turns ht
    rw [hviewers', List.mem_append, List.mem_cons] at hu
    rcases hu with hu | rfl | hu
    · exact (h u (by simp [hviewers, hu])).mono (Nat.le_of_eq ht.keeps.stops.symm)
    · exact hturned
    · exact (h u (by simp [hviewers, hu])).mono (Nat.le_of_eq ht.keeps.stops.symm)

theorem isAlert_start (info : ServerInfo) (capacity : Nat) (l : ℓ) :
    IsAlert (start info capacity l) := nofun

variable [Listener ℓ] {w : World}

theorem IsAlert.next (h : IsAlert r) (e : Event ℓ) : IsAlert (r.next e) := by
  rcases next_cases e r with ⟨hsame, -⟩ | hc
  · rwa [hsame]
  · exact h.change hc

theorem IsAlert.run (h : IsAlert r) (es : List (Event ℓ)) : IsAlert (r.run es) := by
  induction es generalizing r with
  | nil => exact h
  | cons e es ih => exact ih (h.next e)

theorem stops_le_next (e : Event ℓ) (r : Reception ℓ) :
    r.server.hub.stops ≤ (r.next e).server.hub.stops := by
  rcases next_cases e r with ⟨hsame, -⟩ | hc
  · exact Nat.le_of_eq (by rw [hsame])
  · exact hc.stops_le

theorem stops_le_run (es : List (Event ℓ)) (r : Reception ℓ) :
    r.server.hub.stops ≤ (r.run es).server.hub.stops := by
  induction es generalizing r with
  | nil => exact Nat.le_refl _
  | cons e es ih => exact Nat.le_trans (stops_le_next e r) (ih (r.next e))

theorem viewer_next (hv : r.server.viewer? n = some v) (e : Event ℓ) :
    (r.next e).server.viewer? n = some v ∨ ∃ v', (r.next e).server.viewer? n = some v' ∧
      v.Turns r.server.hub (r.next e).server.hub v' := by
  rcases next_cases e r with ⟨hsame, -⟩ | hc
  · exact .inl (by rw [hsame]; exact hv)
  · exact hc.viewer hv

/-- What is true of a connection after the signal and in each of its turns stays true. -/
theorem viewer_run {P : Nat → Viewer → Prop}
    (hmono : ∀ {stops stops' v}, stops ≤ stops' → P stops v → P stops' v)
    (hturn : ∀ {h h' v v'}, 0 < h.stops → P h.stops v → Turns h v h' v' → P h'.stops v')
    (hstops : 0 < r.server.hub.stops) (hv : r.server.viewer? n = some v)
    (hp : P r.server.hub.stops v) (es : List (Event ℓ)) :
    ∃ v', (r.run es).server.viewer? n = some v' ∧ P (r.run es).server.hub.stops v' := by
  induction es generalizing r v with
  | nil => exact ⟨v, hv, hp⟩
  | cons e es ih =>
    have hle := stops_le_next e r
    have hstops' := Nat.lt_of_lt_of_le hstops hle
    rcases viewer_next hv e with hv' | ⟨v', hv', ht⟩
    · exact ih hstops' hv' (hmono hle hp)
    · exact ih hstops' hv' (hturn hstops hp ht)

/-- Once the signal was given, who is not served yet never is. -/
theorem unserved_run (hstops : 0 < r.server.hub.stops) (hv : r.server.viewer? n = some v)
    (hu : v.Unserved) (es : List (Event ℓ)) :
    ∃ v', (r.run es).server.viewer? n = some v' ∧ v'.Unserved := by
  refine viewer_run (P := fun _ v => v.Unserved) ?_ ?_ hstops hv hu es
  · exact fun _ hu => hu
  · exact fun hstops hu ht => hu.turns hstops ht

/-- Who has the signal to hear has it to hear until the end. -/
theorem pending_run (hstops : 0 < r.server.hub.stops) (hv : r.server.viewer? n = some v)
    (hp : v.Pending r.server.hub.stops) (es : List (Event ℓ)) :
    ∃ v', (r.run es).server.viewer? n = some v' ∧
      (v'.isGone = true ∨ v'.Pending (r.run es).server.hub.stops) := by
  refine viewer_run (P := fun stops v => v.isGone = true ∨ v.Pending stops) ?_ ?_ hstops hv
    (.inr hp) es
  · exact fun hle hp => hp.imp_right fun hp => ⟨hp.1, Nat.lt_of_lt_of_le hp.2 hle⟩
  · exact fun _ hp ht => hp.elim (fun hgone => .inl (ht.stays_gone hgone)) fun hp => hp.turns ht

/-- Own steps alone lead a connection to its end, or to where it waits. -/
theorem waits_after_own_steps (w : World) (hstops : 0 < r.server.hub.stops)
    (hv : r.server.viewer? n = some v) {k : Nat} (hk : v.stage.stepsLeft ≤ k) :
    ∃ v', (r.run (.replicate k (.act w (.proceed n)))).server.viewer? n = some v' ∧
      (v'.stage = .live ∨ v'.isGone = true) := by
  induction k generalizing r v with
  | zero =>
    cases hp : v.proceed r.server.hub with
    | none => exact ⟨v, hv, proceed_eq_none hp⟩
    | some outcome =>
      have hlt := stepsLeft_proceed hp hstops
      omega
  | succ k ih =>
    rw [List.replicate_succ]
    have hstops' := Nat.lt_of_lt_of_le hstops (stops_le_next (.act w (.proceed n)) r)
    cases hp : v.proceed r.server.hub with
    | none =>
      have hnone : r.step (.act w (.proceed n)) = none := by
        simp [step, Server.step, hv, hp]
      have hsame : r.next (.act w (.proceed n)) = r := by rw [next, hnone, Option.getD_none]
      have hzero : v.stage.stepsLeft ≤ k := by
        rcases proceed_eq_none hp with hlive | hgone
        · simp [hlive, Stage.stepsLeft]
        · have hstage : v.stage = .gone := by simpa [isGone] using hgone
          simp [hstage, Stage.stepsLeft]
      exact ih hstops' (by rw [hsame]; exact hv) hzero
    | some outcome =>
      have hlt := stepsLeft_proceed hp hstops
      have hsome : r.server.step w (.proceed n) = some (r.server.update n outcome) :=
        Server.step_proceed_iff.mpr ⟨v, outcome, hv, hp, rfl⟩
      have hnext : (r.next (.act w (.proceed n))).server = r.server.update n outcome := by
        rw [next, step, hsome]
        rfl
      exact ih hstops' (by rw [hnext]; exact Server.viewer_update hv outcome) (by omega)

/-- Where it waits, a connection hears the signal. -/
theorem gone_after_hearStop (w : World) (hstops : 0 < r.server.hub.stops)
    (hv : r.server.viewer? n = some v) (ha : v.Alert r.server.hub.stops)
    (hstage : v.stage = .live ∨ v.isGone = true) :
    ∃ v', (r.next (.act w (.hearStop n))).server.viewer? n = some v' ∧ v'.isGone = true := by
  rcases hstage with hlive | hgone
  · have hunaware := ha.unaware (by rw [hlive]; rfl)
    have hhears : v.hearsStop r.server.hub = true := by
      simp [hearsStop, hlive, hunaware, hstops]
    have hstep : r.server.step w (.hearStop n) =
        some (r.server.update n (v.leave r.server.hub)) := by
      simp [Server.step, hv, hhears]
    have hnext : (r.next (.act w (.hearStop n))).server =
        r.server.update n (v.leave r.server.hub) := by
      rw [next, step, hstep]
      rfl
    exact ⟨_, by rw [hnext]; exact Server.viewer_update hv _, rfl⟩
  · rcases viewer_next hv (.act w (.hearStop n)) with hv' | ⟨v', hv', ht⟩
    · exact ⟨v, hv', hgone⟩
    · exact ⟨v', hv', ht.stays_gone hgone⟩

/-- Own steps alone, and hearing the signal, bring a connection to its end. -/
theorem ends_by_own_steps (w : World) (hr : IsAlert r) (hstops : 0 < r.server.hub.stops)
    (hv : r.server.viewer? n = some v) :
    ∃ v', (r.run (.replicate v.stage.stepsLeft (.act w (.proceed n)) ++
      [.act w (.hearStop n)])).server.viewer? n = some v' ∧ v'.isGone = true := by
  obtain ⟨u, hu, hstage⟩ := waits_after_own_steps w hstops hv (Nat.le_refl _)
  have hlater := hr.run (.replicate v.stage.stepsLeft (.act w (.proceed n)))
  have hstops' := Nat.lt_of_lt_of_le hstops
    (stops_le_run (.replicate v.stage.stepsLeft (.act w (.proceed n))) r)
  rw [run, List.foldl_append]
  exact gone_after_hearStop w hstops' hu (hlater u (List.mem_of_getElem? hu)) hstage

/-- Whatever the listener is, and in whatever order connections are accepted and register and
anything else happens: when the signal to stop was given, every connection has ended, or does not
serve its viewer and never will, or has the signal to hear until its end; and its own steps alone
bring it to its end. Who ends takes their own id off the list, and nobody else does. The list is as
long as there are connections, throughout, exactly if no id is given to a connection while another
has it. So the count is right for the first 2^32 connections that are accepted. Ids are 32 bits
wide: behind these they come again, and if the first holder of one is still there, the list is too
short by one. -/
theorem every_viewer_heeds_stop (info : ServerInfo) (capacity : Nat) (l : ℓ)
    (es : List (Event ℓ)) :
    let r := (start info capacity l).run es
    (0 < r.server.hub.stops → ∀ n v, r.server.viewer? n = some v →
      (v.isGone = true ∨ v.Unserved ∨ v.Pending r.server.hub.stops) ∧
      (v.Unserved → ∀ later, ∃ v', (r.run later).server.viewer? n = some v' ∧ v'.Unserved) ∧
      (v.Pending r.server.hub.stops → ∀ later, ∃ v', (r.run later).server.viewer? n = some v' ∧
        (v'.isGone = true ∨ v'.Pending (r.run later).server.hub.stops)) ∧
      ∀ w, ∃ v', (r.run (.replicate v.stage.stepsLeft (.act w (.proceed n)) ++
        [.act w (.hearStop n)])).server.viewer? n = some v' ∧ v'.isGone = true) ∧
    (∀ e r', r.step e = some r' →
      (∀ n v v', r.server.viewer? n = some v → r'.server.viewer? n = some v' →
        v.isGone = false → v'.isGone = true →
        r'.server.hub.clients = r.server.hub.clients.filter (fun id => id != v.id)) ∧
      ∀ id ∈ r.server.hub.clients, id ∉ r'.server.hub.clients →
        ∃ n v v', r.server.viewer? n = some v ∧ r'.server.viewer? n = some v' ∧ v.id = id ∧
          v.isGone = false ∧ v'.isGone = true) ∧
    ((∀ k, Counts ((start info capacity l).run (es.take k))) ↔
      DistinctIds es (start info capacity l)) ∧
    (es.countP Event.givesId ≤ UInt32.size → DistinctIds es (start info capacity l)) := by
  intro r
  have hlisted := listed_start info capacity l
  have halert : IsAlert r := (isAlert_start info capacity l).run es
  refine ⟨?_, ?_, counts_right_iff hlisted es, ?_⟩
  · intro hstops n v hv
    have hcases := (halert v (List.mem_of_getElem? hv)).cases hstops
    exact ⟨hcases, unserved_run hstops hv, pending_run hstops hv,
      fun w => ends_by_own_steps w halert hstops hv⟩
  · intro e r' hs
    have hc := change_step hs
    exact ⟨fun n v v' hv hv' => hc.own_entry_removed hv hv',
      fun id hid hno => hc.removed_by_own_end hid hno⟩
  · intro hfew
    exact distinct_of_few hlisted (given_start info capacity l) (by omega)

/-- Four connections are accepted. When the signal comes, the first waits, the second is brought up to
date, the third has only registered, and the fourth registers afterwards. -/
def stoppedEvents : List (Event Player) :=
  [.accept, .accept, .accept, .accept, .register 0, .register 0, .register 0] ++
    ([.proceed 0, .proceed 0, .proceed 0, .proceed 0, .proceed 0, .proceed 0, .proceed 0,
      .proceed 1, .proceed 1, .proceed 1, .proceed 1, .stop].map (.act ⟨0, .empty⟩)) ++
    [.register 0]

def stoppedSample : Reception Player :=
  (start Server.sampleInfo 8 Player.samplePlayer).run stoppedEvents

def lastOwnSteps : List (Event Player) :=
  [.act ⟨0, .empty⟩ (.proceed 3), .act ⟨0, .empty⟩ (.proceed 3), .act ⟨0, .empty⟩ (.proceed 3),
    .act ⟨0, .empty⟩ (.hearStop 3)]

theorem stoppedSample_heeds :
    0 < stoppedSample.server.hub.stops ∧ stoppedSample.server.hub.clients = [1, 2, 3, 4] ∧
    stoppedSample.server.viewers.map (·.stage) =
      [.live, .lookingUpChannels, .arriving, .arriving] ∧
    (∀ n v, stoppedSample.server.viewer? n = some v →
      v.isGone = true ∨ v.Unserved ∨ v.Pending stoppedSample.server.hub.stops) ∧
    (∃ v', (stoppedSample.run lastOwnSteps).server.viewer? 3 = some v' ∧ v'.isGone = true) ∧
    ∀ k, Counts ((start Server.sampleInfo 8 Player.samplePlayer).run (stoppedEvents.take k)) := by
  have hstops : 0 < stoppedSample.server.hub.stops := by decide +kernel
  have hlast : stoppedSample.server.viewer? 3 = some (.arrive 4) := by decide +kernel
  obtain ⟨hheeds, -, hcounts, hfew⟩ :=
    every_viewer_heeds_stop Server.sampleInfo 8 Player.samplePlayer stoppedEvents
  refine ⟨hstops, by decide +kernel, by decide +kernel, ?_, ?_, ?_⟩
  · intro n v hv
    exact (hheeds hstops n v hv).1
  · exact (hheeds hstops 3 _ hlast).2.2.2 ⟨0, .empty⟩
  · exact hcounts.mpr (hfew (by decide))

end Reception

end Replay
