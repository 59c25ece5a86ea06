import Replay.Proofs.Pacing.Sections

/-!
While a player is not playing the loop is silent. The lock is free between the look that finds the
playback playing and the read that follows, but a read asks for the status again: whatever request
comes in between, nothing goes out until the player plays again, and then the message that was next
is still next.
-/

namespace Replay

namespace Pacing

open Recording

/-- Where a request has moved the position to. -/
def Deed.target? : Deed Player → Option Nanos
  | .answered r p _ answer => if answer.didSeek then r.seek.map p.range.clamp else none
  | _ => none

theorem Deed.target?_of_not_moved {d : Deed Player} (hd : ¬ d.Moved) : d.target? = none := by
  cases d with
  | answered r p q answer => exact if_neg hd
  | _ => rfl

def Deed.messages {π : Type} (d : Deed π) : List Event := d.calls.filter Event.isMessage

theorem filter_isMessage_of_states {calls : List Event} (h : ∀ c ∈ calls, ∃ s, c = .state s) :
    calls.filter Event.isMessage = [] := by
  rw [List.filter_eq_nil_iff]
  intro c hc
  obtain ⟨s, rfl⟩ := h c hc
  exact nofun

namespace Playback

variable {σ : Type} [Sink σ]

/-- The player is not playing before any section of a run. -/
def Rests (x : Playback Player σ) (es : List Section) : Prop :=
  ∀ n, n < es.length → (x.run (es.take n)).source.status ≠ .playing

section Steps

variable {x y : Playback Player σ} {e : Section} {d : Deed Player}

theorem Rests.head {es : List Section} (h : x.Rests (e :: es)) : x.source.status ≠ .playing :=
  h 0 (Nat.zero_lt_succ _)

theorem Rests.tail {es : List Section} (h : x.Rests (e :: es)) : (x.step e).Rests es :=
  fun n hn => h (n + 1) (Nat.succ_lt_succ hn)

theorem Acts.read_nothing {p q : Player} {r : Except Error (Option Nanos)} {calls : List Event}
    (h : Acts x e (.read p q r calls) y) (hx : x.source.status ≠ .playing) :
    r = .ok none ∧ q = p ∧ calls = [] ∧ y.source = x.source ∧ y.stage = .look := by
  cases h with
  | read w r q s hs hr =>
    have hlog := Player.logNext_of_not_playing (w := w) (s := (⟨x.sink, []⟩ : Traced σ)) hx
    obtain ⟨rfl, hrest⟩ := Prod.mk.inj (hlog.symm.trans hr)
    obtain ⟨rfl, rfl⟩ := Prod.mk.inj hrest
    exact ⟨rfl, rfl, rfl, rfl, rfl⟩

theorem Acts.looked_states {p : Player} {calls : List Event} (h : Acts x e (.looked p calls) y) :
    ∀ c ∈ calls, ∃ s, c = .state s := by
  intro c hc
  cases h with
  | looked w s hs =>
    split at hc
    · exact ⟨_, List.mem_singleton.mp hc⟩
    · cases hc

/-- A look may tell a state, and a player that is not playing is read in vain. -/
theorem Acts.states_only (h : Acts x e d y) (hx : x.source.status ≠ .playing) :
    ∀ c ∈ d.calls, ∃ s, c = .state s := by
  cases d with
  | looked p calls => exact h.looked_states
  | read p q r calls =>
    obtain ⟨_, _, rfl, _⟩ := h.read_nothing hx
    exact fun _ hc => nomatch hc
  | answered r p q answer => exact fun _ hc => nomatch hc
  | nothing => exact fun _ hc => nomatch hc

/-- Without a move the player only changes its pace. -/
theorem Acts.retimed (h : Acts x e d y) (hx : x.source.status ≠ .playing) (hd : ¬ d.Moved) :
    x.source.Retimed y.source := by
  cases d with
  | answered r p q answer =>
    cases h with
    | answered w r =>
      rcases Player.apply_cases w r x.source with ⟨_, hq⟩ | ⟨hmoved, _⟩
      · exact hq
      · exact absurd hmoved hd
  | looked p calls =>
    cases h with
    | looked w s hs => exact .refl x.source
  | read p q r calls =>
    obtain ⟨_, _, _, hsame, _⟩ := h.read_nothing hx
    rw [hsame]
    exact .refl x.source
  | nothing =>
    cases h with
    | nothing w e hs => exact .refl x.source

/-- The position changes by a move alone. -/
theorem Acts.currentTime_eq (h : Acts x e d y) (hx : x.source.status ≠ .playing) :
    y.source.currentTime = d.target?.getD x.source.currentTime := by
  by_cases hd : d.Moved
  · cases h with
    | answered w r =>
      rcases Player.apply_cases w r x.source with ⟨hstays, _⟩ | ⟨hmoved, t, q, ht, hseek, hq⟩
      · exact absurd (hd.symm.trans hstays) nofun
      · obtain ⟨_, _, _, rfl⟩ := Player.seek_ok hseek
        rw [hq.currentTime_eq, Deed.target?, if_pos hmoved, ht]
        rfl
    | _ => cases hd
  · rw [Deed.target?_of_not_moved hd]
    exact (h.retimed hx hd).currentTime_eq

/-- The loop goes on. -/
theorem Acts.goes_on (h : Acts x e d y) (hx : x.source.status ≠ .playing) {cause : Error}
    (hy : y.stage = .failed cause) : x.stage = .failed cause := by
  cases d with
  | answered r p q answer =>
    cases h with
    | answered w r => exact hy
  | looked p calls =>
    cases h with
    | looked w s hs =>
      have hlook : (if Source.status x.source = .playing then Stage.read else .look) = .look :=
        if_neg hx
      cases hlook.symm.trans hy
  | read p q r calls =>
    obtain ⟨_, _, _, _, hlook⟩ := h.read_nothing hx
    cases hlook.symm.trans hy
  | nothing =>
    cases h with
    | nothing w e hs => exact hy

/-- A topic keeps its id. -/
theorem Acts.keeps_id (h : Acts x e d y) {topic : String} {id : ChannelId}
    (hid : x.source.channelId? topic = some id) : y.source.channelId? topic = some id := by
  cases h with
  | answered w r =>
    rcases Player.apply_cases w r x.source with ⟨_, hq⟩ | ⟨_, t, q, _, hseek, hq⟩
    · exact (hq.channelId?_eq topic).trans hid
    · obtain ⟨_, _, _, rfl⟩ := Player.seek_ok hseek
      exact (hq.channelId?_eq topic).trans hid
  | looked w s hs => exact hid
  | read w r q s hs hr => exact (Player.logNext_learns hr).keeps topic id hid
  | nothing w e hs => exact hid

/-- The message that is next goes out, or it stays next. -/
theorem Acts.next (h : Acts x e d y) (hd : ¬ d.Moved) {entry : Entry}
    (hnext : ∀ w, e = .loop w → x.source.next? w = some entry) :
    (d.messages = [] ∧ (y.source.status = .ended → x.source.status = .ended) ∧
      ∀ w, x.source.next? w = some entry → y.source.next? w = some entry) ∨
    ∃ m, d.messages = [m] ∧ y.source.logging entry = some m := by
  cases d with
  | answered r p q answer =>
    cases h with
    | answered w r =>
      rcases Player.apply_cases w r x.source with ⟨_, hq⟩ | ⟨hmoved, _⟩
      · exact .inl ⟨rfl, hq.ended_iff.mp, fun w' hw' => (hq.next?_eq w').trans hw'⟩
      · exact absurd hmoved hd
  | looked p calls =>
    have hno := filter_isMessage_of_states h.looked_states
    cases h with
    | looked w s hs => exact .inl ⟨hno, id, fun _ => id⟩
  | nothing =>
    cases h with
    | nothing w e hs => exact .inl ⟨rfl, id, fun _ => id⟩
  | read p q r calls =>
    by_cases hx : x.source.status = .playing
    · cases h with
      | read w r q s hs hr =>
        obtain ⟨c, hread⟩ := Player.read_of_next? hx (hnext w rfl)
        rcases Player.logNext_of_meets (⟨x.sink, []⟩ : Traced σ) hread with
          ⟨span, _, hlog⟩ | ⟨tick, hlog⟩
        · obtain ⟨_, hrest⟩ := Prod.mk.inj (hlog.symm.trans hr)
          obtain ⟨rfl, rfl⟩ := Prod.mk.inj hrest
          exact .inl ⟨rfl, id, fun _ _ => rfl⟩
        · obtain ⟨_, hemit⟩ := Prod.mk.inj (hlog.symm.trans hr)
          obtain ⟨id, channels, sink, before, htraced, hbefore, hid, _⟩ := Player.emit_traced entry
            tick (Player.passing w.now entry { x.source with cursor := c }) x.sink
          obtain ⟨rfl, rfl⟩ := Prod.mk.inj (htraced.symm.trans hemit)
          refine .inr ⟨.message id entry.payload entry.logTime, ?_, ?_⟩
          · change (before ++ [_]).filter Event.isMessage = _
            rw [List.filter_append, hbefore]
            rfl
          · rw [Player.logging, hid]
            rfl
    · obtain ⟨_, _, rfl, hsame, _⟩ := h.read_nothing hx
      rw [hsame]
      exact .inl ⟨rfl, id, fun _ => id⟩

end Steps

section Runs

variable {x : Playback Player σ} {es : List Section}

/-- Each deed of a run that rests was done while the player was not playing. -/
theorem Rests.acts (h : x.Rests es) {d : Deed Player} (hd : d ∈ x.deeds es) :
    ∃ (x' : Playback Player σ) (e : Section), x'.source.status ≠ .playing ∧ Acts x' e d (x'.step e) := by
  induction es generalizing x with
  | nil => cases hd
  | cons e es ih =>
    rcases List.mem_cons.mp hd with rfl | hd
    · exact ⟨x, e, h.head, x.acts e⟩
    · exact ih h.tail hd

theorem Rests.retimed (h : x.Rests es) (hd : ∀ d ∈ x.deeds es, ¬ d.Moved) :
    x.source.Retimed (x.run es).source := by
  induction es generalizing x with
  | nil => exact .refl x.source
  | cons e es ih =>
    have hfirst := (x.acts e).retimed h.head (hd _ List.mem_cons_self)
    exact hfirst.trans (ih h.tail fun d hmem => hd d (List.mem_cons_of_mem _ hmem))

theorem Rests.currentTime_eq (h : x.Rests es) : (x.run es).source.currentTime =
    ((x.deeds es).filterMap Deed.target?).getLast?.getD x.source.currentTime := by
  induction es generalizing x with
  | nil => rfl
  | cons e es ih =>
    have hrun := ih h.tail
    rw [(x.acts e).currentTime_eq h.head] at hrun
    refine hrun.trans ?_
    cases ht : (x.act e).1.target? <;>
      cases hl : ((x.step e).deeds es |>.filterMap Deed.target?).getLast? <;>
      simp [deeds, ht, hl, List.getLast?_cons]

theorem Rests.goes_on (h : x.Rests es) {cause : Error} (hrun : (x.run es).stage = .failed cause) :
    x.stage = .failed cause := by
  induction es generalizing x with
  | nil => exact hrun
  | cons e es ih => exact (x.acts e).goes_on h.head (ih h.tail hrun)

theorem run_keeps_id {topic : String} {id : ChannelId} (h : x.source.channelId? topic = some id) :
    (x.run es).source.channelId? topic = some id := by
  induction es generalizing x with
  | nil => exact h
  | cons e es ih => exact ih ((x.acts e).keeps_id h)

/-- The message that is next is the first that goes out, or none does and it stays next. -/
theorem run_next (hd : ∀ d ∈ x.deeds es, ¬ d.Moved) {entry : Entry}
    (hnext : ∀ w, .loop w ∈ es → x.source.next? w = some entry) :
    ((x.deeds es).flatMap Deed.messages = [] ∧
      ((x.run es).source.status = .ended → x.source.status = .ended) ∧
      ∀ w, x.source.next? w = some entry → (x.run es).source.next? w = some entry) ∨
    ∃ m, ((x.deeds es).flatMap Deed.messages).head? = some m ∧
      (x.run es).source.logging entry = some m := by
  induction es generalizing x with
  | nil => exact .inl ⟨rfl, id, fun _ => id⟩
  | cons e es ih =>
    rcases (x.acts e).next (hd _ List.mem_cons_self) (fun w he => hnext w (by simp [he])) with
      ⟨hnone, hended, hkept⟩ | ⟨m, hm, hlogging⟩
    · have hrest := ih (fun d hmem => hd d (List.mem_cons_of_mem _ hmem))
        fun w hw => hkept w (hnext w (List.mem_cons_of_mem _ hw))
      rw [deeds, List.flatMap_cons, hnone, List.nil_append]
      rcases hrest with ⟨h, hended', hkept'⟩ | hsent
      · exact .inl ⟨h, fun hy => hended (hended' hy), fun w hw => hkept' w (hkept w hw)⟩
      · exact .inr hsent
    · refine .inr ⟨m, by simp [deeds, hm], ?_⟩
      obtain ⟨id, hid, rfl⟩ := Option.map_eq_some_iff.mp hlogging
      exact congrArg (Option.map _) (run_keeps_id hid)

end Runs

/-- While the player is not playing before any section of a run, whatever the stage of the loop: the
sink is told states alone and a read finds nothing; the position is where the last move has put it;
the loop does not fail; and if there is no move, whatever is read later, up to the next move, the
message that was next goes out before any other, or is next still. -/
theorem silent_while_not_playing (x : Playback Player σ) (es : List Section) (h : x.Rests es) :
    (∀ d ∈ x.deeds es, ∀ c ∈ d.calls, ∃ s, c = .state s) ∧
    (∀ p q r calls, .read p q r calls ∈ x.deeds es → r = .ok none ∧ q = p ∧ calls = []) ∧
    (x.run es).source.currentTime =
      ((x.deeds es).filterMap Deed.target?).getLast?.getD x.source.currentTime ∧
    (∀ cause, (x.run es).stage = .failed cause → x.stage = .failed cause) ∧
    ((∀ d ∈ x.deeds es, ¬ d.Moved) → ∀ entry later,
      (∀ w, .loop w ∈ later → x.source.next? w = some entry) →
      (∀ d ∈ (x.run es).deeds later, ¬ d.Moved) →
      let z := (x.run es).run later
      let messages := ((x.run es).deeds later).flatMap Deed.messages
      (messages = [] ∧ (z.source.status = .ended → x.source.status = .ended) ∧
        ∀ w, x.source.next? w = some entry → z.source.next? w = some entry) ∨
      ∃ m, messages.head? = some m ∧ z.source.logging entry = some m) := by
  refine ⟨?_, ?_, h.currentTime_eq, fun _ => h.goes_on, ?_⟩
  · intro d hd
    obtain ⟨x', e, hx', hacts⟩ := h.acts hd
    exact hacts.states_only hx'
  · intro p q r calls hd
    obtain ⟨x', e, hx', hacts⟩ := h.acts hd
    obtain ⟨hr, hq, hcalls, _⟩ := hacts.read_nothing hx'
    exact ⟨hr, hq, hcalls⟩
  · intro hstays entry later hnext hlater
    have hsame := h.retimed hstays
    rcases run_next hlater fun w hw => (hsame.next?_eq w).trans (hnext w hw) with
      ⟨hnone, hended, hkept⟩ | hsent
    · refine .inl ⟨hnone, ?_, ?_⟩
      · exact fun hz => hsame.ended_iff.mp (hended hz)
      · exact fun w hw => hkept w ((hsame.next?_eq w).trans hw)
    · exact .inr hsent

def sampleKept : Entry := ⟨⟨"/a", "json", none⟩, 9, [3]⟩

/-- A message is kept, a look has found the playback playing, and then it is paused. -/
def samplePaused : Playback Player Recorder :=
  (start Player.samplePlayer Recorder.empty).run
    ([.request ⟨0, sampleDisk⟩ ⟨some .play, Binary64.ofNat 1, none, none⟩] ++
      List.replicate 7 (.loop ⟨1, sampleDisk⟩) ++
      [.request ⟨2, sampleDisk⟩ ⟨some .pause, Binary64.ofNat 1, none, none⟩])

def sampleRest : List Section :=
  List.replicate 3 (.loop ⟨90, sampleDisk⟩) ++
    [.request ⟨91, sampleDisk⟩ ⟨some .play, Binary64.ofNat 1, none, none⟩]

theorem sample_silent_while_paused :
    samplePaused.stage = .read ∧ samplePaused.source.pending = some sampleKept ∧
    samplePaused.Rests sampleRest ∧
    (∀ d ∈ samplePaused.deeds sampleRest, ∀ c ∈ d.calls, ∃ s, c = .state s) ∧
    ∃ m, (((samplePaused.run sampleRest).deeds
        (List.replicate 2 (.loop ⟨99, sampleDisk⟩))).flatMap Deed.messages).head? = some m ∧
      ((samplePaused.run sampleRest).run
        (List.replicate 2 (.loop ⟨99, sampleDisk⟩))).source.logging sampleKept = some m := by
  have hrests : samplePaused.Rests sampleRest := by
    unfold Rests
    decide +kernel
  have hkept : samplePaused.source.pending = some sampleKept := by decide +kernel
  have hsent : ((samplePaused.run sampleRest).deeds
      (List.replicate 2 (.loop ⟨99, sampleDisk⟩))).flatMap Deed.messages ≠ [] := by decide +kernel
  obtain ⟨hstates, _, _, _, hnext⟩ := silent_while_not_playing samplePaused sampleRest hrests
  refine ⟨by decide +kernel, hkept, hrests, hstates, ?_⟩
  have hgoes := hnext (by decide +kernel) sampleKept (List.replicate 2 (.loop ⟨99, sampleDisk⟩))
    (fun w _ => by simp only [Player.next?, hkept]) (by decide +kernel)
  exact hgoes.resolve_left fun h => hsent h.1

end Playback

end Pacing

end Replay
