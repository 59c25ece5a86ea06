import Replay.Proofs.Pacing.Sections

/-!
The end of a playback is told once. The loop tells the state when a look finds the end that the look
before did not find. Only a read comes to the end and only a move leaves it, so between two such
announcements a player has been moved and has come to the end again.
-/

namespace Replay.Pacing

open Recording

variable {σ : Type} [Sink σ]

section Looks

variable {π : Type} [Source π]

def Deed.seen? : Deed π → Option Status
  | .looked p _ => some (Source.status p)
  | _ => none

/-- What the last look has found. -/
def Deed.lastSeen (ds : List (Deed π)) : Option Status := (ds.filterMap seen?).getLast?

theorem Deed.lastSeen_concat (ds : List (Deed π)) (d : Deed π) :
    lastSeen (ds ++ [d]) = d.seen?.or (lastSeen ds) := by
  cases hd : d.seen? <;> simp [lastSeen, hd]

namespace Playback

/-- The loop knows whether its last look has found the end. -/
theorem Acts.wasEnded_eq {x y : Playback π σ} {e : Section} {d : Deed π} (h : Acts x e d y)
    {past : List (Deed π)} (hx : x.wasEnded = decide (Deed.lastSeen past = some .ended)) :
    y.wasEnded = decide (Deed.lastSeen (past ++ [d]) = some .ended) := by
  rw [Deed.lastSeen_concat]
  cases h with
  | answered w r => exact hx
  | looked w s hs => simp [Deed.seen?]
  | read w r q s hs hr => exact hx
  | nothing w e hs => exact hx

theorem Acts.calls_eq {x y : Playback π σ} {e : Section} {q : π} {calls : List Event}
    (h : Acts x e (.looked q calls) y) :
    calls = if Source.status q = .ended ∧ x.wasEnded = false then
      [.state (Source.snapshot false none q)] else [] := by
  cases h with
  | looked w s hs => rfl

theorem calls_of_looked {x : Playback π σ} {past : List (Deed π)}
    (hx : x.wasEnded = decide (Deed.lastSeen past = some .ended)) {es : List Section}
    {before after : List (Deed π)} {q : π} {calls : List Event}
    (h : x.deeds es = before ++ .looked q calls :: after) :
    calls = if Source.status q = .ended ∧ Deed.lastSeen (past ++ before) ≠ some .ended then
      [.state (Source.snapshot false none q)] else [] := by
  induction es generalizing x past before with
  | nil => simp [deeds] at h
  | cons e es ih =>
    cases before with
    | nil =>
      have hcalls := Acts.calls_eq ((List.cons.inj h).1 ▸ x.acts e)
      simpa [hx] using hcalls
    | cons d before =>
      obtain ⟨rfl, hrest⟩ := List.cons.inj h
      have hcalls := ih ((x.acts e).wasEnded_eq hx) hrest
      rwa [List.append_assoc] at hcalls

end Playback

end Looks

namespace Playback

section Steps

variable {x y : Playback Player σ} {e : Section} {d : Deed Player}

/-- Only a read comes to the end. -/
theorem Acts.ends (h : Acts x e d y) (hx : x.source.status ≠ .ended)
    (hy : y.source.status = .ended) : d.Ends := by
  cases h with
  | answered w r =>
    rcases Player.apply_cases w r x.source with ⟨_, _, _, _, hq, hs⟩ |
      ⟨_, t, q, _, hseek, _, _, _, hq, hs⟩
    · rw [hq] at hy
      exact absurd (hs.mp hy) hx
    · rw [hq] at hy
      have hended := hs.mp hy
      obtain ⟨_, _, _, rfl⟩ := Player.seek_ok hseek
      simp [hx] at hended
  | looked w s hs => exact absurd hy hx
  | read w r q s hs hr => exact ⟨hx, hy⟩
  | nothing w e hs => exact absurd hy hx

/-- Only a move leaves the end. -/
theorem Acts.moved (h : Acts x e d y) (hx : x.source.status = .ended)
    (hy : y.source.status ≠ .ended) : d.Moved := by
  cases h with
  | answered w r =>
    rcases Player.apply_cases w r x.source with ⟨_, _, _, _, hq, hs⟩ | ⟨hmoved, _⟩
    · rw [hq] at hy
      exact absurd (hs.mpr hx) hy
    · exact hmoved
  | looked w s hs => exact absurd hx hy
  | read w r q s hs hr =>
    rcases (Player.logNext_status hr).2 with hsame | ⟨_, hended, _⟩
    · exact absurd (hsame.trans hx) hy
    · exact absurd hended hy
  | nothing w e hs => exact absurd hx hy

/-- A section that tells a state is a look that has found the end, and the loop knows it then. -/
theorem Acts.told (h : Acts x e d y) (hd : d.told ≠ []) :
    d = .looked x.source [.state (Source.snapshot false none x.source)] ∧
      x.source.status = .ended ∧ x.wasEnded = false ∧ y.source = x.source ∧ y.wasEnded = true := by
  cases h with
  | answered w r => exact absurd rfl hd
  | looked w s hs =>
    by_cases hedge : Source.status x.source = .ended ∧ x.wasEnded = false
    · rw [if_pos hedge]
      exact ⟨rfl, hedge.1, hedge.2, rfl, decide_eq_true hedge.1⟩
    · simp [Deed.told, Deed.calls, hedge] at hd
  | read w r q s hs hr => exact absurd (Player.logNext_status hr).1 hd
  | nothing w e hs => exact absurd rfl hd

theorem Acts.wasEnded_of_not_look (h : Acts x e d y) (hd : ¬ d.IsLook) :
    y.wasEnded = x.wasEnded := by
  cases h with
  | answered w r => rfl
  | looked w s hs => exact absurd trivial hd
  | read w r q s hs hr => rfl
  | nothing w e hs => rfl

/-- At the end the loop knows it once it has looked. -/
theorem Acts.wasEnded_at_end (h : Acts x e d y) (hx : x.source.status = .ended)
    (hw : x.wasEnded = true) : y.wasEnded = true := by
  by_cases hd : d.IsLook
  · cases h with
    | looked w s hs => exact decide_eq_true hx
    | _ => cases hd
  · exact (h.wasEnded_of_not_look hd).trans hw

/-- Before a read the loop has not found the end. -/
theorem Acts.reads (h : Acts x e d y) (hx : x.stage = .read → x.wasEnded = false) :
    y.stage = .read → y.wasEnded = false := by
  cases h with
  | answered w r => exact hx
  | looked w s hs =>
    intro hread
    by_cases hp : Source.status x.source = .playing
    · simp [hp]
    · simp [hp] at hread
  | read w r q s hs hr =>
    intro hread
    cases r <;> cases hread
  | nothing w e hs => exact hx

/-- A read that comes to the end comes there from playing, and the loop goes on. -/
theorem Acts.ended (h : Acts x e d y) (hd : d.Ends) :
    x.stage = .read ∧ y.source.status = .ended ∧ y.wasEnded = x.wasEnded := by
  cases h with
  | read w r q s hs hr => exact ⟨hs, hd.2, rfl⟩
  | _ => cases hd

end Steps

section Runs

variable {x : Playback Player σ} {es : List Section} {before after : List (Deed Player)}
  {d : Deed Player}

theorem run_reads (h : x.stage = .read → x.wasEnded = false) :
    (x.run es).stage = .read → (x.run es).wasEnded = false := by
  induction es generalizing x with
  | nil => exact h
  | cons e es ih => exact ih ((x.acts e).reads h)

/-- Where the end is not reached yet it is told after a read has come to it. -/
theorem ends_before_told (h : x.source.status ≠ .ended) (hds : x.deeds es = before ++ d :: after)
    (hd : d.told ≠ []) : ∃ d' ∈ before, d'.Ends := by
  induction es generalizing x before with
  | nil => simp [deeds] at hds
  | cons e es ih =>
    cases before with
    | nil =>
      obtain ⟨rfl, _⟩ := List.cons.inj hds
      exact absurd ((x.acts e).told hd).2.1 h
    | cons d' before =>
      obtain ⟨rfl, hrest⟩ := List.cons.inj hds
      by_cases hended : (x.step e).source.status = .ended
      · exact ⟨_, by simp, (x.acts e).ends h hended⟩
      · obtain ⟨d', hd', hends⟩ := ih hended hrest
        exact ⟨d', by simp [hd'], hends⟩

/-- Where the end has been told it is told again after a move and a read that comes to it. -/
theorem moved_before_told (h : x.source.status = .ended) (hw : x.wasEnded = true)
    (hds : x.deeds es = before ++ d :: after) (hd : d.told ≠ []) :
    ∃ d₁ d₂, [d₁, d₂].Sublist before ∧ d₁.Moved ∧ d₂.Ends := by
  induction es generalizing x before with
  | nil => simp [deeds] at hds
  | cons e es ih =>
    cases before with
    | nil =>
      obtain ⟨rfl, _⟩ := List.cons.inj hds
      have hnew := ((x.acts e).told hd).2.2.1
      rw [hw] at hnew
      cases hnew
    | cons d' before =>
      obtain ⟨rfl, hrest⟩ := List.cons.inj hds
      by_cases hended : (x.step e).source.status = .ended
      · obtain ⟨d₁, d₂, hsub, hmoved, hends⟩ :=
          ih hended ((x.acts e).wasEnded_at_end h hw) hrest
        exact ⟨d₁, d₂, hsub.cons _, hmoved, hends⟩
      · obtain ⟨d₂, hmem, hends⟩ := ends_before_told hended hrest hd
        exact ⟨_, d₂, (List.singleton_sublist.mpr hmem).cons_cons _, (x.acts e).moved h hended, hends⟩

/-- Without a read that comes to the end no end is told twice. -/
theorem told_at_most_once (hends : ∀ d ∈ x.deeds es, ¬ d.Ends) :
    ((x.deeds es).flatMap Deed.told).length ≤ 1 := by
  induction es generalizing x with
  | nil => exact Nat.zero_le 1
  | cons e es ih =>
    have hrest : ∀ d ∈ (x.step e).deeds es, ¬ d.Ends := fun d hd => hends d (by simp [deeds, hd])
    by_cases hnone : (x.act e).1.told = []
    · simpa [deeds, hnone] using ih hrest
    · obtain ⟨hlook, hended, _, hsource, hknown⟩ := (x.acts e).told hnone
      have hquiet : ∀ d ∈ (x.step e).deeds es, d.told = [] := by
        intro d hd
        refine Decidable.byContradiction fun htold => ?_
        obtain ⟨before, after, hsplit⟩ := List.append_of_mem hd
        obtain ⟨_, d₂, hsub, _, hd₂⟩ :=
          moved_before_told (by rw [hsource]; exact hended) hknown hsplit htold
        refine hrest d₂ ?_ hd₂
        rw [hsplit]
        exact List.mem_append_left _ (hsub.subset (by simp))
      have hone : (x.act e).1.told = [Source.snapshot false none x.source] := by
        rw [hlook]
        rfl
      have hempty : ((x.step e).deeds es).flatMap Deed.told = [] :=
        List.flatMap_eq_nil_iff.mpr hquiet
      simp [deeds, hone, hempty]

/-- Without a look and without a move the end stays, and the loop does not know it better. -/
theorem stays_ended (h : x.source.status = .ended)
    (hds : ∀ d ∈ x.deeds es, ¬ d.IsLook ∧ ¬ d.Moved) :
    (x.run es).source.status = .ended ∧ (x.run es).wasEnded = x.wasEnded := by
  induction es generalizing x with
  | nil => exact ⟨h, rfl⟩
  | cons e es ih =>
    obtain ⟨hlook, hmoved⟩ := hds _ (List.mem_cons_self)
    have hstill : (x.step e).source.status = .ended :=
      Decidable.byContradiction fun hleft => hmoved ((x.acts e).moved h hleft)
    obtain ⟨hended, hsame⟩ := ih hstill fun d hd => hds d (List.mem_cons_of_mem _ hd)
    exact ⟨hended, hsame.trans ((x.acts e).wasEnded_of_not_look hlook)⟩

/-- A look at an end that the loop does not know tells the state. -/
theorem told_of_looked {q : Player} {calls : List Event} (h : x.source.status = .ended)
    (hw : x.wasEnded = false) (hds : x.deeds es = before ++ .looked q calls :: after)
    (hquiet : ∀ d ∈ before, ¬ d.IsLook ∧ ¬ d.Moved) :
    calls = [.state (Source.snapshot false none q)] ∧ q.status = .ended := by
  obtain ⟨es₁, e, es₂, rfl, rfl, hd, _⟩ := x.deeds_eq_append hds
  obtain ⟨hended, hsame⟩ := stays_ended h hquiet
  have hacts := (x.run es₁).acts e
  rw [hd] at hacts
  have hcalls := hacts.calls_eq
  generalize (x.run es₁).step e = y at hacts
  cases hacts with
  | looked w s hs =>
    refine ⟨?_, hended⟩
    rw [hcalls, if_pos ⟨hended, hsame.trans hw⟩]

end Runs

/-- The loop tells a state exactly when its look finds the end and its look before, if there was one,
did not, and it tells what its look has found. With a player behind it nothing else tells a state:
after a read that has come to the end, and before the next one that does, the end is told once at
most, and told if the position is not moved until the loop looks; and between two announcements the
position is moved and a read comes to the end after that. -/
theorem end_told_on_edge :
    (∀ {π : Type} [Source π] (p : π) (s : σ) (es : List Section) (before after : List (Deed π))
      (q : π) (calls : List Event), (start p s).deeds es = before ++ .looked q calls :: after →
      calls = if Source.status q = .ended ∧ Deed.lastSeen before ≠ some .ended then
        [.state (Source.snapshot false none q)] else []) ∧
    ∀ (p : Player) (s : σ) (es : List Section),
      (∀ d ∈ (start p s).deeds es, d.told ≠ [] → d.IsLook) ∧
      (∀ before d after, (start p s).deeds es = before ++ d :: after → d.Ends →
        (∀ d' ∈ after, ¬ d'.Ends) →
        (after.flatMap Deed.told).length ≤ 1 ∧
        ∀ quiet q calls rest, after = quiet ++ .looked q calls :: rest →
          (∀ d' ∈ quiet, ¬ d'.IsLook ∧ ¬ d'.Moved) →
          q.status = .ended ∧ after.flatMap Deed.told = [Source.snapshot false none q]) ∧
      (∀ before d between d' after,
        (start p s).deeds es = before ++ d :: (between ++ d' :: after) → d.told ≠ [] →
        d'.told ≠ [] → ∃ d₁ d₂, [d₁, d₂].Sublist between ∧ d₁.Moved ∧ d₂.Ends) := by
  refine ⟨fun {π} _ p s es before after q calls h => ?_, fun p s es => ⟨?_, ?_, ?_⟩⟩
  · have hnew : (start p s).wasEnded = decide (Deed.lastSeen ([] : List (Deed π)) = some .ended) :=
      rfl
    have hcalls := calls_of_looked hnew h
    rwa [List.nil_append] at hcalls
  · intro d hd htold
    obtain ⟨before, after, hsplit⟩ := List.append_of_mem hd
    obtain ⟨es₁, e, _, _, _, rfl, _⟩ := (start p s).deeds_eq_append hsplit
    rw [(((start p s).run es₁).acts e |>.told htold).1]
    trivial
  · intro before d after hsplit hends hnone
    obtain ⟨es₁, e, es₂, _, _, rfl, rfl⟩ := (start p s).deeds_eq_append hsplit
    obtain ⟨hread, hended, hsame⟩ := (((start p s).run es₁).acts e).ended hends
    have hnew := hsame.trans (run_reads (x := start p s) (fun h => nomatch h) hread)
    have hmost := told_at_most_once hnone
    refine ⟨hmost, ?_⟩
    intro quiet q calls rest hafter hquiet
    obtain ⟨rfl, hq⟩ := told_of_looked hended hnew hafter hquiet
    refine ⟨hq, ?_⟩
    -- there is room for no other state beside this one
    have hthis : (Deed.looked q [.state (Source.snapshot false none q)]).told =
        [Source.snapshot false none q] := rfl
    rw [hafter, List.flatMap_append, List.flatMap_cons, hthis] at hmost ⊢
    simp only [List.length_append, List.length_singleton] at hmost
    have hleft : (quiet.flatMap Deed.told).length = 0 := by omega
    have hright : (rest.flatMap Deed.told).length = 0 := by omega
    rw [List.length_eq_zero_iff.mp hleft, List.length_eq_zero_iff.mp hright]
    rfl
  · intro before d between d' after hsplit hd hd'
    obtain ⟨es₁, e, es₂, _, _, rfl, hafter⟩ := (start p s).deeds_eq_append hsplit
    obtain ⟨_, hended, _, hsource, hknown⟩ := (((start p s).run es₁).acts e).told hd
    exact moved_before_told (by rw [hsource]; exact hended) hknown hafter hd'

/-- Played to the end, looked at twice, moved back to the last message and played to the end again. -/
def sampleSections : List Section :=
  [.request ⟨0, sampleDisk⟩ ⟨some .play, Binary64.ofNat 1, none, none⟩] ++
    List.replicate 4 (.loop ⟨9, sampleDisk⟩) ++ List.replicate 6 (.loop ⟨20, sampleDisk⟩) ++
    [.request ⟨20, sampleDisk⟩ ⟨some .play, Binary64.ofNat 1, some 9, none⟩] ++
    List.replicate 5 (.loop ⟨20, sampleDisk⟩)

def sampleDeeds : List (Deed Player) :=
  (start Player.samplePlayer Recorder.empty).deeds sampleSections

theorem sample_end_told_on_edge :
    (∀ d ∈ sampleDeeds, d.told ≠ [] → d.IsLook) ∧
    sampleDeeds.map (fun d => d.told.map (·.status)) =
      List.replicate 9 [] ++ [[.ended]] ++ List.replicate 6 [] ++ [[.ended]] ∧
    ∃ d₁ d₂, [d₁, d₂].Sublist ((sampleDeeds.drop 10).take 6) ∧ d₁.Moved ∧ d₂.Ends := by
  obtain ⟨hlooks, _, hagain⟩ := (end_told_on_edge (σ := Recorder)).2 Player.samplePlayer
    Recorder.empty sampleSections
  have h9 : 9 < sampleDeeds.length := by decide +kernel
  have h16 : 16 < sampleDeeds.length := by decide +kernel
  have htold : ∀ d, sampleDeeds[9]? = some d ∨ sampleDeeds[16]? = some d → d.told ≠ [] := by
    have hnone : sampleDeeds[9]?.map Deed.told ≠ some [] ∧
        sampleDeeds[16]?.map Deed.told ≠ some [] := by decide +kernel
    rintro d (hd | hd) htold
    · exact hnone.1 (by rw [hd, Option.map_some, htold])
    · exact hnone.2 (by rw [hd, Option.map_some, htold])
  have hsplit : sampleDeeds = sampleDeeds.take 9 ++
      sampleDeeds[9] :: ((sampleDeeds.drop 10).take 6 ++ sampleDeeds[16] :: sampleDeeds.drop 17) := by
    have hrest : sampleDeeds.drop 16 = (sampleDeeds.drop 10).drop 6 := by rw [List.drop_drop]
    rw [← List.drop_eq_getElem_cons h16, hrest, List.take_append_drop,
      ← List.drop_eq_getElem_cons h9, List.take_append_drop]
  refine ⟨hlooks, by decide +kernel, ?_⟩
  exact hagain _ _ _ _ _ hsplit (htold _ (.inl (List.getElem?_eq_getElem h9)))
    (htold _ (.inr (List.getElem?_eq_getElem h16)))

end Playback

end Replay.Pacing
