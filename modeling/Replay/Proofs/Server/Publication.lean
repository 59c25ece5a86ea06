import Replay.Proofs.Server.Convergence
import Replay.Proofs.Server.History
import Replay.Proofs.Server.Ledger

/-!
The order in which states are published. A server at rest has remembered and announced the snapshot
of every section once, and the newest one is on display exactly when no older one was remembered or
announced last. Two requests at once can end otherwise; sections that are apart cannot.
-/

namespace Replay.History

open Server Hub

variable {π : Type}

/-- What holds along every run: each section is accounted for, and what is on display is the snapshot
of the section that was remembered last, or announced last. -/
structure Accounted (t : History π) : Prop where
  carried : ∀ n x, t.server.toAnnounce? n = some x → t.sections[t.held n]? = some x
  remembered : Ledger t.sections.length t.remembered
    (fun n => (t.server.toRemember? n).isSome) t.held
  announced : Ledger t.sections.length t.announced
    (fun n => (t.server.toAnnounce? n).isSome) t.held
  lastState : t.server.hub.lastState = t.remembered.getLast?.bind (t.sections[·]?)
  lastAnnounced : t.lastAnnounced = t.announced.getLast?.bind (t.sections[·]?)

theorem lastAnnounced_goOn {s : Server π} {t : History π} :
    (t.goOn s).lastAnnounced =
      ((posted t.server.hub s.hub).flatMap (·.content.states)).getLast?.or t.lastAnnounced := by
  simp only [lastAnnounced, goOn, List.flatMap_append, List.getLast?_append]

theorem lastAnnounced_of_feed_eq {s : Server π} {t : History π}
    (hfeed : s.hub.feed = t.server.hub.feed) : (t.goOn s).lastAnnounced = t.lastAnnounced := by
  rw [lastAnnounced_goOn, posted_of_feed_eq hfeed, List.flatMap_nil, List.getLast?_nil,
    Option.none_or]

theorem lastAnnounced_of_push {s : Server π} {t : History π} {p : Posting}
    (hfeed : s.hub.feed = t.server.hub.feed.push p) :
    (t.goOn s).lastAnnounced = p.content.states.getLast?.or t.lastAnnounced := by
  rw [lastAnnounced_goOn, posted_of_push hfeed, List.flatMap_singleton]

variable {t : History π} {s : Server π}

theorem lastAnnounced_of_quiet (h : Quiet t.server s) : (t.goOn s).lastAnnounced = t.lastAnnounced := by
  rcases h.feed with hfeed | ⟨p, hfeed, hp⟩
  · exact lastAnnounced_of_feed_eq hfeed
  · rw [lastAnnounced_of_push hfeed, hp, List.getLast?_nil, Option.none_or]

theorem Accounted.quiet (h : Accounted t) (hq : Quiet t.server s) : Accounted (t.goOn s) where
  carried n x hx := h.carried n x (hq.toAnnounce n ▸ hx)
  remembered := h.remembered.congr fun n => by rw [← hq.toRemember n]; rfl
  announced := h.announced.congr fun n => by rw [← hq.toAnnounce n]; rfl
  lastState := hq.lastState.trans h.lastState
  lastAnnounced := (lastAnnounced_of_quiet hq).trans h.lastAnnounced

variable {n : Nat} {x : State}

theorem Accounted.publishing (h : Accounted t)
    (hr : ∀ m, s.toRemember? m = t.server.toRemember? m)
    (ha : ∀ m, s.toAnnounce? m = t.server.toAnnounce? m)
    (hlast : s.hub.lastState = some x)
    (hfeed : s.hub.feed = t.server.hub.feed.push (.everyone (.message (.state x)))) :
    Accounted ((t.publishing x).goOn s) where
  carried m y hy := by
    have hold := h.carried m y (ha m ▸ hy)
    exact List.getElem?_append_left (List.getElem?_eq_some_iff.mp hold).1 ▸ hold
  remembered := by
    simp only [History.publishing, goOn, List.length_append, List.length_singleton]
    exact h.remembered.whole.congr fun m => by rw [← hr m]
  announced := by
    simp only [History.publishing, goOn, List.length_append, List.length_singleton]
    exact h.announced.whole.congr fun m => by rw [← ha m]
  lastState := by
    simp only [History.publishing, goOn, List.getLast?_append, List.getLast?_singleton,
      Option.some_or, Option.bind_some, List.getElem?_concat_length]
    exact hlast
  lastAnnounced := by
    rw [lastAnnounced_of_push (t := t.publishing x) hfeed]
    simp only [History.publishing, goOn, List.getLast?_append, List.getLast?_singleton,
      Option.some_or, Option.bind_some, List.getElem?_concat_length]
    rfl

theorem Accounted.answering (h : Accounted t) (hnone : t.server.toAnnounce? n = none)
    (hr : ∀ m, s.toRemember? m = if m = n then some x else t.server.toRemember? m)
    (ha : ∀ m, s.toAnnounce? m = if m = n then some x else t.server.toAnnounce? m)
    (hlast : s.hub.lastState = t.server.hub.lastState)
    (hfeed : s.hub.feed = t.server.hub.feed) : Accounted ((t.answering n x).goOn s) where
  carried m y hy := by
    rw [goOn, ha m] at hy
    simp only [History.answering, goOn]
    by_cases hm : m = n
    · rw [if_pos hm] at hy ⊢
      rw [List.getElem?_concat_length]
      exact hy
    · rw [if_neg hm] at hy ⊢
      have hold := h.carried m y hy
      rw [List.getElem?_append_left (List.getElem?_eq_some_iff.mp hold).1]
      exact hold
  remembered := by
    have hopen : ¬ (t.server.toRemember? n).isSome := by
      intro hsome
      obtain ⟨y, hy⟩ := Option.isSome_iff_exists.mp hsome
      rw [toAnnounce_of_toRemember hy] at hnone
      cases hnone
    simp only [History.answering, goOn, List.length_append, List.length_singleton]
    apply (h.remembered.begun hopen).congr
    intro m
    rw [hr m]
    by_cases hm : m = n <;> simp [hm]
  announced := by
    have hopen : ¬ (t.server.toAnnounce? n).isSome := by simp [hnone]
    simp only [History.answering, goOn, List.length_append, List.length_singleton]
    apply (h.announced.begun hopen).congr
    intro m
    rw [ha m]
    by_cases hm : m = n <;> simp [hm]
  lastState := by
    simp only [History.answering, goOn]
    rw [h.remembered.last_append, hlast]
    exact h.lastState
  lastAnnounced := by
    rw [lastAnnounced_of_feed_eq (t := t.answering n x) hfeed]
    simp only [History.answering, goOn]
    rw [h.announced.last_append]
    exact h.lastAnnounced

theorem Accounted.remembering (h : Accounted t) (hx : t.server.toRemember? n = some x)
    (hr : ∀ m, s.toRemember? m = if m = n then none else t.server.toRemember? m)
    (ha : ∀ m, s.toAnnounce? m = t.server.toAnnounce? m)
    (hlast : s.hub.lastState = some x) (hfeed : s.hub.feed = t.server.hub.feed) :
    Accounted ((t.remembering n).goOn s) where
  carried m y hy := h.carried m y (ha m ▸ hy)
  remembered := by
    have hheld : (t.server.toRemember? n).isSome := by simp [hx]
    apply (h.remembered.finished hheld).congr
    intro m
    rw [goOn, hr m]
    by_cases hm : m = n <;> simp [hm]
  announced := h.announced.congr fun m => by rw [← ha m]; rfl
  lastState := by
    simp only [History.remembering, goOn, List.getLast?_append, List.getLast?_singleton,
      Option.some_or, Option.bind_some]
    rw [hlast]
    exact (h.carried n x (toAnnounce_of_toRemember hx)).symm
  lastAnnounced :=
    (lastAnnounced_of_feed_eq (t := t.remembering n) hfeed).trans h.lastAnnounced

theorem Accounted.announcing (h : Accounted t) (hx : t.server.toAnnounce? n = some x)
    (hr : ∀ m, s.toRemember? m = t.server.toRemember? m)
    (ha : ∀ m, s.toAnnounce? m = if m = n then none else t.server.toAnnounce? m)
    (hlast : s.hub.lastState = t.server.hub.lastState)
    (hfeed : s.hub.feed = t.server.hub.feed.push (.everyone (.message (.state x)))) :
    Accounted ((t.announcing n).goOn s) where
  carried m y hy := by
    rw [goOn, ha m] at hy
    split at hy
    · cases hy
    · exact h.carried m y hy
  remembered := h.remembered.congr fun m => by rw [← hr m]; rfl
  announced := by
    have hheld : (t.server.toAnnounce? n).isSome := by simp [hx]
    apply (h.announced.finished hheld).congr
    intro m
    rw [goOn, ha m]
    by_cases hm : m = n <;> simp [hm]
  lastState := hlast.trans h.lastState
  lastAnnounced := by
    rw [lastAnnounced_of_push (t := t.announcing n) hfeed]
    simp only [History.announcing, goOn, List.getLast?_append, List.getLast?_singleton,
      Option.some_or, Option.bind_some]
    exact (h.carried n x hx).symm

theorem Rests.toAnnounce (h : t.Rests) (n : Nat) : t.server.toAnnounce? n = none := by
  cases hv : t.server.viewer? n with
  | none => rw [toAnnounce?, hv, Option.bind_none]
  | some v =>
    rw [toAnnounce?, hv, Option.bind_some]
    exact h v (List.mem_of_getElem? hv)

theorem rests_start (info : ServerInfo) (capacity : Nat) (p : π) :
    (start (Server.start info capacity p)).Rests := fun _ hv => absurd hv List.not_mem_nil

theorem accounted_start (s : Server π) (hlast : s.hub.lastState = none) (hrests : (start s).Rests) :
    Accounted (start s) := by
  have hledger : ∀ {holds : Nat → Prop} {held}, (∀ n, ¬ holds n) → Ledger 0 [] holds held :=
    fun hn => ⟨.nil, nofun, fun m hm => absurd hm (hn m), fun m hm => absurd hm (hn m),
      fun m _ hm => absurd hm (hn m), nofun⟩
  refine ⟨?_, hledger ?_, hledger ?_, hlast, rfl⟩
  · intro n x hx
    exact absurd ((hrests.toAnnounce n).symm.trans hx) nofun
  · intro n
    rw [toRemember_of_toAnnounce (hrests.toAnnounce n)]
    nofun
  · intro n
    rw [hrests.toAnnounce n]
    nofun

theorem Accounted.looked (h : Accounted t) (wasEnded : Bool) : Accounted { t with wasEnded } :=
  ⟨h.carried, h.remembered, h.announced, h.lastState, h.lastAnnounced⟩

theorem Accounted.moves (h : Accounted t) {t' : History π} (hm : Moves t t') : Accounted t' := by
  cases hm with
  | quiet s hq => exact h.quiet hq
  | publishing s x hr ha hlast hfeed => exact h.publishing hr ha hlast hfeed
  | answering s n x hnone hr ha hlast hfeed => exact h.answering hnone hr ha hlast hfeed
  | remembering s n x hx hr ha hlast hfeed => exact h.remembering hx hr ha hlast hfeed
  | announcing s n x hx hr ha hlast hfeed => exact h.announcing hx hr ha hlast hfeed

/-- What holds as long as sections are apart: only the newest one is held, and what is not held is
published up to it. -/
structure InTurn (t : History π) : Prop where
  held : ∀ n, (t.server.toAnnounce? n).isSome → t.held n + 1 = t.sections.length
  remembered : (∀ n, t.server.toRemember? n = none) →
    t.remembered.getLast? = (List.range t.sections.length).getLast?
  announced : (∀ n, t.server.toAnnounce? n = none) →
    t.announced.getLast? = (List.range t.sections.length).getLast?

theorem last_range {k size : Nat} (h : k + 1 = size) : (List.range size).getLast? = some k := by
  rw [← h, List.range_succ, List.getLast?_append, List.getLast?_singleton, Option.some_or]

theorem InTurn.moves (h : InTurn t) {t' : History π} (hm : Moves t t')
    (hapart : t'.sections = t.sections ∨ t.Rests) : InTurn t' := by
  have hfree : ∀ {x}, t.sections ++ [x] = t.sections ∨ t.Rests →
      ∀ n, t.server.toAnnounce? n = none := by
    intro x hor
    rcases hor with hsame | hrests
    · exact absurd (List.append_right_eq_self.mp hsame) (List.cons_ne_nil _ _)
    · exact hrests.toAnnounce
  cases hm with
  | quiet s hq =>
    refine ⟨fun n hn => h.held n (hq.toAnnounce n ▸ hn), fun hr => h.remembered fun n => ?_,
      fun ha => h.announced fun n => ?_⟩
    · exact hq.toRemember n ▸ hr n
    · exact hq.toAnnounce n ▸ ha n
  | publishing s x hr ha hlast hfeed =>
    have hnone := hfree hapart
    have hnewest : (List.range (t.sections ++ [x]).length).getLast? = some t.sections.length :=
      last_range (by rw [List.length_append, List.length_singleton])
    refine ⟨?_, ?_, ?_⟩
    · intro n hn
      rw [goOn, ha n, hnone n] at hn
      cases hn
    · intro _
      exact List.getLast?_concat.trans hnewest.symm
    · intro _
      exact List.getLast?_concat.trans hnewest.symm
  | answering s n x hbefore hr ha hlast hfeed =>
    have hnone := hfree hapart
    have hheld : s.toRemember? n = some x := by rw [hr n, if_pos rfl]
    refine ⟨?_, ?_, ?_⟩
    · intro m hm
      by_cases hmn : m = n
      · simp only [History.answering, goOn, if_pos hmn, List.length_append,
          List.length_singleton]
      · rw [goOn, ha m, if_neg hmn, hnone m] at hm
        cases hm
    · intro hall
      exact absurd (hheld.symm.trans (hall n)) nofun
    · intro hall
      exact absurd ((toAnnounce_of_toRemember hheld).symm.trans (hall n)) nofun
  | remembering s n x hx hr ha hlast hfeed =>
    have hheld := h.held n (by rw [toAnnounce_of_toRemember hx]; rfl)
    refine ⟨fun m hm => h.held m (ha m ▸ hm), ?_, fun hall => h.announced ?_⟩
    · intro _
      exact List.getLast?_concat.trans (last_range hheld).symm
    · intro m
      exact ha m ▸ hall m
  | announcing s n x hx hr ha hlast hfeed =>
    have hheld := h.held n (by rw [hx]; rfl)
    refine ⟨fun m hm => h.held m ?_, fun hall => h.remembered ?_, ?_⟩
    · rw [goOn, ha m] at hm
      split at hm
      · cases hm
      · exact hm
    · intro m
      exact hr m ▸ hall m
    · intro _
      exact List.getLast?_concat.trans (last_range hheld).symm

variable [Source π]

theorem Accounted.step (h : Accounted t) (e : Event π) : Accounted (t.step e) := by
  rcases step_moves e t with hsame | ⟨wasEnded, hm⟩
  · rw [hsame]
    exact h
  · exact (h.looked wasEnded).moves hm

theorem Accounted.run (h : Accounted t) (es : List (Event π)) : Accounted (t.run es) := by
  induction es generalizing t with
  | nil => exact h
  | cons e es ih => exact ih (h.step e)

/-- Whatever the order in which requests are answered, remembered and announced, and the loop
publishes: at rest the snapshot of every section was remembered once and announced once, and the
newest one is on display exactly when it equals the one remembered last and the one announced
last. -/
theorem newest_displayed_iff (info : ServerInfo) (capacity : Nat) (p : π) (es : List (Event π)) :
    let t := (start (Server.start info capacity p)).run es
    t.Rests →
    t.remembered.Perm (List.range t.sections.length) ∧
    t.announced.Perm (List.range t.sections.length) ∧
    (t.NewestDisplayed ↔
      ∀ k, t.remembered.getLast? = some k ∨ t.announced.getLast? = some k →
        t.sections[k]? = t.sections.getLast?) := by
  intro t hrests
  have h : Accounted t := (accounted_start _ rfl (rests_start info capacity p)).run es
  have hr : ∀ n, ¬ (t.server.toRemember? n).isSome := by
    intro n
    rw [toRemember_of_toAnnounce (hrests.toAnnounce n)]
    nofun
  have ha : ∀ n, ¬ (t.server.toAnnounce? n).isSome := by
    intro n
    rw [hrests.toAnnounce n]
    nofun
  refine ⟨h.remembered.perm_range hr, h.announced.perm_range ha, ?_⟩
  rw [NewestDisplayed, h.lastState, h.lastAnnounced, h.remembered.last_shown hr,
    h.announced.last_shown ha]
  constructor
  · rintro ⟨hremembered, hannounced⟩ k (hk | hk)
    · exact hremembered k hk
    · exact hannounced k hk
  · intro hall
    exact ⟨fun k hk => hall k (Or.inl hk), fun k hk => hall k (Or.inr hk)⟩

def sampleRequest (command : String) : Incoming :=
  .text ("\x7b\"op\":\"playbackControlRequest\",\"playbackCommand\":\"" ++ command ++
    "\",\"playbackSpeed\":1\x7d")

def sampleActs (now : Nanos) (as : List Action) : List (Event Player) :=
  as.map (.act ⟨now, Recording.sampleDisk⟩ ·)

/-- Two viewers are connected, and events follow. -/
def sampleRun (es : List (Event Player)) : History Player :=
  (start (Server.start sampleInfo 8 Player.samplePlayer)).run
    (sampleActs 0 ([.connect, .connect] ++ List.replicate 7 (.proceed 0) ++
      List.replicate 7 (.proceed 1)) ++ es)

def samplePublished : List (Event Player) :=
  sampleActs 0 [.receive 0 (sampleRequest "play"), .receive 1 (sampleRequest "pause"), .proceed 0,
    .proceed 1, .proceed 0, .proceed 1]

theorem sample_newest_displayed :
    (sampleRun samplePublished).Rests ∧ (sampleRun samplePublished).NewestDisplayed ∧
    (sampleRun samplePublished).server.hub.lastState.map (·.status) = some .paused := by
  have h : let t := sampleRun samplePublished
      t.Rests ∧ t.remembered.getLast? = some 1 ∧ t.announced.getLast? = some 1 ∧
      t.sections[1]? = t.sections.getLast? ∧
      t.server.hub.lastState.map (·.status) = some .paused := by decide +kernel
  obtain ⟨hrests, hremembered, hannounced, hnewest, hstatus⟩ := h
  refine ⟨hrests, ?_, hstatus⟩
  apply (newest_displayed_iff sampleInfo 8 Player.samplePlayer _ hrests).2.2.mpr
  intro k hk
  obtain rfl : 1 = k := by
    rcases hk with hk | hk
    · exact Option.some.inj (hremembered.symm.trans hk)
    · exact Option.some.inj (hannounced.symm.trans hk)
  exact hnewest

/-- The second request is answered after the first, and published before it. -/
def sampleOvertaken : List (Event Player) :=
  sampleActs 0 [.receive 0 (sampleRequest "pause"), .receive 1 (sampleRequest "play"), .proceed 1,
    .proceed 1, .proceed 0, .proceed 0]

/-- The first answer is remembered before the second and announced after it. -/
def sampleCrossed : List (Event Player) :=
  sampleActs 0 [.receive 0 (sampleRequest "pause"), .receive 1 (sampleRequest "play"), .proceed 0,
    .proceed 1, .proceed 1, .proceed 0]

def sampleRead (now : Nanos) : Event Player :=
  .read fun p => (p.logNext ⟨now, Recording.sampleDisk⟩ (Hub.start sampleInfo 8)).2.1

/-- The playback ends, and the loop says so, before a request that was answered is published. -/
def sampleOutlived : List (Event Player) :=
  sampleActs 0 [.receive 0 (sampleRequest "play"), .proceed 0, .proceed 0] ++
  [sampleRead 0, sampleRead 0, sampleRead 4] ++
  sampleActs 4 [.receive 1 (sampleRequest "play")] ++ [sampleRead 4, .look] ++
  sampleActs 4 [.proceed 1, .proceed 1]

/-- What a server at rest has on display, as far as it tells the status: the newest section, the
state remembered and the state announced last. -/
def statuses (t : History π) : Option Status × Option Status × Option Status :=
  (t.sections.getLast?.map (·.status), t.server.hub.lastState.map (·.status),
    t.lastAnnounced.map (·.status))

/-- The newest snapshot need not be on display when the server is at rest: two requests can leave
the older one, or one of each, and a request can outlive the end of the playback. -/
theorem newest_not_displayed :
    ((sampleRun sampleOvertaken).Rests ∧ ¬ (sampleRun sampleOvertaken).NewestDisplayed ∧
      (sampleRun sampleOvertaken).statuses = (some .playing, some .paused, some .paused)) ∧
    ((sampleRun sampleCrossed).Rests ∧ ¬ (sampleRun sampleCrossed).NewestDisplayed ∧
      (sampleRun sampleCrossed).statuses = (some .playing, some .playing, some .paused)) ∧
    ((sampleRun sampleOutlived).Rests ∧ ¬ (sampleRun sampleOutlived).NewestDisplayed ∧
      (sampleRun sampleOutlived).statuses = (some .ended, some .playing, some .playing)) := by
  decide +kernel

/-- Every section begins when the server is at rest. -/
def Apart : History π → List (Event π) → Prop
  | _, [] => True
  | t, e :: es => ((t.step e).sections = t.sections ∨ t.Rests) ∧ Apart (t.step e) es

theorem InTurn.run (h : InTurn t) (es : List (Event π)) (hapart : Apart t es) :
    InTurn (t.run es) := by
  induction es generalizing t with
  | nil => exact h
  | cons e es ih =>
    have hnext : InTurn (t.step e) := by
      rcases step_moves e t with hsame | ⟨wasEnded, hm⟩
      · rw [hsame]
        exact h
      · have hlook : InTurn { t with wasEnded } := ⟨h.held, h.remembered, h.announced⟩
        exact hlook.moves hm hapart.1
    exact ih hnext hapart.2

/-- Where sections are apart, the newest snapshot is on display whenever the server is at rest. -/
theorem newest_displayed_of_apart (info : ServerInfo) (capacity : Nat) (p : π)
    (es : List (Event π)) (hapart : Apart (start (Server.start info capacity p)) es) :
    let t := (start (Server.start info capacity p)).run es
    t.Rests → t.NewestDisplayed := by
  intro t hrests
  have h : Accounted t := (accounted_start _ rfl (rests_start info capacity p)).run es
  have hturn : InTurn t := by
    refine InTurn.run ⟨?_, fun _ => rfl, fun _ => rfl⟩ es hapart
    intro n hn
    rw [(rests_start info capacity p).toAnnounce n] at hn
    cases hn
  have hlast : (List.range t.sections.length).getLast?.bind (t.sections[·]?) =
      t.sections.getLast? := by
    rw [List.getLast?_range, List.getLast?_eq_getElem?]
    split
    · rename_i hzero
      rw [hzero, List.eq_nil_of_length_eq_zero hzero]
      rfl
    · rfl
  refine ⟨?_, ?_⟩
  · rw [h.lastState, hturn.remembered fun n => toRemember_of_toAnnounce (hrests.toAnnounce n),
      hlast]
  · rw [h.lastAnnounced, hturn.announced hrests.toAnnounce, hlast]

end Replay.History
