import Replay.Proofs.Player.Session

/-!
Nothing is lost, told twice or out of order. In every part of a run the messages given to the sink
are the first of the stored ones from the part's start on, and a player comes to the end when it is
asked for more after all of them.
-/

namespace Replay.Player

open Recording

theorem Learns.logging {p q : Player} {events : List Event} (h : p.Learns q events) {e : Entry}
    {call : Event} (he : p.logging e = some call) : q.logging e = some call := by
  obtain ⟨id, hid, rfl⟩ := Option.map_eq_some_iff.mp he
  simp [Player.logging, h.keeps _ _ hid]

theorem Learns.map_logging {p q : Player} {events : List Event} (h : p.Learns q events)
    {calls : List Event} {es : List Entry} (he : calls.map some = es.map p.logging) :
    calls.map some = es.map q.logging := by
  rw [he]
  apply List.map_congr_left
  intro e hm
  have hlog : p.logging e ∈ calls.map some := he ▸ List.mem_map_of_mem hm
  obtain ⟨call, _, hcall⟩ := List.mem_map.mp hlog
  rw [← hcall, h.logging hcall.symm]

theorem Learns.prefix_logging {p q : Player} {events : List Event} (h : p.Learns q events)
    {calls : List Event} {es : List Entry} (he : calls.map some <+: es.map p.logging) :
    calls.map some <+: es.map q.logging := by
  have htake : calls.map some = (es.take calls.length).map p.logging := by
    simpa [List.map_take] using List.prefix_iff_eq_take.mp he
  rw [h.map_logging htake, List.map_take]
  exact List.take_prefix _ _

variable {σ : Type}

/-- What a run of a player of the recording `s` keeps: what the present part has given and what is
still to come are together the messages from the part's start on. -/
structure Delivering (s : Summary) (path : String) (file : File) (ids : FileId → Prop)
    (x : Session σ) : Prop where
  summary_eq : x.player.summary = s
  path_eq : x.player.path = path
  file_mem : ids x.player.file
  sound : x.player.cursor.Sound s
  present : ∃ given, s.entriesFrom file x.part.start = given ++ x.player.upcoming file ∧
    x.part.messages.map some = given.map x.player.logging
  earlier : ∀ part ∈ x.earlier,
    part.messages.map some <+: (s.entriesFrom file part.start).map x.player.logging
  named : ∀ y ∈ x.player.channels,
    ∃ part ∈ x.parts, ∃ c : Channel, c.topic = y.1 ∧ .channel y.2 c ∈ part.events

variable {s : Summary} {path : String} {file : File} {ids : FileId → Prop}

theorem Delivering.retimed {x : Session σ} (h : Delivering s path file ids x) {q : Player}
    (hq : x.player.Retimed q) : Delivering s path file ids { x with player := q } := by
  obtain ⟨pace, status, speed, rfl, _⟩ := hq
  exact ⟨h.summary_eq, h.path_eq, h.file_mem, h.sound, h.present, h.earlier, h.named⟩

/-- A player that has come to the end had nothing more to give. -/
theorem Delivering.ended {x : Session σ} (h : Delivering s path file ids x)
    (hu : x.player.upcoming file = []) {c : Cursor} (hc : c.Sound s)
    (hrest : c.upcoming s file = []) :
    Delivering s path file ids { x with player := { x.player with
      cursor := c, status := .ended, currentTime := x.player.range.stop } } := by
  refine ⟨h.summary_eq, h.path_eq, h.file_mem, hc, ?_, h.earlier, h.named⟩
  obtain ⟨given, hall, hgiven⟩ := h.present
  refine ⟨given, ?_, hgiven⟩
  have hpending : x.player.pending.toList = [] := (List.append_eq_nil_iff.mp hu).1
  rw [hall, hu]
  simp [upcoming, hpending, h.summary_eq, hrest]

theorem Delivering.moved {x : Session σ} (h : Delivering s path file ids x)
    (hread : s.Readable file) {d : Disk} (hkept : Kept path file ids d) {t : Nanos} {q : Player}
    (hq : x.player.seek d t = .ok q) :
    Delivering s path file ids ⟨q, x.sink, x.parts, ⟨x.player.range.clamp t, []⟩⟩ := by
  obtain ⟨id, c, ho, rfl⟩ := seek_ok hq
  rw [h.summary_eq, h.path_eq] at ho
  obtain ⟨hid, hsound, _, hup⟩ := openCursor_readable hread hkept ho
  refine ⟨h.summary_eq, h.path_eq, hid, hsound, ⟨[], ?_, rfl⟩, ?_, ?_⟩
  · simp only [upcoming, h.summary_eq, hup, Option.toList_none, List.nil_append]
  · intro part hpart
    rcases List.mem_append.mp hpart with hpart | hpart
    · exact h.earlier part hpart
    · obtain rfl := List.mem_singleton.mp hpart
      obtain ⟨given, hall, hgiven⟩ := h.present
      rw [hall, hgiven, List.map_append]
      exact List.prefix_append _ _
  · intro y hy
    obtain ⟨part, hpart, hc⟩ := h.named y hy
    exact ⟨part, List.mem_append_left _ hpart, hc⟩

theorem Delivering.kept {x : Session σ} (h : Delivering s path file ids x) {e : Entry}
    {es : List Entry} (hu : x.player.upcoming file = e :: es) {c : Cursor} (hc : c.Sound s)
    (hrest : c.upcoming s file = es) (now : Nanos) :
    Delivering s path file ids
      { x with player := keeping now e { x.player with cursor := c } } := by
  refine ⟨h.summary_eq, h.path_eq, h.file_mem, hc, ?_, h.earlier, h.named⟩
  obtain ⟨given, hall, hgiven⟩ := h.present
  refine ⟨given, ?_, hgiven⟩
  rw [hall, hu, ← hrest, ← h.summary_eq]
  rfl

/-- A message that goes to the sink is the next of its part. -/
theorem Delivering.given [Sink σ] {x : Session σ} (h : Delivering s path file ids x) {e : Entry}
    {es : List Entry} (hu : x.player.upcoming file = e :: es) {c : Cursor} (hc : c.Sound s)
    (hrest : c.upcoming s file = es) (now : Nanos) (tick : Bool) {q : Player} {k : Traced σ}
    (hq : emit e tick (passing now e { x.player with cursor := c }) ⟨x.sink, []⟩ = (q, k)) :
    Delivering s path file ids
      ⟨q, k.sink, x.earlier, { x.part with events := x.part.events ++ k.events }⟩ := by
  obtain ⟨id, channels, sink, before, hemit, hno, hid, hlearns⟩ :=
    emit_traced e tick (passing now e { x.player with cursor := c }) x.sink
  rw [hemit, Prod.mk.injEq] at hq
  obtain ⟨rfl, rfl⟩ := hq
  have hknown : x.player.Learns
      { passing now e { x.player with cursor := c } with channels } before :=
    ⟨hlearns.keeps, hlearns.given⟩
  refine ⟨h.summary_eq, h.path_eq, h.file_mem, hc, ?_, fun part hpart =>
    hknown.prefix_logging (h.earlier part hpart), ?_⟩
  · obtain ⟨given, hall, hgiven⟩ := h.present
    refine ⟨given ++ [e], ?_, ?_⟩
    · rw [hall, hu, ← hrest, ← h.summary_eq, List.append_assoc]
      rfl
    · have hmessage : Player.logging { passing now e { x.player with cursor := c } with channels } e =
          some (.message id e.payload e.logTime) := by
        simp only [Player.logging, hid, Option.map_some]
      simp only [Part.messages, List.filter_append, hno, List.nil_append, List.map_append] at hgiven ⊢
      rw [hknown.map_logging hgiven, List.map_singleton, hmessage]
      rfl
  · intro y hy
    rcases hlearns.given y hy with hold | ⟨ch, hch, hm⟩
    · obtain ⟨part, hpart, ch, hch, hm⟩ := h.named y hold
      rcases List.mem_append.mp hpart with hpart | hpart
      · exact ⟨part, List.mem_append_left _ hpart, ch, hch, hm⟩
      · obtain rfl := List.mem_singleton.mp hpart
        exact ⟨_, List.mem_append_right _ (List.mem_singleton_self _), ch, hch,
          List.mem_append_left _ hm⟩
    · exact ⟨_, List.mem_append_right _ (List.mem_singleton_self _), ch, hch,
        List.mem_append_right _ (List.mem_append_left _ hm)⟩

theorem Delivering.start {d : Disk} {o : Options} {p : Player}
    (ho : openFile d path o = .ok p) (hread : p.summary.Readable file)
    (hkept : Kept path file ids d) (k : σ) :
    Delivering p.summary path file ids (Session.start p k) := by
  obtain ⟨hpath, hopen, hpending, _, _, _, hchannels⟩ := openFile_ok ho
  obtain ⟨hid, hsound, _, hup⟩ := openCursor_readable hread hkept hopen
  refine ⟨rfl, hpath, hid, hsound, ⟨[], ?_, rfl⟩, nofun, ?_⟩
  · simp [Session.start, upcoming, hpending, hup]
  · simp [Session.start, hchannels]

theorem Delivering.upcoming_eq_nil_iff {x : Session σ} (h : Delivering s path file ids x) :
    x.player.upcoming file = [] ↔
      x.part.messages.map some = (s.entriesFrom file x.part.start).map x.player.logging := by
  obtain ⟨given, hall, hgiven⟩ := h.present
  rw [hall, hgiven, List.map_append, List.self_eq_append_right, List.map_eq_nil_iff]

variable [Sink σ]

theorem Delivering.step {x : Session σ} (h : Delivering s path file ids x)
    (hread : s.Readable file) {w : World} (hkept : Kept path file ids w.disk) (o : Operation) :
    Delivering s path file ids (x.step w o) := by
  rcases x.step_cases w o with ⟨_, q, hq, hx⟩ | ⟨t, q, _, hq, hx⟩ | ⟨_, hp, hx⟩
  · rw [hx]
    exact h.retimed hq
  · rw [hx]
    exact h.moved hread hkept hq
  · have hread' : x.player.summary.Readable file := h.summary_eq ▸ hread
    have hsound : x.player.cursor.Sound x.player.summary := h.summary_eq.symm ▸ h.sound
    have hf := hkept.content _ h.file_mem
    cases hu : x.player.upcoming file with
    | nil =>
      obtain ⟨c, _, hc, hrest, hlog⟩ :=
        logNext_end hread' hsound hf hp hu (s := (⟨x.sink, []⟩ : Traced σ))
      rw [hx _ _ _ hlog]
      simpa using h.ended hu (h.summary_eq ▸ hc) (h.summary_eq ▸ hrest)
    | cons e es =>
      obtain ⟨c, _, hc, hrest, ⟨span, _, _, hlog⟩ | ⟨_, hlog⟩⟩ :=
        logNext_next hread' hsound hf hp hu (s := (⟨x.sink, []⟩ : Traced σ))
      · rw [hx _ _ _ hlog]
        simpa using h.kept hu (h.summary_eq ▸ hc) (h.summary_eq ▸ hrest) w.now
      · rw [hx _ _ _ hlog]
        exact h.given hu (h.summary_eq ▸ hc) (h.summary_eq ▸ hrest) w.now _ rfl

theorem Delivering.run {x : Session σ} (h : Delivering s path file ids x)
    (hread : s.Readable file) {os : List (World × Operation)}
    (hkept : ∀ o ∈ os, Kept path file ids o.1.disk) :
    Delivering s path file ids (x.run os) := by
  induction os generalizing x with
  | nil => exact h
  | cons o os ih =>
    exact ih (h.step hread (hkept o (by simp)) o.2) fun o' ho' => hkept o' (by simp [ho'])

/-- A player comes to the end by being asked for more after the last message, and in no other
way. -/
theorem Delivering.step_ended_iff {x : Session σ} (h : Delivering s path file ids x)
    (hread : s.Readable file) {w : World} (hkept : Kept path file ids w.disk) (o : Operation)
    (hn : x.player.status ≠ .ended) :
    (x.step w o).player.status = .ended ↔
      o = .next ∧ x.player.status = .playing ∧ x.player.upcoming file = [] := by
  rcases x.step_cases w o with ⟨ho, q, ⟨pace, status, speed, rfl, hs⟩, hx⟩ | ⟨t, q, rfl, hq, hx⟩ |
    ⟨rfl, hp, hx⟩
  · rw [hx]
    exact ⟨fun he => absurd (hs.mp he) hn, fun ⟨h₁, h₂, _⟩ => absurd h₂ (ho h₁)⟩
  · rw [hx]
    obtain ⟨_, _, _, rfl⟩ := seek_ok hq
    simp [hn]
  · have hread' : x.player.summary.Readable file := h.summary_eq ▸ hread
    have hsound : x.player.cursor.Sound x.player.summary := h.summary_eq.symm ▸ h.sound
    have hf := hkept.content _ h.file_mem
    cases hu : x.player.upcoming file with
    | nil =>
      obtain ⟨c, _, _, _, hlog⟩ :=
        logNext_end hread' hsound hf hp hu (s := (⟨x.sink, []⟩ : Traced σ))
      simp [hx _ _ _ hlog, hp]
    | cons e es =>
      obtain ⟨c, _, _, _, ⟨span, _, _, hlog⟩ | ⟨_, hlog⟩⟩ :=
        logNext_next hread' hsound hf hp hu (s := (⟨x.sink, []⟩ : Traced σ))
      · simp [hx _ _ _ hlog, hp, keeping]
      · obtain ⟨_, channels, sink, before, hemit, _⟩ := emit_traced e
          ((x.player.paceFor w.now e).limiter.pass? e.logTime).isSome
          (passing w.now e { x.player with cursor := c }) x.sink
        rw [hemit] at hlog
        simp [hx _ _ _ hlog, hp, passing]

/-- However a player of a readable recording is driven: each part of the run gives to the sink the
first of the stored messages from its start on, each under an id that was given for its topic, and
the player comes to the end exactly when it is asked for more while it plays and all of them are
given. -/
theorem delivers_in_stored_order {d : Disk} {o : Options} {p : Player}
    (hopen : openFile d path o = .ok p) (hread : p.summary.Readable file)
    (hkept : Kept path file ids d) (k : σ) (os : List (World × Operation))
    (hos : ∀ o ∈ os, Kept path file ids o.1.disk) :
    let x := (Session.start p k).run os
    (∀ part ∈ x.parts, part.messages.map some <+:
      (p.summary.entriesFrom file part.start).map x.player.logging) ∧
    (∀ y ∈ x.player.channels,
      ∃ part ∈ x.parts, ∃ c : Channel, c.topic = y.1 ∧ .channel y.2 c ∈ part.events) ∧
    (∀ w o, Kept path file ids w.disk → x.player.status ≠ .ended →
      ((x.step w o).player.status = .ended ↔ o = .next ∧ x.player.status = .playing ∧
        x.part.messages.map some =
          (p.summary.entriesFrom file x.part.start).map x.player.logging)) := by
  intro x
  have h : Delivering p.summary path file ids x :=
    (Delivering.start hopen hread hkept k).run hread hos
  refine ⟨?_, h.named, ?_⟩
  · intro part hpart
    rcases List.mem_append.mp hpart with hpart | hpart
    · exact h.earlier part hpart
    · obtain rfl := List.mem_singleton.mp hpart
      obtain ⟨given, hall, hgiven⟩ := h.present
      rw [hall, hgiven, List.map_append]
      exact List.prefix_append _ _
  · intro w o hw hn
    rw [h.step_ended_iff hread hw o hn, h.upcoming_eq_nil_iff]

/-- A run with a failed move, a delay and a move back, up to the end. -/
def sampleRun : List (World × Operation) :=
  [(⟨0, sampleDisk⟩, .play), (⟨1, sampleDisk⟩, .next), (⟨1, sampleDisk.remove "a"⟩, .seek 9),
    (⟨1, sampleDisk⟩, .next), (⟨2, sampleDisk⟩, .next), (⟨3, sampleDisk⟩, .seek 4),
    (⟨3, sampleDisk⟩, .next), (⟨9, sampleDisk⟩, .next), (⟨9, sampleDisk⟩, .next)]

theorem delivers_sample :
    openFile sampleDisk "a" .default = .ok samplePlayer ∧ samplePlayer.summary.Readable sample ∧
    (∀ o ∈ sampleRun, Kept "a" sample (· = 0) o.1.disk) ∧
    let x := (Session.start samplePlayer Recorder.empty).run sampleRun
    (∀ part ∈ x.parts, part.messages.map some <+:
      (sampleSummary.entriesFrom sample part.start).map x.player.logging) ∧
    x.parts.map Part.messages =
      [[.message 1 [1] 5, .message 1 [2] 3], [.message 1 [1] 5, .message 1 [3] 9]] ∧
    x.player.status = .ended := by
  have hrun : ∀ o ∈ sampleRun, Kept "a" sample (· = 0) o.1.disk := by
    have hdisks : ∀ o ∈ sampleRun, o.1.disk = sampleDisk ∨ o.1.disk = sampleDisk.remove "a" := by
      simp [sampleRun]
    exact fun o ho => sampleDisk_kept (hdisks o ho)
  have hall := delivers_in_stored_order sample_opens sample_readable (sampleDisk_kept (.inl rfl))
    Recorder.empty sampleRun hrun
  exact ⟨sample_opens, sample_readable, hrun, hall.1, by decide +kernel, by decide +kernel⟩

end Replay.Player
