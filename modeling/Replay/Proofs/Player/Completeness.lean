import Replay.Proofs.Player.Delivery
import Replay.Proofs.Recording.DataSection

/-!
What a play-through leaves out. Opening asks only whether any chunk is indexed, and a play-through
hands out the messages that the indexes lead to, so that a recording is handed out as a whole exactly
when no message of it stands outside its indexed chunks.
-/

namespace Replay.Player

open Recording

variable {s : Summary} {path : String} {file : File} {ids : FileId → Prop}

/-- A recording of which the summary is right is refused for its messages if no chunk is indexed,
and opened else. -/
theorem openFile_faithful {d : Disk} (o : Options) {statistics : Statistics} {ps : List Piece}
    (hthere : (d.open? path).isSome) (hkept : Kept path file ids d)
    (hs : Summary.ofFile file.bytes = .ok (some s)) (hf : s.Faithful file statistics ps) :
    (openFile d path o = .error (.unindexed path) ∧ 0 < statistics.messageCount ∧ s.chunks = []) ∨
    (¬ (0 < statistics.messageCount ∧ s.chunks = []) ∧ ∃ p, openFile d path o = .ok p ∧
      p.summary = s ∧ p.range.start = statistics.startTime) := by
  obtain ⟨id, hid⟩ := Option.isSome_iff_exists.mp hthere
  have hbytes : d.content id = file.bytes :=
    congrArg File.bytes (hkept.content id (hkept.named id hid))
  have hr : d.read? path = some file.bytes := by
    rw [Disk.read?, hid, Option.map_some, hbytes]
  rw [openFile_eq o hr hs hf.statistics_eq]
  by_cases hnone : 0 < statistics.messageCount ∧ s.chunks = []
  · exact Or.inl ⟨by simp [hnone], hnone⟩
  · obtain ⟨c, hc, _⟩ := Cursor.atTime_upcoming hf.readable statistics.startTime
    have hcursor : openCursor d path s statistics.startTime = .ok (id, c) := by
      simp only [openCursor, hid, hc]
      rfl
    refine Or.inr ⟨hnone, opened path o s statistics id c, ?_, rfl, rfl⟩
    rw [if_neg (by simpa using hnone), hcursor]
    rfl

section

variable {σ : Type} [Sink σ]

/-- The first part of a run begins where the run began. -/
theorem Session.head_parts_step (x : Session σ) (w : World) (o : Operation) :
    (x.step w o).parts.head?.map Part.start = x.parts.head?.map Part.start := by
  rcases x.step_cases w o with ⟨_, q, _, hx⟩ | ⟨t, q, _, _, hx⟩ | ⟨_, _, hx⟩
  · rw [hx]
    rfl
  · rw [hx]
    simp only [parts, List.head?_append]
    cases x.earlier.head? <;> rfl
  · rw [hx _ _ _ rfl]
    simp only [parts, List.head?_append]
    cases x.earlier.head? <;> rfl

theorem Session.head_parts_run (x : Session σ) (os : List (World × Operation)) :
    (x.run os).parts.head?.map Part.start = x.parts.head?.map Part.start := by
  induction os generalizing x with
  | nil => rfl
  | cons o os ih => exact (ih (x.step o.1 o.2)).trans (x.head_parts_step o.1 o.2)

/-- At the end nothing is left, whatever is asked of the player there. -/
theorem Delivering.ended_step {x : Session σ} (h : Delivering s path file ids x)
    (hread : s.Readable file) (he : x.player.status = .ended → x.player.upcoming file = [])
    {w : World} (hkept : Kept path file ids w.disk) (o : Operation)
    (hs : (x.step w o).player.status = .ended) : (x.step w o).player.upcoming file = [] := by
  by_cases hn : x.player.status = .ended
  · rcases x.step_cases w o with ⟨_, q, ⟨_, _, _, rfl, _⟩, hx⟩ | ⟨t, q, _, hq, hx⟩ | ⟨_, hp, _⟩
    · rw [hx]
      exact he hn
    · rw [hx] at hs
      obtain ⟨_, _, _, rfl⟩ := seek_ok hq
      simp [hn] at hs
    · rw [hn] at hp
      cases hp
  · obtain ⟨rfl, hp, hu⟩ := (h.step_ended_iff hread hkept o hn).mp hs
    obtain ⟨c, _, _, hrest, hlog⟩ := logNext_end (s := (⟨x.sink, []⟩ : Traced σ))
      (h.summary_eq ▸ hread) (h.summary_eq.symm ▸ h.sound) (hkept.content _ h.file_mem) hp hu
    have hpending : x.player.pending.toList = [] := (List.append_eq_nil_iff.mp hu).1
    rcases x.step_cases w .next with ⟨hno, _⟩ | ⟨_, _, ho, _⟩ | ⟨_, _, hx⟩
    · exact absurd hp (hno rfl)
    · cases ho
    · rw [hx _ _ _ hlog]
      simp [upcoming, hpending, hrest]

theorem Delivering.ended_run {x : Session σ} (h : Delivering s path file ids x)
    (hread : s.Readable file) (he : x.player.status = .ended → x.player.upcoming file = [])
    {os : List (World × Operation)} (hkept : ∀ o ∈ os, Kept path file ids o.1.disk) :
    (x.run os).player.status = .ended → (x.run os).player.upcoming file = [] := by
  induction os generalizing x with
  | nil => exact he
  | cons o os ih =>
    have ho := hkept o (by simp)
    exact ih (h.step hread ho o.2) (h.ended_step hread he ho o.2)
      fun o' ho' => hkept o' (by simp [ho'])

/-- The messages that a play-through hands out are those from the start on that can be read. -/
theorem length_messages_of_ended {d : Disk} {o : Options} {p : Player}
    (hopen : openFile d path o = .ok p) (hread : p.summary.Readable file)
    (hkept : Kept path file ids d) (k : σ) {os : List (World × Operation)}
    (hos : ∀ o ∈ os, Kept path file ids o.1.disk)
    (hfirst : ((Session.start p k).run os).earlier = [])
    (hend : ((Session.start p k).run os).player.status = .ended) :
    ((Session.start p k).run os).part.messages.length =
      (p.summary.entriesFrom file p.range.start).length := by
  have hstart := Delivering.start hopen hread hkept k
  have hbegin : (Session.start p k).player.status = .ended →
      (Session.start p k).player.upcoming file = [] := by
    obtain ⟨_, _, _, _, _, hstatus, _⟩ := openFile_ok hopen
    intro he
    rw [show (Session.start p k).player.status = p.status from rfl, hstatus] at he
    cases he
  have hfrom : ((Session.start p k).run os).part.start = p.range.start := by
    have hhead := (Session.start p k).head_parts_run os
    rw [Session.parts, hfirst] at hhead
    exact Option.some.inj hhead
  have hall := (hstart.run hread hos).upcoming_eq_nil_iff.mp
    (hstart.ended_run hread hbegin hos hend)
  rw [hfrom] at hall
  simpa using congrArg List.length hall

/-- Whatever stands in the data section of a recording of which the summary is right: it is refused
exactly if it has messages and no chunk is indexed. Else it is opened, and a play-through from the
start to the end hands out as many messages as the statistics count, less those that no index leads
to. -/
theorem handed_out_whole_iff_indexed {d : Disk} (o : Options) {statistics : Statistics}
    {ps : List Piece} (hthere : (d.open? path).isSome) (hkept : Kept path file ids d)
    (hs : Summary.ofFile file.bytes = .ok (some s)) (hps : Piece.ofFile file = .ok ps)
    (hf : s.Faithful file statistics ps) :
    (openFile d path o = .error (.unindexed path) ↔
      0 < statistics.messageCount ∧ s.chunks = []) ∧
    (openFile d path o ≠ .error (.unindexed path) → ∃ p, openFile d path o = .ok p ∧
      ∀ (k : σ) (os : List (World × Operation)), (∀ o ∈ os, Kept path file ids o.1.disk) →
        let x := (Session.start p k).run os
        x.earlier = [] → x.player.status = .ended →
          x.part.messages.length + (s.outside ps).length = statistics.messageCount ∧
          (x.part.messages.length = statistics.messageCount ↔ s.outside ps = [])) := by
  rcases openFile_faithful o hthere hkept hs hf with ⟨hrefused, hnone⟩ |
    ⟨hsome, p, hopen, rfl, hrange⟩
  · exact ⟨⟨fun _ => hnone, fun _ => hrefused⟩, fun h => absurd hrefused h⟩
  · refine ⟨⟨fun h => ?_, fun h => absurd h hsome⟩, fun _ => ⟨p, hopen, ?_⟩⟩
    · rw [hopen] at h
      cases h
    · intro k os hos x hfirst hend
      have hlen := length_messages_of_ended hopen hf.readable hkept k hos hfirst hend
      have hall := hf.length_entriesFrom hps
      rw [← hrange, ← hlen] at hall
      refine ⟨hall, ?_⟩
      rw [← hall, Nat.left_eq_add, List.length_eq_zero_iff]

end

def mixedPlayer : Player where
  path := "a"
  interval := Limiter.defaultInterval
  summary := mixedSummary
  range := ⟨3, 9⟩
  file := 0
  cursor := ⟨3, [], mixedSummary.chunks⟩
  pending := none
  pace := none
  currentTime := 3
  status := .paused
  speed := Speed.clamp (Binary64.ofNat 1)
  channels := []

theorem mixed_opens : openFile mixedDisk "a" .default = .ok mixedPlayer :=
  eq_ok_of_toOption (by decide +kernel)

theorem mixedDisk_kept : Kept "a" mixed (· = 0) mixedDisk := .written "a" mixed.bytes

def mixedRun : List (World × Operation) :=
  [(⟨0, mixedDisk⟩, .play), (⟨1, mixedDisk⟩, .next), (⟨1, mixedDisk⟩, .next),
    (⟨2, mixedDisk⟩, .next)]

theorem mixed_handed_out_but_one :
    let x := (Session.start mixedPlayer Recorder.empty).run mixedRun
    (mixedDisk.open? "a").isSome ∧ Kept "a" mixed (· = 0) mixedDisk ∧
    Summary.ofFile mixed.bytes = .ok (some mixedSummary) ∧ Piece.ofFile mixed = .ok mixedPieces ∧
    mixedSummary.Faithful mixed ⟨3, 3, 9⟩ mixedPieces ∧
    openFile mixedDisk "a" .default = .ok mixedPlayer ∧ x.earlier = [] ∧ x.player.status = .ended ∧
    x.part.messages.length + 1 = 3 := by
  dsimp only
  have hrun : ∀ o ∈ mixedRun, Kept "a" mixed (· = 0) o.1.disk := by
    have hdisks : ∀ o ∈ mixedRun, o.1.disk = mixedDisk := by simp [mixedRun]
    exact fun o ho => hdisks o ho ▸ mixedDisk_kept
  have hfirst : ((Session.start mixedPlayer Recorder.empty).run mixedRun).earlier = [] := by
    decide +kernel
  have hend : ((Session.start mixedPlayer Recorder.empty).run mixedRun).player.status = .ended := by
    decide +kernel
  obtain ⟨_, hplay⟩ := handed_out_whole_iff_indexed (σ := Recorder) .default rfl mixedDisk_kept
    mixed_summary mixed_pieces mixed_faithful
  obtain ⟨p, hopen, hall⟩ := hplay (by rw [mixed_opens]; exact nofun)
  obtain rfl : mixedPlayer = p := Except.ok.inj (mixed_opens.symm.trans hopen)
  have hcount := (hall Recorder.empty mixedRun hrun hfirst hend).1
  have hone : (mixedSummary.outside mixedPieces).length = 1 := by decide +kernel
  rw [hone] at hcount
  exact ⟨rfl, mixedDisk_kept, mixed_summary, mixed_pieces, mixed_faithful, mixed_opens, hfirst, hend,
    hcount⟩

/-- A recording with a message that is in no chunk is opened all the same, and played to the end
without it. -/
theorem mixed_opened_and_truncated :
    mixedSummary.Faithful mixed ⟨3, 3, 9⟩ mixedPieces ∧
    .message ⟨1, 9, [3]⟩ ∈ mixedPieces ∧ mixedSummary.outside mixedPieces = [⟨1, 9, [3]⟩] ∧
    openFile mixedDisk "a" .default = .ok mixedPlayer ∧
    openFile mixedDisk "a" .default ≠ .error (.unindexed "a") ∧
    let x := (Session.start mixedPlayer Recorder.empty).run mixedRun
    x.player.status = .ended ∧ x.part.messages = [.message 1 [1] 5, .message 1 [2] 3] ∧
      x.part.messages.length ≠ 3 := by
  refine ⟨mixed_faithful, by decide +kernel, by decide +kernel, mixed_opens, ?_, by decide +kernel,
    by decide +kernel, by decide +kernel⟩
  rw [mixed_opens]
  exact nofun

end Replay.Player
