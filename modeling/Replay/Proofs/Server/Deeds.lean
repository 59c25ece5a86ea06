import Replay.Proofs.Server.Moves

/-!
What the deeds of a connection tell: which places of the feed it has behind it, what its viewer is
subscribed to, and how far it is with bringing its viewer up to date. Each is carried from deed to
deed by what a connection can do (`Moves.tiled`, `Moves.subscribes`, `Moves.recovering`).
-/

namespace Replay

namespace Viewer

namespace Deed

def taken? : Deed → Option Nat
  | .take place _ => some place
  | _ => none

def isMiss : Deed → Bool
  | .miss .. => true
  | _ => false

/-- Whether a viewer is subscribed to a channel after a deed, if it `was` before. -/
def subscribes (id : ChannelId) (was : Bool) : Deed → Bool
  | .hear x channels => x.subscribes channels id was
  | _ => was

end Deed

/-- Whether a viewer with these deeds behind it is subscribed to a channel. -/
def subscribed (ds : List Deed) (id : ChannelId) : Bool := ds.foldl (Deed.subscribes id) false

def Takes (ds : List Deed) (i : Nat) : Prop := ∃ xs, .take i xs ∈ ds

def Misses (ds : List Deed) (i : Nat) : Prop :=
  ∃ place next sent, .miss place next sent ∈ ds ∧ place ≤ i ∧ i < next

/-- Brings a viewer up to date with the channels and the state that it finds. -/
def catchUpDeeds (channels : List Advertised) (last : Option State) : List Deed :=
  .lookUp channels :: .lookUpState last :: (Hub.catchUp channels last).map .tell

/-- After it has missed something a connection brings its viewer up to date. As long as it has not,
it is not live. -/
def Recovers (stage : Stage) (after : List Deed) : Prop :=
  ∃ channels last, catchUpDeeds channels last <+: after ∨
    after <+: catchUpDeeds channels last ∧ stage.isCurrent = false

/-- What holds of each deed, with those before it. -/
def Throughout (p : List Deed → Deed → Prop) : List Deed → List Deed → Prop
  | _, [] => True
  | before, d :: ds => p before d ∧ Throughout p (before ++ [d]) ds

variable {p q : List Deed → Deed → Prop} {before ds es : List Deed}

theorem throughout_append : Throughout p before (ds ++ es) ↔
    Throughout p before ds ∧ Throughout p (before ++ ds) es := by
  induction ds generalizing before with
  | nil => simp [Throughout]
  | cons d ds ih =>
    rw [List.cons_append, Throughout, Throughout, ih, List.append_assoc, and_assoc]
    rfl

theorem Throughout.imp (h : Throughout p before ds) (hpq : ∀ before d, p before d → q before d) :
    Throughout q before ds := by
  induction ds generalizing before with
  | nil => trivial
  | cons d ds ih => exact ⟨hpq _ _ h.1, ih h.2⟩

theorem Throughout.at (h : Throughout p [] ds) {d : Deed} {after : List Deed}
    (hds : ds = before ++ d :: after) : p before d := by
  rw [hds] at h
  exact (throughout_append.mp h).2.1

theorem throughout_of_forall (h : ∀ before, ∀ d ∈ ds, p before d) : Throughout p before ds := by
  induction ds generalizing before with
  | nil => trivial
  | cons d ds ih =>
    exact ⟨h _ d List.mem_cons_self, ih fun _ e he => h _ e (List.mem_cons_of_mem _ he)⟩

/-- What a deed is where these items were published and a feed of this room had them. -/
def Deed.Proper (published : List Hub.Posting) (room : Nat) (before : List Deed) : Deed → Prop
  | .tell x => x.NoMessage
  | .take i xs => ∃ p, published[i]? = some p ∧ xs = p.forwarded (subscribed before)
  | .miss place next sent => place < next ∧ next + room = sent ∧ sent ≤ published.length
  | _ => True

variable {i : Nat}

theorem takes_append : Takes (ds ++ es) i ↔ Takes ds i ∨ Takes es i := by
  simp only [Takes, List.mem_append, exists_or]

theorem misses_append : Misses (ds ++ es) i ↔ Misses ds i ∨ Misses es i := by
  simp only [Misses, List.mem_append, or_and_right, exists_or]

theorem takes_singleton {place : Nat} {xs : List Outgoing} :
    Takes [.take place xs] i ↔ i = place := by
  simp [Takes]

theorem misses_singleton {place next sent : Nat} :
    Misses [.miss place next sent] i ↔ place ≤ i ∧ i < next := by
  constructor
  · rintro ⟨_, _, _, hmem, hi⟩
    cases List.mem_singleton.mp hmem
    exact hi
  · exact fun hi => ⟨place, next, sent, List.mem_singleton_self _, hi⟩

theorem not_misses_take {place : Nat} {xs : List Outgoing} : ¬ Misses [.take place xs] i := by
  simp [Misses]

theorem not_takes_miss {place next sent : Nat} : ¬ Takes [.miss place next sent] i := by
  simp [Takes]

/-- The places from the first one up to the one that is next are each taken or missed. -/
structure Tiled (first : Nat) (ds : List Deed) (place : Nat) : Prop where
  le : first ≤ place
  covers : ∀ i, first ≤ i ∧ i < place ↔ Takes ds i ∨ Misses ds i
  apart : ∀ i, ¬ (Takes ds i ∧ Misses ds i)
  increasing : (ds.filterMap Deed.taken?).Pairwise (· < ·)

theorem Tiled.lt_of_taken {first place : Nat} (h : Tiled first ds place)
    (hi : i ∈ ds.filterMap Deed.taken?) : i < place := by
  obtain ⟨d, hd, he⟩ := List.mem_filterMap.mp hi
  cases d with
  | take j xs =>
    obtain rfl := Option.some.inj he
    exact ((h.covers j).mpr (Or.inl ⟨xs, hd⟩)).2
  | _ => cases he

theorem Tiled.quiet {first place : Nat} (h : Tiled first ds place)
    (hes : ∀ e ∈ es, e.taken? = none ∧ e.isMiss = false) : Tiled first (ds ++ es) place := by
  have htakes : ∀ i, ¬ Takes es i := by
    rintro i ⟨xs, hmem⟩
    exact absurd (hes _ hmem).1 nofun
  have hmisses : ∀ i, ¬ Misses es i := by
    rintro i ⟨_, _, _, hmem, _⟩
    exact absurd (hes _ hmem).2 nofun
  have hnone : es.filterMap Deed.taken? = [] :=
    List.filterMap_eq_nil_iff.mpr fun e he => (hes e he).1
  refine ⟨h.le, ?_, ?_, ?_⟩
  · intro i
    rw [takes_append, misses_append, or_iff_left (htakes i), or_iff_left (hmisses i)]
    exact h.covers i
  · intro i
    rw [takes_append, misses_append, or_iff_left (htakes i), or_iff_left (hmisses i)]
    exact h.apart i
  · rw [List.filterMap_append, hnone, List.append_nil]
    exact h.increasing

theorem Tiled.take {first place : Nat} (h : Tiled first ds place) (xs : List Outgoing) :
    Tiled first (ds ++ [.take place xs]) (place + 1) := by
  have hle := h.le
  refine ⟨Nat.le_succ_of_le hle, ?_, ?_, ?_⟩
  · intro i
    have hcovers := h.covers i
    rw [takes_append, misses_append, takes_singleton, or_iff_left not_misses_take,
      or_right_comm, ← hcovers]
    omega
  · intro i
    rw [takes_append, misses_append, takes_singleton, or_iff_left not_misses_take]
    rintro ⟨htakes | rfl, hmisses⟩
    · exact h.apart i ⟨htakes, hmisses⟩
    · exact absurd ((h.covers i).mpr (Or.inr hmisses)).2 (Nat.lt_irrefl _)
  · rw [List.filterMap_append]
    refine List.pairwise_append.mpr ⟨h.increasing, List.pairwise_singleton _ _, ?_⟩
    intro i hi j hj
    obtain rfl := List.mem_singleton.mp hj
    exact h.lt_of_taken hi

theorem Tiled.miss {first place next : Nat} (h : Tiled first ds place) (hnext : place < next)
    (sent : Nat) : Tiled first (ds ++ [.miss place next sent]) next := by
  have hle := h.le
  refine ⟨Nat.le_of_lt (Nat.lt_of_le_of_lt hle hnext), ?_, ?_, ?_⟩
  · intro i
    have hcovers := h.covers i
    rw [takes_append, misses_append, misses_singleton, or_iff_left not_takes_miss,
      ← or_assoc, ← hcovers]
    omega
  · intro i
    rw [takes_append, misses_append, misses_singleton, or_iff_left not_takes_miss]
    rintro ⟨htakes, hmisses | ⟨hfrom, _⟩⟩
    · exact h.apart i ⟨htakes, hmisses⟩
    · exact absurd ((h.covers i).mpr (Or.inl htakes)).2 (Nat.not_lt.mpr hfrom)
  · rw [List.filterMap_append]
    exact (List.append_nil _).symm ▸ h.increasing

theorem tiled_attach (first : Nat) : Tiled first [.attach first] first := by
  refine ⟨Nat.le_refl _, ?_, ?_, List.Pairwise.nil⟩
  · intro i
    simp only [Takes, Misses, List.mem_singleton, reduceCtorEq, exists_false, false_and, or_self,
      iff_false]
    omega
  · intro i h
    obtain ⟨⟨_, hmem⟩, _⟩ := h
    simp at hmem

/-- How far a connection is with bringing its viewer up to date. -/
inductive Recovering : List Deed → Stage → Prop where
  | begins : Recovering [] .lookingUpChannels
  | found (channels : List Advertised) : Recovering [.lookUp channels] (.lookingUpState channels)
  | tells (channels : List Advertised) (last : Option State) (told rest : List Outgoing)
      (h : Hub.catchUp channels last = told ++ rest) :
      Recovering (.lookUp channels :: .lookUpState last :: told.map .tell) (.catchingUp rest)
  | left (channels : List Advertised) (last : Option State) (after : List Deed)
      (h : after <+: catchUpDeeds channels last) : Recovering after .gone
  | done (channels : List Advertised) (last : Option State) (rest : List Deed) (stage : Stage) :
      Recovering (catchUpDeeds channels last ++ rest) stage

theorem Recovering.recovers {after : List Deed} {stage : Stage} (h : Recovering after stage) :
    Recovers stage after := by
  cases h with
  | begins => exact ⟨[], none, Or.inr ⟨List.nil_prefix, rfl⟩⟩
  | found channels => exact ⟨channels, none, Or.inr ⟨⟨_, rfl⟩, rfl⟩⟩
  | tells channels last told rest h =>
    refine ⟨channels, last, Or.inr ⟨⟨rest.map .tell, ?_⟩, rfl⟩⟩
    simp [catchUpDeeds, h]
  | left channels last after h => exact ⟨channels, last, Or.inr ⟨h, rfl⟩⟩
  | done channels last rest stage => exact ⟨channels, last, Or.inl (List.prefix_append _ _)⟩

section

variable {hub : Hub} {v v' : Viewer} (hm : Moves hub v es v')

include hm

theorem Moves.sends : v'.sent = v.sent ++ es.flatMap Deed.sends := by
  cases hm with
  | take p hv hp => simp [Deed.sends]
  | hear x stage subscriptions replies hv hs hsubs hreplies =>
    have htold : (replies.map Deed.tell).flatMap Deed.sends = replies := by
      rw [List.flatMap_map]
      exact List.flatMap_singleton' replies
    rw [List.flatMap_cons, htold]
    rfl
  | _ => simp [Deed.sends]

theorem Moves.subscribes (id : ChannelId) : id ∈ v'.subscriptions ↔
    es.foldl (Deed.subscribes id) (decide (id ∈ v.subscriptions)) = true := by
  cases hm with
  | hear x stage subscriptions replies hv hs hsubs hreplies =>
    have htold : ∀ was, (replies.map Deed.tell).foldl (Deed.subscribes id) was = was := by
      intro was
      induction replies with
      | nil => rfl
      | cons r replies ih => exact ih fun q hq => hreplies q (List.mem_cons_of_mem _ hq)
    rw [List.foldl_cons, htold]
    exact hsubs id
  | _ => simp [Deed.subscribes]

/-- What it is subscribed to then it was subscribed to before, or it is advertised. -/
theorem Moves.advertised (id : ChannelId) (hid : id ∈ v'.subscriptions) :
    id ∈ v.subscriptions ∨ hub.isAdvertised id = true := by
  cases hm with
  | hear x stage subscriptions replies hv hs hsubs hreplies =>
    have hx := (hsubs id).mp hid
    unfold Incoming.subscribes at hx
    split at hx
    · split at hx
      · simp only [Bool.or_eq_true, decide_eq_true_eq, Bool.and_eq_true] at hx
        exact hx.imp_right And.right
      · simp only [Bool.and_eq_true, decide_eq_true_eq] at hx
        exact Or.inl hx.1
      · exact Or.inl (of_decide_eq_true hx)
    · exact Or.inl (of_decide_eq_true hx)
  | _ => exact Or.inl hid

/-- A connection that has its place goes on from it. -/
theorem Moves.tiled {first : Nat} (h : Tiled first ds v.place) (hv : v.stage ≠ .arriving) :
    Tiled first (ds ++ es) v'.place := by
  cases hm with
  | attach harrives => exact absurd harrives hv
  | take p hv hp => exact h.take _
  | miss hv hp => exact h.miss hp _
  | hear x stage subscriptions replies hv hs hsubs hreplies =>
    refine h.quiet ?_
    intro e he
    rcases List.mem_cons.mp he with rfl | he
    · exact ⟨rfl, rfl⟩
    · obtain ⟨r, _, rfl⟩ := List.mem_map.mp he
      exact ⟨rfl, rfl⟩
  | _ => exact h.quiet (by simp [Deed.taken?, Deed.isMiss])

theorem Moves.recovering {after : List Deed} (h : Recovering after v.stage) :
    Recovering (after ++ es) v'.stage := by
  generalize hstage : v.stage = stage at h
  cases h with
  | done channels last rest stage =>
    rw [List.append_assoc]
    exact .done channels last _ _
  | begins =>
    cases hm with
    | lookUp hv => exact .found hub.channels
    | leave => exact .left [] none [] List.nil_prefix
    | _ => simp_all [Stage.isCurrent]
  | found channels =>
    cases hm with
    | lookUpState cs hv =>
      obtain rfl := Stage.lookingUpState.inj (hstage.symm.trans hv)
      exact .tells channels hub.lastState [] _ rfl
    | leave => exact .left channels none _ ⟨_, rfl⟩
    | _ => simp_all [Stage.isCurrent]
  | tells channels last told rest hcatch =>
    cases hm with
    | tell x xs hv =>
      obtain rfl := Stage.catchingUp.inj (hstage.symm.trans hv)
      have hnext := Recovering.tells channels last (told ++ [x]) xs (by simp [hcatch])
      simpa using hnext
    | goOn stage hv hs =>
      have hrest : rest = [] := by
        rcases hv with hv | hv
        · exact Stage.catchingUp.inj (hstage.symm.trans hv)
        · simp [hstage, Stage.isCurrent] at hv
      have hdone := Recovering.done channels last [] stage
      simpa [catchUpDeeds, hcatch, hrest] using hdone
    | leave =>
      refine .left channels last _ ⟨rest.map .tell, ?_⟩
      simp [catchUpDeeds, hcatch]
    | _ => simp_all
  | left channels last after hprefix =>
    cases hm with
    | leave => exact .left channels last _ (by simpa using hprefix)
    | _ => simp_all [Stage.isCurrent]

theorem Moves.of_miss {place next sent : Nat} {before after : List Deed}
    (hes : es = before ++ .miss place next sent :: after) : Recovering after v'.stage := by
  have hmem : .miss place next sent ∈ es := by simp [hes]
  cases hm with
  | miss hv hp =>
    obtain ⟨rfl, hnext⟩ := List.append_eq_singleton_iff.mp hes.symm |>.resolve_right (by simp)
    obtain ⟨_, rfl⟩ := List.cons.inj hnext
    exact .begins
  | _ => simp at hmem

theorem Moves.frames (h : ∀ xs, v.stage = .catchingUp xs → ∀ x ∈ xs, x.NoMessage) :
    ∀ xs, v'.stage = .catchingUp xs → ∀ x ∈ xs, x.NoMessage := by
  intro xs hxs
  cases hm with
  | lookUpState channels hv =>
    obtain rfl := Stage.catchingUp.inj hxs
    exact Hub.noMessage_catchUp _ _
  | tell x rest hv =>
    obtain rfl := Stage.catchingUp.inj hxs
    exact fun y hy => h _ hv y (List.mem_cons_of_mem _ hy)
  | _ => simp_all [Stage.isCurrent]

end

end Viewer

end Replay
