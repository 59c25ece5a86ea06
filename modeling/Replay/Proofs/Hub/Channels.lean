import Replay.Hub

/-!
The channels of a hub stand in the order of their ids, with one channel for each id, and a list of
that kind is determined by its members.
-/

namespace Replay.Hub

/-- The ids grow, so that no id stands twice. -/
def Ordered (cs : List Advertised) : Prop := cs.Pairwise fun a b => a.id < b.id

theorem ordered_insertChannel {a : Advertised} {cs : List Advertised} (h : Ordered cs) :
    Ordered (insertChannel a cs) ∧
      ∀ b, b ∈ insertChannel a cs ↔ b = a ∨ b ∈ cs ∧ b.id ≠ a.id := by
  induction cs with
  | nil => exact ⟨List.pairwise_singleton _ _, by simp [insertChannel]⟩
  | cons c cs ih =>
    obtain ⟨hhead, htail⟩ := List.pairwise_cons.mp h
    obtain ⟨ihord, ihmem⟩ := ih htail
    unfold insertChannel
    split
    · -- `a` goes in front: all that follow have greater ids
      rename_i hlt
      have hall : ∀ b ∈ c :: cs, a.id < b.id := by
        intro b hb
        rcases List.mem_cons.mp hb with rfl | hb
        · exact hlt
        · exact UInt32.lt_trans hlt (hhead b hb)
      refine ⟨List.pairwise_cons.mpr ⟨hall, h⟩, ?_⟩
      intro b
      rw [List.mem_cons]
      refine or_congr_right ⟨fun hb => ⟨hb, ?_⟩, fun hb => hb.1⟩
      exact (UInt32.ne_of_lt (hall b hb)).symm
    · split
      · rename_i _ heq
        refine ⟨List.pairwise_cons.mpr ⟨fun b hb => heq ▸ hhead b hb, htail⟩, ?_⟩
        intro b
        rw [List.mem_cons, List.mem_cons]
        refine or_congr_right ⟨fun hb => ⟨Or.inr hb, ?_⟩, ?_⟩
        · exact (UInt32.ne_of_lt (heq ▸ hhead b hb)).symm
        · rintro ⟨rfl | hb, hne⟩
          · exact absurd heq.symm hne
          · exact hb
      · rename_i hlt hne
        have hc : c.id < a.id :=
          UInt32.lt_of_le_of_ne (UInt32.not_lt.mp hlt) fun he => hne he.symm
        refine ⟨List.pairwise_cons.mpr ⟨?_, ihord⟩, ?_⟩
        · intro b hb
          rcases (ihmem b).mp hb with rfl | ⟨hb, _⟩
          · exact hc
          · exact hhead b hb
        · intro b
          rw [List.mem_cons, ihmem, List.mem_cons]
          constructor
          · rintro (rfl | rfl | ⟨hb, hba⟩)
            · exact Or.inr ⟨Or.inl rfl, fun he => hne he.symm⟩
            · exact Or.inl rfl
            · exact Or.inr ⟨Or.inr hb, hba⟩
          · rintro (rfl | ⟨rfl | hb, hba⟩)
            · exact Or.inr (Or.inl rfl)
            · exact Or.inl rfl
            · exact Or.inr (Or.inr ⟨hb, hba⟩)

theorem Ordered.insert {cs : List Advertised} (h : Ordered cs) (a : Advertised) :
    Ordered (insertChannel a cs) := (ordered_insertChannel h).1

/-- A channel that is put in takes the place of the one that had its id. -/
theorem Ordered.mem_insert {cs : List Advertised} (h : Ordered cs) {a b : Advertised} :
    b ∈ insertChannel a cs ↔ b = a ∨ b ∈ cs ∧ b.id ≠ a.id := (ordered_insertChannel h).2 b

theorem Ordered.eq_of_id_eq {cs : List Advertised} (h : Ordered cs) {a b : Advertised}
    (ha : a ∈ cs) (hb : b ∈ cs) (hid : a.id = b.id) : a = b := by
  induction cs with
  | nil => cases ha
  | cons c cs ih =>
    obtain ⟨hhead, htail⟩ := List.pairwise_cons.mp h
    rcases List.mem_cons.mp ha with hac | ha <;> rcases List.mem_cons.mp hb with hbc | hb
    · exact hac.trans hbc.symm
    · exact absurd hid (hac ▸ UInt32.ne_of_lt (hhead b hb))
    · exact absurd hid (hbc ▸ (UInt32.ne_of_lt (hhead a ha)).symm)
    · exact ih htail ha hb

theorem Ordered.ext {cs ds : List Advertised} (hc : Ordered cs) (hd : Ordered ds)
    (h : ∀ a, a ∈ cs ↔ a ∈ ds) : cs = ds := by
  have hnodup : ∀ {l : List Advertised}, Ordered l → l.Nodup := by
    intro l hl
    exact hl.imp fun hab he => UInt32.ne_of_lt hab (congrArg Advertised.id he)
  have hperm : cs.Perm ds := (List.perm_ext_iff_of_nodup (hnodup hc) (hnodup hd)).mpr h
  refine hperm.eq_of_pairwise ?_ hc hd
  intro a b _ _ hab hba
  exact absurd (UInt32.lt_trans hab hba) (UInt32.lt_irrefl _)

def withId? (id : ChannelId) (cs : List Advertised) : Option Advertised :=
  (cs.filter (·.id == id)).getLast?

theorem Ordered.withId_eq_some_iff {cs : List Advertised} (h : Ordered cs) {id : ChannelId}
    {a : Advertised} : withId? id cs = some a ↔ a ∈ cs ∧ a.id = id := by
  constructor
  · intro ha
    have hmem := List.mem_filter.mp (List.mem_of_getLast? ha)
    exact ⟨hmem.1, beq_iff_eq.mp hmem.2⟩
  · rintro ⟨ha, rfl⟩
    cases hl : withId? a.id cs with
    | none =>
      have hnil := List.getLast?_eq_none_iff.mp hl
      have : a ∈ cs.filter (·.id == a.id) := List.mem_filter.mpr ⟨ha, beq_self_eq_true _⟩
      rw [hnil] at this
      cases this
    | some b =>
      have hmem := List.mem_filter.mp (List.mem_of_getLast? hl)
      exact congrArg some (h.eq_of_id_eq hmem.1 ha (beq_iff_eq.mp hmem.2))

theorem Ordered.withId_insert {cs : List Advertised} (h : Ordered cs) (id : ChannelId)
    (a : Advertised) : withId? id (insertChannel a cs) = (withId? id [a]).or (withId? id cs) := by
  apply Option.ext
  intro b
  rw [(h.insert a).withId_eq_some_iff, h.mem_insert]
  by_cases ha : a.id = id
  · have hnew : withId? id [a] = some a := by simp [withId?, ha]
    rw [hnew, Option.some_or, Option.some.injEq]
    constructor
    · rintro ⟨rfl | ⟨_, hne⟩, hb⟩
      · rfl
      · exact absurd (hb.trans ha.symm) hne
    · rintro rfl
      exact ⟨Or.inl rfl, ha⟩
  · have hnew : withId? id [a] = none := by simp [withId?, ha]
    rw [hnew, Option.none_or, h.withId_eq_some_iff]
    constructor
    · rintro ⟨rfl | ⟨hb, _⟩, hid⟩
      · exact absurd hid ha
      · exact ⟨hb, hid⟩
    · rintro ⟨hb, hid⟩
      exact ⟨Or.inr ⟨hb, fun he => ha (he ▸ hid)⟩, hid⟩

theorem Ordered.ext_withId {cs ds : List Advertised} (hc : Ordered cs) (hd : Ordered ds)
    (h : ∀ id, withId? id cs = withId? id ds) : cs = ds := by
  apply hc.ext hd
  intro a
  have hiff := congrArg (· = some a) (h a.id)
  simpa only [hc.withId_eq_some_iff, hd.withId_eq_some_iff, and_true, eq_iff_iff] using hiff

end Replay.Hub
