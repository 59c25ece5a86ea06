/-!
A book of sections that are entered in order and are done with in any order. Each is done with at
once, or held by one holder until it is done; a holder holds one section. Main statement: when
nothing is held, every section was done with once (`perm_range`).
-/

namespace Replay

/-- Sections by number: those that are done, each once, and those that are still held, each by one
holder. -/
structure Ledger (size : Nat) (done : List Nat) (holds : Nat → Prop) (held : Nat → Nat) :
    Prop where
  nodup : done.Nodup
  bounded : ∀ k ∈ done, k < size
  held_lt : ∀ n, holds n → held n < size
  held_open : ∀ n, holds n → held n ∉ done
  held_inj : ∀ m n, holds m → holds n → held m = held n → m = n
  covered : ∀ k, k < size → k ∈ done ∨ ∃ n, holds n ∧ held n = k

namespace Ledger

variable {size : Nat} {done : List Nat} {holds : Nat → Prop} {held : Nat → Nat} {n : Nat}

theorem congr (h : Ledger size done holds held) {holds' : Nat → Prop}
    (hsame : ∀ m, holds' m ↔ holds m) : Ledger size done holds' held := by
  obtain rfl : holds' = holds := funext fun m => propext (hsame m)
  exact h

/-- A section that is done at once. -/
theorem whole (h : Ledger size done holds held) :
    Ledger (size + 1) (done ++ [size]) holds held where
  nodup := by
    refine List.nodup_append.mpr ⟨h.nodup, List.pairwise_singleton _ _, ?_⟩
    intro k hk m hm
    have hlt := h.bounded k hk
    rw [List.mem_singleton.mp hm]
    exact Nat.ne_of_lt hlt
  bounded k hk := by
    rcases List.mem_append.mp hk with hk | hk
    · exact Nat.lt_succ_of_lt (h.bounded k hk)
    · rw [List.mem_singleton.mp hk]
      exact Nat.lt_succ_self size
  held_lt m hm := Nat.lt_succ_of_lt (h.held_lt m hm)
  held_open m hm hk := by
    rcases List.mem_append.mp hk with hk | hk
    · exact h.held_open m hm hk
    · exact Nat.ne_of_lt (h.held_lt m hm) (List.mem_singleton.mp hk)
  held_inj := h.held_inj
  covered k hk := by
    rcases Nat.lt_succ_iff_lt_or_eq.mp hk with hlt | rfl
    · rcases h.covered k hlt with hdone | hheld
      · exact Or.inl (List.mem_append_left _ hdone)
      · exact Or.inr hheld
    · exact Or.inl (List.mem_append_right _ (List.mem_singleton_self _))

/-- A section that `n` holds from now on. -/
theorem begun (h : Ledger size done holds held) (hn : ¬ holds n) :
    Ledger (size + 1) done (fun m => m = n ∨ holds m)
      (fun m => if m = n then size else held m) where
  nodup := h.nodup
  bounded k hk := Nat.lt_succ_of_lt (h.bounded k hk)
  held_lt m hm := by
    split
    · exact Nat.lt_succ_self size
    · rename_i hne
      exact Nat.lt_succ_of_lt (h.held_lt m (hm.resolve_left hne))
  held_open m hm := by
    split
    · exact fun hk => Nat.lt_irrefl size (h.bounded size hk)
    · rename_i hne
      exact h.held_open m (hm.resolve_left hne)
  held_inj i j hi hj hij := by
    by_cases hin : i = n <;> by_cases hjn : j = n <;> simp only [hin, hjn, if_true, if_false] at hij
    · rw [hin, hjn]
    · exact absurd hij.symm (Nat.ne_of_lt (h.held_lt j (hj.resolve_left hjn)))
    · exact absurd hij (Nat.ne_of_lt (h.held_lt i (hi.resolve_left hin)))
    · exact h.held_inj i j (hi.resolve_left hin) (hj.resolve_left hjn) hij
  covered k hk := by
    rcases Nat.lt_succ_iff_lt_or_eq.mp hk with hlt | rfl
    · rcases h.covered k hlt with hdone | ⟨m, hm, rfl⟩
      · exact Or.inl hdone
      · have hne : m ≠ n := fun he => hn (he ▸ hm)
        exact Or.inr ⟨m, Or.inr hm, if_neg hne⟩
    · exact Or.inr ⟨n, Or.inl rfl, if_pos rfl⟩

/-- What `n` holds is done. -/
theorem finished (h : Ledger size done holds held) (hn : holds n) :
    Ledger size (done ++ [held n]) (fun m => m ≠ n ∧ holds m) held where
  nodup := by
    refine List.nodup_append.mpr ⟨h.nodup, List.pairwise_singleton _ _, ?_⟩
    intro k hk m hm he
    rw [he, List.mem_singleton.mp hm] at hk
    exact h.held_open n hn hk
  bounded k hk := by
    rcases List.mem_append.mp hk with hk | hk
    · exact h.bounded k hk
    · rw [List.mem_singleton.mp hk]
      exact h.held_lt n hn
  held_lt m hm := h.held_lt m hm.2
  held_open m hm hk := by
    rcases List.mem_append.mp hk with hk | hk
    · exact h.held_open m hm.2 hk
    · exact hm.1 (h.held_inj m n hm.2 hn (List.mem_singleton.mp hk))
  held_inj i j hi hj hij := h.held_inj i j hi.2 hj.2 hij
  covered k hk := by
    rcases h.covered k hk with hdone | ⟨m, hm, rfl⟩
    · exact Or.inl (List.mem_append_left _ hdone)
    · by_cases hmn : m = n
      · exact Or.inl (List.mem_append_right _ (hmn ▸ List.mem_singleton_self _))
      · exact Or.inr ⟨m, ⟨hmn, hm⟩, rfl⟩

theorem perm_range (h : Ledger size done holds held) (hnone : ∀ m, ¬ holds m) :
    done.Perm (List.range size) := by
  apply (List.perm_ext_iff_of_nodup h.nodup List.nodup_range).mpr
  intro k
  rw [List.mem_range]
  refine ⟨h.bounded k, ?_⟩
  intro hk
  rcases h.covered k hk with hdone | ⟨m, hm, _⟩
  · exact hdone
  · exact absurd hm (hnone m)

theorem last_shown {α : Type} {xs : List α} (h : Ledger xs.length done holds held)
    (hnone : ∀ m, ¬ holds m) : done.getLast?.bind (xs[·]?) = xs.getLast? ↔
      ∀ k, done.getLast? = some k → xs[k]? = xs.getLast? := by
  cases hlast : done.getLast? with
  | some k => simp
  | none =>
    have hdone : done = [] := List.getLast?_eq_none_iff.mp hlast
    have hsize : xs.length = 0 := by
      have hlen := (h.perm_range hnone).length_eq
      rw [hdone, List.length_nil, List.length_range] at hlen
      exact hlen.symm
    obtain rfl : xs = [] := List.eq_nil_of_length_eq_zero hsize
    simp

theorem last_append {α : Type} {xs : List α} (h : Ledger xs.length done holds held) (y : α) :
    done.getLast?.bind ((xs ++ [y])[·]?) = done.getLast?.bind (xs[·]?) := by
  cases hlast : done.getLast? with
  | none => rfl
  | some k =>
    have hlt : k < xs.length := h.bounded k (List.mem_of_getLast? hlast)
    exact List.getElem?_append_left hlt

end Ledger

end Replay
