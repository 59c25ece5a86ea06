import Replay.Json.Reader

/-!
Reading back what is written: the steps of a reader, and strings. A string is read back from
its written form whatever its characters are (`textBody_writeText`).
-/

namespace Replay.Json

namespace Reader

variable {α β : Type} {c : Char} {rest rest' : List Char}

/-- What a reader leaves is what the next one starts from. -/
theorem bind_ok {x : Reader α} {f : α → Reader β} {a : α} (h : x rest = .ok (a, rest')) :
    (x >>= f) rest = f a rest' := by
  change (x rest >>= fun p => f p.1 p.2) = _
  rw [h]
  rfl

theorem map_ok {x : Reader α} {a : α} (f : α → β) (h : x rest = .ok (a, rest')) :
    (f <$> x) rest = .ok (f a, rest') := by
  change (x rest >>= fun p => pure (f p.1, p.2)) = _
  rw [h]
  rfl

/-- A character that a reader comes upon: no blank. -/
theorem token_cons (hc : isBlank c = false) (rest : List Char) :
    token (c :: rest) = .ok (some c, c :: rest) := by
  have hblanks : blanks (c :: rest) = .ok ((), c :: rest) := by
    rw [blanks, List.dropWhile_cons_of_neg (by simp [hc])]
  exact bind_ok hblanks

theorem drop_cons (c : Char) (rest : List Char) : drop (c :: rest) = .ok ((), rest) := rfl

theorem left_eq (rest : List Char) : left rest = .ok (rest.length, rest) := rfl

end Reader

open Reader

/-- A loop with more turns than items has one for the first and enough for the others. -/
theorem exists_turn {n turns : Nat} (h : n < turns) : ∃ more, turns = more + 1 ∧ n ≤ more :=
  ⟨turns - 1, by omega, by omega⟩

/-- The pairs of digits that are written for the first 32 characters spell them. -/
theorem number?_hexPair : ∀ n < 32, Text.number? 16 ('0' :: '0' :: hexPair n) = some n := by
  decide

theorem eq_ofNat_of_toNat_eq {c : Char} {n : Nat} (h : c.toNat = n) : c = Char.ofNat n := by
  rw [← h, Char.ofNat_toNat]

/-- An escape in its long form is read as its character. -/
theorem longEscape_hexPair {c : Char} (hc : c.toNat < 32) (rest : List Char) :
    longEscape ('0' :: '0' :: (hexPair c.toNat ++ rest)) = .ok (c, rest) := by
  have hword : hexWord ('0' :: '0' :: (hexPair c.toNat ++ rest)) = .ok (c.toNat, rest) := by
    have hnumber := number?_hexPair c.toNat hc
    simp only [hexPair] at hnumber
    simp only [hexWord, hexPair, List.cons_append, List.nil_append, hnumber]
  have hlow : (0xDC00 ≤ c.toNat && c.toNat ≤ 0xDFFF) = false := by simp; omega
  have hhigh : (0xD800 ≤ c.toNat && c.toNat ≤ 0xDBFF) = false := by simp; omega
  rw [longEscape, bind_ok hword]
  simp only [hlow, hhigh, Bool.false_eq_true, if_false, Char.ofNat_toNat]
  rfl

/-- What is written for a character begins with what is read as it. -/
theorem textGo_escapeChar (c : Char) (turns : Nat) (rest : List Char) :
    textGo (turns + 1) (escapeChar c ++ rest) =
      (textGo turns rest).map fun (cs, r) => (c :: cs, r) := by
  have hescaped : ∀ (d : Char) (cs : List Char), escape cs = .ok (d, rest) →
      textGo (turns + 1) ('\\' :: cs) =
        (textGo turns rest).map fun (cs, r) => (d :: cs, r) := by
    intro d cs hd
    have hquote : ('\\' : Char) ≠ '"' := by decide
    rw [textGo, if_neg hquote, if_pos rfl, hd]
  have hshort : ∀ d e : Char, shortEscape? e = some d →
      textGo (turns + 1) (['\\', e] ++ rest) =
        (textGo turns rest).map fun (cs, r) => (d :: cs, r) := by
    intro d e hd
    refine hescaped d (e :: rest) ?_
    simp only [escape, hd]
  unfold escapeChar
  split
  · rename_i h
    exact h ▸ hshort '"' '"' rfl
  split
  · rename_i h
    exact h ▸ hshort '\\' '\\' rfl
  split
  · rename_i h
    exact eq_ofNat_of_toNat_eq h ▸ hshort (Char.ofNat 8) 'b' rfl
  split
  · rename_i h
    exact eq_ofNat_of_toNat_eq h ▸ hshort (Char.ofNat 12) 'f' rfl
  split
  · rename_i h
    exact h ▸ hshort '\n' 'n' rfl
  split
  · rename_i h
    exact h ▸ hshort '\r' 'r' rfl
  split
  · rename_i h
    exact h ▸ hshort '\t' 't' rfl
  split
  · rename_i hcontrol
    refine hescaped c ('u' :: '0' :: '0' :: (hexPair c.toNat ++ rest)) ?_
    have hnone : shortEscape? 'u' = none := by decide
    simp only [escape, hnone, if_true]
    exact longEscape_hexPair hcontrol rest
  · rename_i hquote hbackslash _ _ _ _ _ hcontrol
    rw [List.singleton_append, textGo, if_neg hquote, if_neg hbackslash, if_neg hcontrol]

/-- The characters of a string are read back up to its closing quote. -/
theorem textGo_flatMap (cs : List Char) {turns : Nat} (hturns : cs.length < turns)
    (rest : List Char) : textGo turns (cs.flatMap escapeChar ++ '"' :: rest) = .ok (cs, rest) := by
  induction cs generalizing turns with
  | nil =>
    obtain ⟨turns, rfl, -⟩ := exists_turn hturns
    rfl
  | cons c cs ih =>
    obtain ⟨turns, rfl, hmore⟩ := exists_turn hturns
    rw [List.flatMap_cons, List.append_assoc, textGo_escapeChar, ih hmore]
    rfl

theorem length_escapeChar_pos (c : Char) : 0 < (escapeChar c).length := by
  unfold escapeChar
  repeat' split
  all_goals simp

theorem length_le_flatMap (cs : List Char) : cs.length ≤ (cs.flatMap escapeChar).length := by
  induction cs with
  | nil => exact Nat.le_refl _
  | cons c cs ih =>
    have hpos := length_escapeChar_pos c
    rw [List.flatMap_cons, List.length_append, List.length_cons]
    omega

/-- A string is read back from its written form. -/
theorem textBody_writeText (s : String) (rest : List Char) :
    textBody (s.toList.flatMap escapeChar ++ '"' :: rest) = .ok (s, rest) := by
  have hlen := length_le_flatMap s.toList
  have hturns : s.toList.length < (s.toList.flatMap escapeChar ++ '"' :: rest).length := by
    rw [List.length_append, List.length_cons]
    omega
  rw [textBody, textGo_flatMap _ hturns]
  simp [Except.map]

end Replay.Json
