import Replay.Proofs.Json.Numerals

/-!
Written values in front of other text. A value whose numbers are read back is read back from its
text, wherever that text stands (`Readable.reads_value`).
-/

namespace Replay.Json

open Reader

/-- What a value may begin with: nothing that is passed over, and nothing that ends a list or an
object or continues it. -/
def Opens (c : Char) : Prop := isBlank c = false ∧ c ≠ ',' ∧ c ≠ ']' ∧ c ≠ '\x7d'

theorem opens_of_isDigit {c : Char} (hc : c.isDigit = true) : Opens c :=
  ⟨isBlank_of_isDigit hc, ne_of_isDigit hc rfl, ne_of_isDigit hc rfl, ne_of_isDigit hc rfl⟩

theorem opens_minus : Opens '-' := by simp [Opens, isBlank]

/-- What the text of a value begins with. -/
def Value.Head : Value → Char → Prop
  | .null, c => c = 'n'
  | .boolean b, c => c = if b then 't' else 'f'
  | .integer _, c => c = '-' ∨ c.isDigit = true
  | .number x, c => if x.isFinite then c = '-' ∨ c.isDigit = true else c = 'n'
  | .text _, c => c = '"'
  | .list _, c => c = '['
  | .object _, c => c = '\x7b'

theorem write_head (v : Value) : ∃ c cs, v.write = c :: cs ∧ v.Head c := by
  suffices h : ∃ c ∈ v.write.head?, v.Head c by
    obtain ⟨c, hhead, hc⟩ := h
    obtain ⟨cs, hcs⟩ := List.head?_eq_some_iff.mp hhead
    exact ⟨c, cs, hcs, hc⟩
  cases v with
  | null => exact ⟨'n', rfl, rfl⟩
  | boolean b => cases b <;> exact ⟨_, rfl, rfl⟩
  | integer n =>
    simp only [Value.write, Value.Head, writeInteger]
    split
    · exact ⟨'-', rfl, Or.inl rfl⟩
    · obtain ⟨c, hc, hdigit⟩ := toDigits_begins n.natAbs
      exact ⟨c, hc, Or.inr hdigit⟩
  | number x =>
    simp only [Value.write, Value.Head]
    by_cases hx : x.isFinite = true
    · simp only [if_pos hx]
      exact writeNumber_begins hx
    · simp only [writeNumber, if_neg hx]
      exact ⟨'n', rfl, rfl⟩
  | text s => exact ⟨'"', rfl, rfl⟩
  | list vs => cases vs <;> exact ⟨'[', rfl, rfl⟩
  | object ms => cases ms <;> exact ⟨'\x7b', rfl, rfl⟩

theorem Value.Head.opens {v : Value} {c : Char} (hc : v.Head c) : Opens c := by
  have hnumeral : c = '-' ∨ c.isDigit = true → Opens c := by
    rintro (rfl | hdigit)
    · exact opens_minus
    · exact opens_of_isDigit hdigit
  cases v with
  | integer n => exact hnumeral hc
  | number x =>
    simp only [Value.Head] at hc
    split at hc
    · exact hnumeral hc
    · simp [hc, Opens, isBlank]
  | boolean b => cases b <;> simp_all [Value.Head, Opens, isBlank]
  | _ =>
    simp only [Value.Head] at hc
    simp [hc, Opens, isBlank]

section Brackets

variable {rest : List Char}

/-- What stands before an item or a member. -/
def comma (first : Bool) : List Char := if first then [] else [',']

theorem another_item {c : Char} (hc : Opens c) (first : Bool) (rest : List Char) :
    another first (comma first ++ c :: rest) = .ok (true, c :: rest) := by
  obtain ⟨hblank, hcomma, hbracket, -⟩ := hc
  cases first with
  | true =>
    change another true (c :: rest) = _
    rw [another, bind_ok (token_cons hblank rest)]
    generalize hd : some c = d
    split
    · cases hd
    · cases hd
      exact absurd rfl hbracket
    · rfl
    · rfl
  | false =>
    change another false (',' :: c :: rest) = _
    rw [another, bind_ok (token_cons rfl _)]
    change (drop >>= _) _ = _
    rw [bind_ok (drop_cons _ _), bind_ok (token_cons hblank rest)]
    generalize hd : some c = d
    split
    · cases hd
    · cases hd
      exact absurd rfl hbracket
    · rfl

theorem another_end (first : Bool) (rest : List Char) :
    another first (']' :: rest) = .ok (false, ']' :: rest) := rfl

theorem closeList_bracket (rest : List Char) : closeList (']' :: rest) = .ok ((), rest) := rfl

theorem nextKey_key (first : Bool) (key : String) (rest : List Char) :
    nextKey first (comma first ++ (writeText key ++ rest)) = .ok (some key, rest) := by
  have hkey : nextKey.key (writeText key ++ rest) = .ok (some key, rest) := by
    rw [writeText, List.cons_append, List.append_assoc, nextKey.key, bind_ok (drop_cons _ _),
      List.singleton_append, bind_ok (textBody_writeText key rest)]
    rfl
  cases first with
  | true => exact hkey
  | false => exact hkey

theorem nextKey_end (first : Bool) (rest : List Char) :
    nextKey first ('\x7d' :: rest) = .ok (none, '\x7d' :: rest) := rfl

theorem colon_cons (rest : List Char) : colon (':' :: rest) = .ok ((), rest) := rfl

theorem closeObject_bracket (rest : List Char) :
    closeObject ('\x7d' :: rest) = .ok ((), rest) := rfl

end Brackets

section Loops

variable {reader : Reader Value} {rest : List Char}

/-- The reader reads the value from its text, whatever follows that ends a value. -/
def ReadsAs (reader : Reader Value) (v : Value) : Prop :=
  ∀ rest, Ends rest → reader (v.write ++ rest) = .ok (v, rest)

/-- The items of a list from the first one, or from a later one, on, and the end of the list. -/
def itemsFrom (first : Bool) : List Value → List Char
  | [] => [']']
  | v :: vs => comma first ++ (v.write ++ writeItems vs)

theorem writeItems_eq (vs : List Value) : writeItems vs = itemsFrom false vs := by
  cases vs <;> rfl

theorem write_list (vs : List Value) : (Value.list vs).write = '[' :: itemsFrom true vs := by
  cases vs <;> rfl

theorem ends_writeItems (vs : List Value) (rest : List Char) : Ends (writeItems vs ++ rest) := by
  cases vs with
  | nil => exact ends_cons (by simp) _
  | cons v vs => exact ends_cons (by simp) _

theorem length_lt_writeItems (vs : List Value) : vs.length < (writeItems vs).length := by
  induction vs with
  | nil => exact Nat.zero_lt_one
  | cons v vs ih =>
    simp only [writeItems, List.length_cons, List.length_append]
    omega

/-- The text that is left bounds the turns of the loop over the items. -/
theorem length_lt_itemsFrom (vs : List Value) (rest : List Char) :
    vs.length < (itemsFrom true vs ++ rest).length := by
  rw [List.length_append]
  refine Nat.lt_of_lt_of_le ?_ (Nat.le_add_right _ _)
  cases vs with
  | nil => exact Nat.zero_lt_one
  | cons v vs =>
    obtain ⟨c, cs, hwrite, -⟩ := write_head v
    have hlen := length_lt_writeItems vs
    simp only [itemsFrom, hwrite, List.length_append, List.length_cons]
    omega

/-- Items that are read one by one are read as a list. -/
theorem items_itemsFrom {vs : List Value} (hvs : ∀ v ∈ vs, ReadsAs reader v) {turns : Nat}
    (hturns : vs.length < turns) (first : Bool) (rest : List Char) :
    items reader turns first (itemsFrom first vs ++ rest) = .ok (vs, ']' :: rest) := by
  induction vs generalizing turns first with
  | nil =>
    obtain ⟨turns, rfl, -⟩ := exists_turn hturns
    rw [items, itemsFrom, List.singleton_append, bind_ok (another_end first rest)]
    rfl
  | cons v vs ih =>
    obtain ⟨turns, rfl, hleft⟩ := exists_turn hturns
    obtain ⟨c, cs, hwrite, hhead⟩ := write_head v
    have hanother : another first (itemsFrom first (v :: vs) ++ rest) =
        .ok (true, v.write ++ (writeItems vs ++ rest)) := by
      simp only [itemsFrom, hwrite, List.append_assoc, List.cons_append]
      exact another_item hhead.opens first _
    have hmore := ih (fun w hw => hvs w (List.mem_cons_of_mem v hw)) hleft false
    rw [← writeItems_eq] at hmore
    rw [items, bind_ok hanother]
    change (reader >>= _) _ = _
    rw [bind_ok (hvs v List.mem_cons_self _ (ends_writeItems vs rest)), bind_ok hmore]
    rfl

/-- The members of an object from the first one, or from a later one, on, and the end of the
object. -/
def membersFrom (first : Bool) : List (String × Value) → List Char
  | [] => ['\x7d']
  | (key, v) :: ms => comma first ++ (writeText key ++ ':' :: (v.write ++ writeMembers ms))

theorem writeMembers_eq (ms : List (String × Value)) : writeMembers ms = membersFrom false ms := by
  cases ms <;> rfl

theorem write_object (ms : List (String × Value)) :
    (Value.object ms).write = '\x7b' :: membersFrom true ms := by
  cases ms <;> rfl

theorem ends_writeMembers (ms : List (String × Value)) (rest : List Char) :
    Ends (writeMembers ms ++ rest) := by
  cases ms with
  | nil => exact ends_cons (by simp) _
  | cons m ms => exact ends_cons (by simp) _

theorem length_lt_writeMembers (ms : List (String × Value)) :
    ms.length < (writeMembers ms).length := by
  induction ms with
  | nil => exact Nat.zero_lt_one
  | cons m ms ih =>
    simp only [writeMembers, List.length_cons, List.length_append]
    omega

/-- The text that is left bounds the turns of the loop over the members. -/
theorem length_lt_membersFrom (ms : List (String × Value)) (rest : List Char) :
    ms.length < (membersFrom true ms ++ rest).length := by
  rw [List.length_append]
  refine Nat.lt_of_lt_of_le ?_ (Nat.le_add_right _ _)
  cases ms with
  | nil => exact Nat.zero_lt_one
  | cons m ms =>
    have hlen := length_lt_writeMembers ms
    simp only [membersFrom, List.length_append, List.length_cons]
    omega

/-- The next member is found by its key. -/
theorem nextKey_membersFrom (first : Bool) (key : String) (v : Value) (ms : List (String × Value))
    (rest : List Char) :
    nextKey first (membersFrom first ((key, v) :: ms) ++ rest) =
      .ok (some key, ':' :: (v.write ++ (writeMembers ms ++ rest))) := by
  simp only [membersFrom, List.append_assoc, List.cons_append]
  exact nextKey_key first key _

/-- Members whose values are read one by one are read as an object. -/
theorem members_membersFrom {ms : List (String × Value)} (hms : ∀ m ∈ ms, ReadsAs reader m.2)
    {turns : Nat} (hturns : ms.length < turns) (first : Bool) (rest : List Char) :
    members reader turns first (membersFrom first ms ++ rest) = .ok (ms, '\x7d' :: rest) := by
  induction ms generalizing turns first with
  | nil =>
    obtain ⟨turns, rfl, -⟩ := exists_turn hturns
    rw [members, membersFrom, List.singleton_append, bind_ok (nextKey_end first rest)]
    rfl
  | cons m ms ih =>
    obtain ⟨turns, rfl, hleft⟩ := exists_turn hturns
    obtain ⟨key, v⟩ := m
    have hmore := ih (fun w hw => hms w (List.mem_cons_of_mem _ hw)) hleft false
    rw [← writeMembers_eq] at hmore
    rw [members, bind_ok (nextKey_membersFrom first key v ms rest)]
    change (colon >>= _) _ = _
    rw [bind_ok (colon_cons _),
      bind_ok (hms _ List.mem_cons_self _ (ends_writeMembers ms rest)), bind_ok hmore]
    rfl

end Loops

/-- What does not begin with a bracket is neither a list nor an object. -/
theorem value_eq_scalar {c : Char} (hblank : isBlank c = false) (hbracket : c ≠ '[')
    (hbrace : c ≠ '\x7b') (depth : Nat) (cs : List Char) :
    value depth (c :: cs) = scalar (c :: cs) := by
  have hwith : ∀ inner, valueWith inner (c :: cs) = scalar (c :: cs) := by
    intro inner
    rw [valueWith.eq_def, bind_ok (token_cons hblank _), if_neg (by simp [hbracket]),
      if_neg (by simp [hbrace])]
  cases depth <;> rw [value, hwith]

/-- Values that a text gives back: their whole numbers fit a word, their doubles are read back, and
at most `depth` lists and objects are inside one another. -/
inductive Readable : Nat → Value → Prop where
  | null {depth : Nat} : Readable depth .null
  | boolean {depth : Nat} (b : Bool) : Readable depth (.boolean b)
  | integer {depth n : Nat} (h : n < UInt64.size) : Readable depth (.integer n)
  | number {depth : Nat} {x : Binary64} (h : ReadsBack x) : Readable depth (.number x)
  | text {depth : Nat} (s : String) : Readable depth (.text s)
  | list {depth : Nat} {vs : List Value} (h : ∀ v ∈ vs, Readable depth v) :
      Readable (depth + 1) (.list vs)
  | object {depth : Nat} {ms : List (String × Value)} (h : ∀ m ∈ ms, Readable depth m.2) :
      Readable (depth + 1) (.object ms)

namespace Readable

variable {depth : Nat} {v : Value}

/-- What is neither a list nor an object is read in one go. -/
theorem scalar_write (h : Readable 0 v) : ReadsAs scalar v := by
  intro rest hrest
  cases h with
  | null => rfl
  | boolean b => cases b <;> rfl
  | integer hn => exact scalar_writeInteger hn hrest
  | number hx => exact hx.scalar_append hrest
  | text s =>
    rw [Value.write, writeText, List.cons_append, List.append_assoc, List.singleton_append, scalar,
      bind_ok (token_cons rfl _)]
    change (drop >>= _) _ = _
    rw [bind_ok (drop_cons _ _), bind_ok (textBody_writeText s rest)]
    rfl

theorem head_ne_bracket (h : Readable 0 v) {c : Char} (hc : v.Head c) : c ≠ '[' ∧ c ≠ '\x7b' := by
  have hnumeral : c = '-' ∨ c.isDigit = true → c ≠ '[' ∧ c ≠ '\x7b' := by
    rintro (rfl | hdigit)
    · simp
    · exact ⟨ne_of_isDigit hdigit rfl, ne_of_isDigit hdigit rfl⟩
  cases h with
  | null => simp_all [Value.Head]
  | boolean b => cases b <;> simp_all [Value.Head]
  | integer hn => exact hnumeral hc
  | number hx =>
    simp only [Value.Head, hx.isFinite, if_true] at hc
    exact hnumeral hc
  | text s => simp_all [Value.Head]

theorem eq_null_of_head (h : Readable depth v) (hhead : v.Head 'n') : v = .null := by
  have hnumeral : ¬('n' = '-' ∨ 'n'.isDigit = true) := by simp
  cases h with
  | null => rfl
  | boolean b => cases b <;> simp [Value.Head] at hhead
  | integer hn => exact absurd hhead hnumeral
  | number hx =>
    simp only [Value.Head, hx.isFinite, if_true] at hhead
    exact absurd hhead hnumeral
  | text s => simp [Value.Head] at hhead
  | list _ => simp [Value.Head] at hhead
  | object _ => simp [Value.Head] at hhead

/-- What is neither a list nor an object is read alike at any depth. -/
theorem scalar_reads_value (h : Readable 0 v) (depth : Nat) : ReadsAs (value depth) v := by
  intro rest hrest
  obtain ⟨c, cs, hwrite, hhead⟩ := write_head v
  obtain ⟨hbracket, hbrace⟩ := h.head_ne_bracket hhead
  have hscalar := h.scalar_write rest hrest
  rw [hwrite, List.cons_append] at hscalar ⊢
  rw [value_eq_scalar hhead.opens.1 hbracket hbrace, hscalar]

/-- A value is read into memory from its text. -/
theorem reads_value (h : Readable depth v) : ReadsAs (value depth) v := by
  induction h with
  | null => exact scalar_reads_value .null _
  | boolean b => exact scalar_reads_value (.boolean b) _
  | integer hn => exact scalar_reads_value (.integer hn) _
  | number hx => exact scalar_reads_value (.number hx) _
  | text s => exact scalar_reads_value (.text s) _
  | @list depth vs _ ih =>
    intro rest hrest
    have hitems := items_itemsFrom ih (length_lt_itemsFrom vs rest) true rest
    rw [write_list, List.cons_append, value, valueWith, bind_ok (token_cons rfl _), if_pos rfl]
    change (drop >>= _) _ = _
    rw [bind_ok (drop_cons _ _), bind_ok (left_eq _), bind_ok hitems,
      bind_ok (closeList_bracket rest)]
    rfl
  | @object depth ms _ ih =>
    intro rest hrest
    have hmembers := members_membersFrom ih (length_lt_membersFrom ms rest) true rest
    rw [write_object, List.cons_append, value, valueWith, bind_ok (token_cons rfl _),
      if_neg (by simp), if_pos rfl]
    change (drop >>= _) _ = _
    rw [bind_ok (drop_cons _ _), bind_ok (left_eq _), bind_ok hmembers,
      bind_ok (closeObject_bracket rest)]
    rfl

end Readable

end Replay.Json
