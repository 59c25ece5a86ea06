import Replay.Proofs.Json.Written
import Replay.Json.Kind

/-!
Values that fit a kind. What fits is taken as it is by both ways to check: from memory
(`Fits.ofValue_eq`) and from its text (`Fits.reads_kind`).
-/

namespace Replay.Json

open Reader

/-- A value of the kind in its plain form, with at most `depth` lists and objects inside one
another, whose numbers are read back. -/
inductive Fits : Kind → Nat → Value → Prop where
  | boolean {depth : Nat} (b : Bool) : Fits .boolean depth (.boolean b)
  | number {depth : Nat} {x : Binary64} (h : ReadsBack x) : Fits .number depth (.number x)
  | word {depth bits n : Nat} (hbits : n < 1 <<< bits) (hword : n < UInt64.size) :
      Fits (.word bits) depth (.integer n)
  | text {depth : Nat} (s : String) : Fits .text depth (.text s)
  | choice {depth : Nat} {names : List String} {name : String} (h : name ∈ names) :
      Fits (.choice names) depth (.text name)
  | absent {depth : Nat} {k : Kind} : Fits (.optional k) depth .null
  | present {depth : Nat} {k : Kind} {v : Value} (h : Fits k depth v) : Fits (.optional k) depth v
  | list {depth : Nat} {k : Kind} {vs : List Value} (h : ∀ v ∈ vs, Fits k depth v) :
      Fits (.list k) (depth + 1) (.list vs)
  | record {depth : Nat} {title : String} {fields : List (Slot Kind)}
      {ms : List (String × Value)} (hkeys : (ms.map (·.1)).Nodup)
      (hfound : ∀ m ∈ ms, (Slot.find? fields m.1).isSome = true)
      (hfits : ∀ m ∈ ms, ∀ slot, Slot.find? fields m.1 = some slot → Fits slot.reading depth m.2)
      (hmissing : Slot.missing? fields ms = none) :
      Fits (.record title fields) (depth + 1) (.object ms)

theorem Fits.readable {k : Kind} {depth : Nat} {v : Value} (h : Fits k depth v) :
    Readable depth v := by
  induction h with
  | boolean b => exact .boolean b
  | number h => exact .number h
  | word _ hword => exact .integer hword
  | text s => exact .text s
  | choice _ => exact .text _
  | absent => exact .null
  | present _ ih => exact ih
  | list _ ih => exact .list ih
  | record _ hfound _ _ ih =>
    refine .object fun m hm => ?_
    obtain ⟨slot, hslot⟩ := Option.isSome_iff_exists.mp (hfound m hm)
    exact ih m hm slot hslot

theorem Reader.opened_cons {α : Type} (depth : Nat) (inside : Nat → Reader α) (c : Char)
    (rest : List Char) : opened (depth + 1) inside (c :: rest) = inside depth rest := rfl

namespace Slot

variable {ρ σ : Type}

/-- The same place, checked in another way. -/
def map (f : ρ → σ) (slot : Slot ρ) : Slot σ := ⟨slot.key, slot.required, f slot.reading⟩

theorem find?_map (f : ρ → σ) (slots : List (Slot ρ)) (key : String) :
    find? (slots.map (map f)) key = (find? slots key).map (map f) := by
  rw [find?, List.find?_map]
  rfl

theorem missing?_map (f : ρ → σ) (slots : List (Slot ρ)) (given : List (String × Value)) :
    missing? (slots.map (map f)) given = missing? slots given := by
  rw [missing?, List.find?_map, Option.map_map]
  rfl

end Slot

theorem checks_eq_map (fields : List (Slot Kind)) :
    checks fields = fields.map (Slot.map Kind.ofValue) := by
  induction fields with
  | nil => rfl
  | cons slot fields ih =>
    rw [checks, ih]
    rfl

theorem readings_eq_map (fields : List (Slot Kind)) (depth : Nat) :
    readings fields depth = fields.map (Slot.map (Kind.read · depth)) := by
  induction fields with
  | nil => rfl
  | cons slot fields ih =>
    rw [readings, ih]
    rfl

theorem ok_bind {α β ε : Type} (x : α) (f : α → Except ε β) : (.ok x >>= f) = f x := rfl

section Members

variable {ms : List (String × Value)}

theorem mapM_eq_ok {α ε : Type} {f : α → Except ε α} {xs : List α} (h : ∀ x ∈ xs, f x = .ok x) :
    xs.mapM f = .ok xs := by
  induction xs with
  | nil => rfl
  | cons x xs ih =>
    rw [List.mapM_cons, h x List.mem_cons_self, ih fun y hy => h y (List.mem_cons_of_mem x hy)]
    rfl

/-- A key that comes only once was not given before. -/
theorem any_given_eq_false {given : List (String × Value)} {key : String} {v : Value}
    (hkeys : ((given ++ (key, v) :: ms).map (·.1)).Nodup) :
    (given.any fun m => m.1 == key) = false := by
  rw [List.map_append, List.nodup_append] at hkeys
  rw [List.any_eq_false]
  intro m hm hkey
  exact hkeys.2.2 m.1 (List.mem_map_of_mem hm) key (by simp) (by simpa using hkey)

theorem fieldsOfMembers_eq {slots : List (Slot Check)} (given : List (String × Value))
    (hslots : ∀ m ∈ ms, ∃ slot, Slot.find? slots m.1 = some slot ∧ slot.reading m.2 = .ok m.2)
    (hkeys : ((given ++ ms).map (·.1)).Nodup) :
    fieldsOfMembers slots given ms = .ok (given ++ ms) := by
  induction ms generalizing given with
  | nil => rw [fieldsOfMembers, List.append_nil]
  | cons m ms ih =>
    obtain ⟨key, v⟩ := m
    obtain ⟨slot, hslot, hv⟩ := hslots _ List.mem_cons_self
    have hmore := ih (given ++ [(key, v)])
      (fun m hm => hslots m (List.mem_cons_of_mem _ hm)) (by simpa using hkeys)
    rw [List.append_assoc, List.singleton_append] at hmore
    simp only [fieldsOfMembers, hslot, any_given_eq_false hkeys, hv]
    exact hmore

/-- Members with a place each, whose readers read them, are read as the fields of a record. -/
theorem fieldsOfMembers_membersFrom {slots : List (Slot (Reader Value))}
    (given : List (String × Value))
    (hslots : ∀ m ∈ ms, ∃ slot, Slot.find? slots m.1 = some slot ∧ ReadsAs slot.reading m.2)
    (hkeys : ((given ++ ms).map (·.1)).Nodup) {turns : Nat} (hturns : ms.length < turns)
    (first : Bool) (rest : List Char) :
    Reader.fieldsOfMembers slots turns first given (membersFrom first ms ++ rest) =
      .ok (given ++ ms, '\x7d' :: rest) := by
  induction ms generalizing given turns first with
  | nil =>
    obtain ⟨turns, rfl, -⟩ := exists_turn hturns
    rw [Reader.fieldsOfMembers, membersFrom, List.singleton_append,
      bind_ok (nextKey_end first rest), List.append_nil]
    rfl
  | cons m ms ih =>
    obtain ⟨turns, rfl, hleft⟩ := exists_turn hturns
    obtain ⟨key, v⟩ := m
    obtain ⟨slot, hslot, hv⟩ := hslots _ List.mem_cons_self
    have hmore := ih (given ++ [(key, v)])
      (fun m hm => hslots m (List.mem_cons_of_mem _ hm)) (by simpa using hkeys) hleft false
    rw [← writeMembers_eq, List.append_assoc, List.singleton_append] at hmore
    rw [Reader.fieldsOfMembers, bind_ok (nextKey_membersFrom first key v ms rest)]
    simp only [hslot, any_given_eq_false hkeys, Bool.false_eq_true, if_false]
    rw [bind_ok (colon_cons _), bind_ok (hv _ (ends_writeMembers ms rest))]
    exact hmore

end Members

/-- A name among the known ones is read. -/
theorem name_writeText {names : List String} {name : String} (h : name ∈ names)
    (rest : List Char) : Reader.name names (writeText name ++ rest) = .ok (name, rest) := by
  rw [writeText, List.cons_append, List.append_assoc, List.singleton_append, Reader.name,
    bind_ok (token_cons rfl _)]
  change (drop >>= _) _ = _
  rw [bind_ok (drop_cons _ _), bind_ok (textBody_writeText name rest), Kind.acceptName, if_pos h]
  rfl

namespace Fits

variable {k : Kind} {depth : Nat} {v : Value}

/-- What fits a kind passes its check and stays as it is. -/
theorem ofValue_eq (h : Fits k depth v) : k.ofValue v = .ok v := by
  induction h with
  | boolean b => rfl
  | number h => rfl
  | @word depth bits n hbits _ =>
    have hnat : (0 : Int) ≤ n ∧ (n : Int).toNat < 1 <<< bits := ⟨by omega, by simpa using hbits⟩
    simp only [Kind.ofValue, Kind.accept]
    rw [if_pos hnat]
  | text s => rfl
  | choice h =>
    simp only [Kind.ofValue, Kind.choiceOfValue, Kind.acceptName, if_pos h]
    rfl
  | absent => rfl
  | present _ ih =>
    simp only [Kind.ofValue]
    split
    · rfl
    · exact ih
  | list _ ih =>
    simp only [Kind.ofValue, mapM_eq_ok ih]
    rfl
  | @record depth title fields ms hkeys hfound _ hmissing ih =>
    have hslots : ∀ m ∈ ms, ∃ slot, Slot.find? (checks fields) m.1 = some slot ∧
        slot.reading m.2 = .ok m.2 := by
      intro m hm
      obtain ⟨slot, hslot⟩ := Option.isSome_iff_exists.mp (hfound m hm)
      refine ⟨slot.map Kind.ofValue, ?_, ih m hm slot hslot⟩
      rw [checks_eq_map, Slot.find?_map, hslot]
      rfl
    have hgiven := fieldsOfMembers_eq [] hslots hkeys
    have hcomplete : Slot.missing? (checks fields) ms = none := by
      rw [checks_eq_map, Slot.missing?_map, hmissing]
    simp only [Kind.ofValue, recordOfValue, hgiven, ok_bind, List.nil_append, hcomplete]
    rfl

/-- What is neither a list nor an object and passes its check is read in one go. -/
theorem reads_accept (haccept : k.accept v = .ok v) (h : Readable 0 v) :
    ReadsAs (do
      match ← token with
      | some '[' => refuse k.expected
      | some '\x7b' => refuse k.expected
      | _ => settle (k.accept (← scalar))) v := by
  intro rest hrest
  obtain ⟨c, cs, hwrite, hhead⟩ := write_head v
  obtain ⟨hbracket, hbrace⟩ := h.head_ne_bracket hhead
  have hscalar := h.scalar_write rest hrest
  rw [hwrite, List.cons_append] at hscalar ⊢
  rw [bind_ok (token_cons hhead.opens.1 _)]
  generalize hd : some c = d
  split
  · cases hd
    exact absurd rfl hbracket
  · cases hd
    exact absurd rfl hbrace
  · rw [bind_ok hscalar, haccept]
    rfl

theorem reads_choice {names : List String} {name : String} (h : name ∈ names) (depth : Nat) :
    ReadsAs (Reader.choice names depth) (.text name) := by
  intro rest _
  have hname := name_writeText h rest
  rw [writeText, List.cons_append] at hname
  rw [Value.write, writeText, List.cons_append, Reader.choice, bind_ok (token_cons rfl _)]
  change (Reader.name names >>= _) _ = _
  rw [bind_ok hname]
  rfl

/-- What fits a kind is read by it from its text. -/
theorem reads_kind (h : Fits k depth v) : ReadsAs (k.read depth) v := by
  induction h with
  | boolean b => exact reads_accept rfl (.boolean b)
  | number h => exact reads_accept rfl (.number h)
  | @word depth bits n hbits hword =>
    have hfits : Fits (.word bits) depth (.integer n) := .word hbits hword
    exact reads_accept hfits.ofValue_eq (.integer hword)
  | text s => exact reads_accept rfl (.text s)
  | choice h => exact reads_choice h _
  | absent =>
    intro rest _
    rfl
  | @present depth k v h ih =>
    intro rest hrest
    obtain ⟨c, cs, hwrite, hhead⟩ := write_head v
    have hread := ih rest hrest
    rw [hwrite, List.cons_append] at hread ⊢
    rw [Kind.read, bind_ok (token_cons hhead.opens.1 _)]
    generalize hd : some c = d
    split
    · cases hd
      obtain rfl := h.readable.eq_null_of_head hhead
      rw [← List.cons_append, ← hwrite]
      rfl
    · exact hread
  | @list depth k vs _ ih =>
    intro rest hrest
    have hitems := items_itemsFrom ih (length_lt_itemsFrom vs rest) true rest
    rw [write_list, List.cons_append, Kind.read, bind_ok (token_cons rfl _)]
    change opened (depth + 1) _ _ = _
    rw [opened_cons, bind_ok (left_eq _), bind_ok hitems, bind_ok (closeList_bracket rest)]
    rfl
  | @record depth title fields ms hkeys hfound _ hmissing ih =>
    intro rest hrest
    have hslots : ∀ m ∈ ms, ∃ slot, Slot.find? (readings fields depth) m.1 = some slot ∧
        ReadsAs slot.reading m.2 := by
      intro m hm
      obtain ⟨slot, hslot⟩ := Option.isSome_iff_exists.mp (hfound m hm)
      refine ⟨slot.map (Kind.read · depth), ?_, ih m hm slot hslot⟩
      rw [readings_eq_map, Slot.find?_map, hslot]
      rfl
    have hgiven := fieldsOfMembers_membersFrom [] hslots hkeys
      (length_lt_membersFrom ms rest) true rest
    have hcomplete : Slot.missing? (readings fields depth) ms = none := by
      rw [readings_eq_map, Slot.missing?_map, hmissing]
    rw [write_object, List.cons_append, Kind.read, Reader.record, bind_ok (token_cons rfl _)]
    change opened (depth + 1) _ _ = _
    rw [opened_cons, bind_ok (left_eq _), bind_ok hgiven, List.nil_append]
    simp only [hcomplete]
    rfl

end Fits

section Tags

variable {tag variant : String} {variants : List String} {ms : List (String × Value)}

/-- Members behind the tag are kept as they are. -/
theorem taggedMembers_membersFrom {inner : Reader Value} (htag : ∀ m ∈ ms, m.1 ≠ tag)
    (hms : ∀ m ∈ ms, ReadsAs inner m.2) {turns : Nat} (hturns : ms.length < turns) (first : Bool)
    (rest : List Char) :
    taggedMembers tag variants inner turns first (some variant) (membersFrom first ms ++ rest) =
      .ok ((some variant, ms), '\x7d' :: rest) := by
  induction ms generalizing turns first with
  | nil =>
    obtain ⟨turns, rfl, -⟩ := exists_turn hturns
    rw [taggedMembers, membersFrom, List.singleton_append, bind_ok (nextKey_end first rest)]
    rfl
  | cons m ms ih =>
    obtain ⟨turns, rfl, hleft⟩ := exists_turn hturns
    obtain ⟨key, v⟩ := m
    have hkey : (key == tag) = false := beq_false_of_ne (htag _ List.mem_cons_self)
    have hmore := ih (fun m hm => htag m (List.mem_cons_of_mem _ hm))
      (fun m hm => hms m (List.mem_cons_of_mem _ hm)) hleft false
    rw [← writeMembers_eq] at hmore
    rw [taggedMembers, bind_ok (nextKey_membersFrom first key v ms rest)]
    simp only [hkey, Bool.false_eq_true, if_false]
    rw [bind_ok (colon_cons _),
      bind_ok (hms _ List.mem_cons_self _ (ends_writeMembers ms rest)), bind_ok hmore]
    rfl

/-- An object whose first member names its variant is read into memory. -/
theorem tagged_eq (title : String) (hvariant : variant ∈ variants) (htag : ∀ m ∈ ms, m.1 ≠ tag)
    (hms : ∀ m ∈ ms, Readable (depthLimit - 1) m.2) (rest : List Char) :
    tagged title tag variants ((Value.object ((tag, .text variant) :: ms)).write ++ rest) =
      .ok ((variant, .object ms), rest) := by
  have hturns : ((tag, Value.text variant) :: ms).length <
      (membersFrom true ((tag, .text variant) :: ms) ++ rest).length :=
    length_lt_membersFrom _ rest
  have hmembers : taggedMembers tag variants (value (depthLimit - 1))
      (membersFrom true ((tag, .text variant) :: ms) ++ rest).length true none
      (membersFrom true ((tag, .text variant) :: ms) ++ rest) =
      .ok ((some variant, ms), '\x7d' :: rest) := by
    generalize (membersFrom true ((tag, .text variant) :: ms) ++ rest).length = turns at hturns
    obtain ⟨turns, rfl, hleft⟩ := exists_turn hturns
    have hmore : taggedMembers tag variants (value (depthLimit - 1)) turns false (some variant)
        (membersFrom false ms ++ rest) = .ok ((some variant, ms), '\x7d' :: rest) :=
      taggedMembers_membersFrom htag (fun m hm => (hms m hm).reads_value) hleft false rest
    rw [← writeMembers_eq] at hmore
    rw [taggedMembers, bind_ok (nextKey_membersFrom true tag (.text variant) ms rest)]
    simp only [beq_self_eq_true, if_true, Option.isSome_none, Bool.false_eq_true, if_false]
    rw [bind_ok (colon_cons _), Value.write, bind_ok (name_writeText hvariant _)]
    exact hmore
  rw [write_object, List.cons_append, tagged, bind_ok (token_cons rfl _)]
  change opened (depthLimit - 1 + 1) _ _ = _
  rw [opened_cons, bind_ok (left_eq _), bind_ok hmembers]
  rfl

end Tags

end Replay.Json
