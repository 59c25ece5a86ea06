import Replay.Proofs.Json.Delimited
import Replay.Proofs.Json.Lookup

/-!
Tagged messages from the texts of objects. Such a text is read as a message exactly if all its
entries are read, one of them names the variant, and the others are of the kind of that variant
(`Tagged.parse_objectText`). The tag may stand anywhere among them.
-/

namespace Replay.Json

open Reader

variable {rest : List Char} {turns : Nat}

section Names

variable {α : Type} {names : List String}

/-- The known name that a value is. -/
def Value.name? (names : List String) : Value → Option String
  | .text s => if s ∈ names then some s else none
  | _ => none

theorem outcome_refuse (expected : String) (cs : List Char) :
    outcome (refuse expected : Reader α) cs = none := by
  rw [refuse, outcome_bind]
  cases outcome token cs with
  | none => rfl
  | some p =>
    obtain ⟨c, cs⟩ := p
    rw [Option.bind_some]
    split
    · rfl
    · rfl
    · rw [outcome_bind]
      cases outcome scalar cs <;> rfl

theorem takes_name_quoted (names : List String) (ps : List Piece) :
    Takes (name names) (quoted ps) ((string? ps).bind fun s => (Value.text s).name? names) := by
  intro rest _
  rw [quoted, List.cons_append, List.append_assoc, List.singleton_append, name,
    outcome_bind_ok (token_cons rfl _)]
  change outcome (drop >>= _) _ = _
  rw [outcome_bind_ok (drop_cons _ _), outcome_bind, outcome_textBody]
  cases string? ps with
  | none => rfl
  | some s =>
    change outcome (settle (Kind.acceptName names s)) rest = _
    rw [Kind.acceptName, Option.bind_some, Value.name?]
    split <;> rfl

theorem takes_name_of_ne {c : Char} (hblank : isBlank c = false) (hc : c ≠ '"')
    (names : List String) (cs : List Char) : Takes (name names) (c :: cs) none := by
  intro rest _
  rw [List.cons_append, name, outcome_bind_ok (token_cons hblank _)]
  generalize hd : some c = d
  split
  · cases hd
    exact absurd rfl hc
  · exact outcome_refuse _ _

/-- The reader of names takes a value that is read as a known name, and no other. -/
theorem IsValue.takes_name {cs : List Char} (h : IsValue cs) (names : List String)
    (depth : Nat) :
    Takes (name names) cs ((given (value depth) cs).bind (Value.name? names)) := by
  have hother : ∀ {c : Char} {r : List Char} {o : Option Value}, isBlank c = false → c ≠ '"' →
      Takes (value depth) (c :: r) o → (∀ v ∈ o, v.name? names = none) →
      Takes (name names) (c :: r) ((given (value depth) (c :: r)).bind (Value.name? names)) := by
    intro c r o hblank hc ho hv
    have hnone : o.bind (Value.name? names) = none := by
      cases o with
      | none => rfl
      | some v => exact hv v rfl
    rw [ho.given_eq, hnone]
    exact takes_name_of_ne hblank hc names r
  cases h with
  | null => exact hother rfl (by decide) (takes_null depth) (by rintro v ⟨⟩; rfl)
  | boolean b =>
    cases b
    · exact hother rfl (by decide) (takes_boolean depth false) (by rintro v ⟨⟩; rfl)
    · exact hother rfl (by decide) (takes_boolean depth true) (by rintro v ⟨⟩; rfl)
  | numeral n =>
    obtain ⟨c, r, hcs, hc⟩ := n.text_head
    obtain ⟨o, ho, hreads⟩ := takes_numeral depth n
    have hname : ∀ v ∈ o, v.name? names = none := by
      intro v hv
      cases hreads v hv <;> rfl
    rw [hcs] at ho ⊢
    rcases hc with rfl | hc
    · exact hother rfl (by decide) ho hname
    · exact hother (isBlank_of_isDigit hc) (ne_of_isDigit hc rfl) ho hname
  | text ps =>
    rw [(takes_text depth ps).given_eq, Option.bind_map]
    exact takes_name_quoted names ps
  | list inside is h =>
    cases depth with
    | zero => exact hother rfl (by decide) (takes_bracket (Or.inl rfl) _) nofun
    | succ depth =>
      refine hother rfl (by decide) (takes_list depth h fun i hi => (h i hi).takes depth) ?_
      intro v hv
      obtain ⟨vs, -, rfl⟩ := Option.map_eq_some_iff.mp hv
      rfl
  | object inside ms h =>
    cases depth with
    | zero => exact hother rfl (by decide) (takes_bracket (Or.inr rfl) _) nofun
    | succ depth =>
      refine hother rfl (by decide) (takes_object depth fun m hm => (h m hm).takes depth) ?_
      intro v hv
      obtain ⟨vs, -, rfl⟩ := Option.map_eq_some_iff.mp hv
      rfl

end Names

section Entries

variable {depth : Nat} {e : Entry} {es es' : List Entry} {read : List (String × Value)}

/-- The entries of an object, read into memory. -/
def readAll (depth : Nat) (es : List Entry) : Option (List (String × Value)) :=
  es.mapM (Entry.read? (value depth))

theorem readAll_cons (depth : Nat) (e : Entry) (es : List Entry) :
    readAll depth (e :: es) = (string? e.key).bind fun key =>
      (given (value depth) e.value).bind fun v => (readAll depth es).map ((key, v) :: ·) := by
  rw [readAll, List.mapM_cons, Entry.read?, readAll]
  cases string? e.key with
  | none => rfl
  | some key =>
    cases given (value depth) e.value with
    | none => rfl
    | some v => cases es.mapM (Entry.read? (value depth)) <;> rfl

theorem read?_eq_some_iff {key : String} {v : Value} :
    e.read? (value depth) = some (key, v) ↔
      string? e.key = some key ∧ given (value depth) e.value = some v := by
  rw [Entry.read?]
  cases string? e.key <;> cases given (value depth) e.value <;> simp

theorem readAll_cons_eq_some_iff : readAll depth (e :: es) = some read ↔
    ∃ m ms, e.read? (value depth) = some m ∧ readAll depth es = some ms ∧ read = m :: ms := by
  rw [readAll, List.mapM_cons, readAll]
  cases e.read? (value depth) <;> cases es.mapM (Entry.read? (value depth)) <;> simp [eq_comm]

/-- What is read is what the entries are read as one by one. -/
theorem mem_readAll (h : readAll depth es = some read) {m : String × Value} :
    m ∈ read ↔ ∃ e ∈ es, e.read? (value depth) = some m := by
  induction es generalizing read with
  | nil =>
    cases h
    simp
  | cons e es ih =>
    obtain ⟨m', ms, hm', hms, rfl⟩ := readAll_cons_eq_some_iff.mp h
    simp [ih hms, hm', eq_comm]

theorem exists_mem_of_mapM {α β : Type} {f : α → Option β} {xs : List α} {ys : List β}
    (h : xs.mapM f = some ys) {x : α} (hx : x ∈ xs) : ∃ y ∈ ys, f x = some y := by
  induction xs generalizing ys with
  | nil => cases hx
  | cons x' xs ih =>
    rw [List.mapM_cons] at h
    obtain ⟨y', hy', h⟩ := Option.bind_eq_some_iff.mp h
    obtain ⟨ys', hys', h⟩ := Option.bind_eq_some_iff.mp h
    cases h
    rcases List.mem_cons.mp hx with rfl | hx
    · exact ⟨y', List.mem_cons_self, hy'⟩
    · obtain ⟨y, hy, hxy⟩ := ih hys' hx
      exact ⟨y, List.mem_cons_of_mem y' hy, hxy⟩

theorem readAll_append {all : List (String × Value)} :
    readAll depth (es ++ es') = some all ↔
      ∃ read read', readAll depth es = some read ∧ readAll depth es' = some read' ∧
        all = read ++ read' := by
  rw [readAll, List.mapM_append, readAll, readAll]
  cases es.mapM (Entry.read? (value depth)) <;> cases es'.mapM (Entry.read? (value depth)) <;>
    simp [eq_comm]

theorem exists_readAll (h : ∀ e ∈ es, ∃ m, e.read? (value depth) = some m) :
    ∃ read, readAll depth es = some read := by
  induction es with
  | nil => exact ⟨[], rfl⟩
  | cons e es ih =>
    obtain ⟨m, hm⟩ := h e List.mem_cons_self
    obtain ⟨ms, hms⟩ := ih fun e' he' => h e' (List.mem_cons_of_mem e he')
    exact ⟨m :: ms, readAll_cons_eq_some_iff.mpr ⟨m, ms, hm, hms, rfl⟩⟩

/-- Entries in another order are read as the same members in another order. -/
theorem readAll_perm (hperm : es.Perm es') (h : readAll depth es = some read) :
    ∃ read', readAll depth es' = some read' ∧ read.Perm read' := by
  induction hperm generalizing read with
  | nil => exact ⟨read, h, .refl _⟩
  | cons e _ ih =>
    obtain ⟨m, ms, hm, hms, rfl⟩ := readAll_cons_eq_some_iff.mp h
    obtain ⟨ms', hms', hperm⟩ := ih hms
    exact ⟨m :: ms', readAll_cons_eq_some_iff.mpr ⟨m, ms', hm, hms', rfl⟩, hperm.cons m⟩
  | swap e e' es =>
    obtain ⟨m', more, hm', hmore, rfl⟩ := readAll_cons_eq_some_iff.mp h
    obtain ⟨m, ms, hm, hms, rfl⟩ := readAll_cons_eq_some_iff.mp hmore
    refine ⟨m :: m' :: ms, ?_, .swap m m' ms⟩
    exact readAll_cons_eq_some_iff.mpr
      ⟨m, _, hm, readAll_cons_eq_some_iff.mpr ⟨m', ms, hm', hms, rfl⟩, rfl⟩
  | trans _ _ ih ih' =>
    obtain ⟨ms, hms, hperm⟩ := ih h
    obtain ⟨ms', hms', hperm'⟩ := ih' hms
    exact ⟨ms', hms', hperm.trans hperm'⟩

end Entries

section Tags

variable {tag key : String} {variants : List String} {v : Value} {read : List (String × Value)}

/-- The variant that is known once the tag gives further values: it is named only once. -/
def tagOf (variants : List String) : Option String → List Value → Option (Option String)
  | variant, [] => some variant
  | none, [v] => (v.name? variants).map some
  | _, _ => none

theorem tagOf_nil (variants : List String) (variant : Option String) :
    tagOf variants variant [] = some variant := by
  cases variant <;> rfl

theorem tagOf_some_cons (variants : List String) (variant : String) (v : Value)
    (vs : List Value) : tagOf variants (some variant) (v :: vs) = none := by
  simp [tagOf]

theorem tagOf_none_cons (variants : List String) (v : Value) (vs : List Value) :
    tagOf variants none (v :: vs) =
      (v.name? variants).bind fun variant => tagOf variants (some variant) vs := by
  cases vs <;> cases hname : v.name? variants <;> simp [tagOf, hname]

/-- The variant and the members under other keys than the tag. -/
def divided (tag : String) (variants : List String) (variant : Option String)
    (read : List (String × Value)) : Option (Option String × List (String × Value)) :=
  (tagOf variants variant (valuesOf tag read)).map (·, others tag read)

theorem divided_nil (tag : String) (variants : List String) (variant : Option String) :
    divided tag variants variant [] = some (variant, []) := by
  rw [divided, valuesOf_nil, tagOf_nil]
  rfl

/-- The tag does not come twice. -/
theorem divided_some_cons (variant : String) :
    divided tag variants (some variant) ((tag, v) :: read) = none := by
  rw [divided, valuesOf_cons_self, tagOf_some_cons]
  rfl

theorem divided_none_cons :
    divided tag variants none ((tag, v) :: read) =
      (v.name? variants).bind fun variant => divided tag variants (some variant) read := by
  rw [divided, valuesOf_cons_self, others_cons_self, tagOf_none_cons]
  cases v.name? variants <;> rfl

theorem divided_cons_of_ne (h : key ≠ tag) (variant : Option String) :
    divided tag variants variant ((key, v) :: read) =
      (divided tag variants variant read).map fun p => (p.1, (key, v) :: p.2) := by
  rw [divided, valuesOf_cons_of_ne h, others_cons_of_ne h, divided, Option.map_map]
  rfl

theorem outcome_failClosing {α : Type} (bracket : Char) (cause : Cause) (cs : List Char) :
    outcome (failClosing bracket cause : Reader α) cs = none := by
  rw [failClosing, outcome_bind]
  cases outcome token cs with
  | none => rfl
  | some p =>
    obtain ⟨c, cs⟩ := p
    cases c with
    | none => rfl
    | some c =>
      change outcome (if c = bracket then drop >>= fun _ => fail cause else fail cause) cs = none
      split <;> rfl

theorem skipsBlanks_name (names : List String) : SkipsBlanks (name names) :=
  token_bind_blanks _

/-- The loop over the members reads all of them, and keeps the variant and the other members. -/
theorem outcome_taggedMembers (depth : Nat) (tag : String) (variants : List String)
    {ms : List Member} (hms : ∀ m ∈ ms, IsValue m.entry.value) (hturns : ms.length < turns)
    (first : Bool) (lead : Blanks) (variant : Option String) (rest : List Char) :
    outcome (taggedMembers tag variants (value depth) turns first variant)
        (lead.chars ++ (separated first (ms.map Member.text) ++ '\x7d' :: rest)) =
      ((readAll depth (ms.map Member.entry)).bind (divided tag variants variant)).map
        (·, '\x7d' :: rest) := by
  induction ms generalizing turns first lead variant with
  | nil =>
    obtain ⟨turns, rfl, -⟩ := exists_turn hturns
    have hend : nextKey first (lead.chars ++ '\x7d' :: rest) = .ok (none, '\x7d' :: rest) :=
      (token_bind_blanks _ lead _).trans (nextKey_end first rest)
    refine (outcome_bind_ok hend _).trans ?_
    change _ = (divided tag variants variant []).map _
    rw [divided_nil]
    rfl
  | cons m ms ih =>
    obtain ⟨turns, rfl, hmore⟩ := exists_turn hturns
    have hloop := ih (fun n hn => hms n (List.mem_cons_of_mem m hn)) hmore false m.behindValue
    have hvalue := hms m List.mem_cons_self
    rw [taggedMembers, outcome_bind, outcome_nextKey_member, List.map_cons, readAll_cons]
    generalize readAll depth (ms.map Member.entry) = all at hloop ⊢
    cases string? m.entry.key with
    | none => rfl
    | some key =>
      simp only [Option.map_some, Option.bind_some, Option.bind_assoc, Option.bind_map]
      by_cases hkey : key = tag
      · subst hkey
        simp only [beq_self_eq_true, if_true]
        cases variant with
        | some variant =>
          simp only [Function.comp_def, divided_some_cons, Option.bind_fun_none, Option.map_none]
          exact outcome_failClosing '\x7d' _ _
        | none =>
          refine (outcome_colon_bind (skipsBlanks_name variants)
            (hvalue.takes_name variants depth) ms _ _).trans ?_
          simp only [Function.comp_def, divided_none_cons, hloop]
          cases given (value depth) m.entry.value with
          | none => rfl
          | some v => cases hname : v.name? variants <;> cases all <;> simp [hname]
      · simp only [beq_false_of_ne hkey, Bool.false_eq_true, if_false]
        refine (outcome_colon_bind (skipsBlanks_value depth) (hvalue.takes depth) ms _
          _).trans ?_
        simp only [Function.comp_def, divided_cons_of_ne hkey, outcome_bind, hloop]
        cases given (value depth) m.entry.value with
        | none => rfl
        | some v =>
          cases all with
          | none => rfl
          | some read =>
            cases hread : divided tag variants variant read with
            | none => simp [hread]
            | some p =>
              simp [hread]
              rfl

end Tags

section Texts

variable {α : Type} {tag : String} {variants : List String} {read : List (String × Value)}

/-- The entries of the text of an object, read in their place. -/
def ObjectText.readAll (x : ObjectText) : Option (List (String × Value)) :=
  Json.readAll (depthLimit - 1) x.entries

theorem Value.name?_eq_some_iff {names : List String} {v : Value} {s : String} :
    v.name? names = some s ↔ v = .text s ∧ s ∈ names := by
  cases v with
  | text s' =>
    rw [Value.name?, Value.text.injEq]
    split
    · rename_i hs
      rw [Option.some.injEq]
      exact ⟨fun h => ⟨h, h ▸ hs⟩, fun h => h.1⟩
    · rename_i hs
      exact ⟨nofun, fun h => absurd (h.1 ▸ h.2) hs⟩
  | _ => simp [Value.name?]

theorem divided_eq_some_iff {variant : String} {ms : List (String × Value)} :
    divided tag variants none read = some (some variant, ms) ↔
      valuesOf tag read = [.text variant] ∧ variant ∈ variants ∧ ms = others tag read := by
  rw [divided]
  generalize valuesOf tag read = vs
  rcases vs with _ | ⟨v, _ | ⟨v', vs⟩⟩
  · simp [tagOf]
  · rw [tagOf, Option.map_map, Option.map_eq_some_iff]
    constructor
    · rintro ⟨s, hs, heq⟩
      cases heq
      obtain ⟨rfl, hmem⟩ := Value.name?_eq_some_iff.mp hs
      exact ⟨rfl, hmem, rfl⟩
    · rintro ⟨hv, hmem, rfl⟩
      cases hv
      exact ⟨variant, Value.name?_eq_some_iff.mpr ⟨rfl, hmem⟩, rfl⟩
  · simp [tagOf]

/-- An object is tagged if all its entries are read and one of them names the variant. -/
theorem outcome_tagged (title tag : String) (variants : List String) (x : ObjectText) :
    outcome (tagged title tag variants) x.text.toList =
      (x.readAll.bind (divided tag variants none)).bind fun p =>
        p.1.map fun variant => ((variant, .object p.2), x.behind.chars) := by
  obtain ⟨lead, hlead⟩ := between_eq x.inside (x.members.map Member.text)
  have hturns := length_lt_members x.members lead x.behind.chars
  have hloop := outcome_taggedMembers (depthLimit - 1) tag variants x.isValue hturns true lead none
    x.behind.chars
  have hblanks : SkipsBlanks (tagged title tag variants) := token_bind_blanks _
  rw [ObjectText.text, String.toList_ofList, outcome, hblanks, ← outcome, objectText, hlead,
    List.cons_append, List.append_assoc, List.append_assoc, List.singleton_append, tagged,
    outcome_bind_ok (token_cons rfl _)]
  change outcome (opened (depthLimit - 1 + 1) _) _ = _
  rw [outcome, opened_cons]
  change outcome (left >>= _) _ = _
  rw [outcome_bind_ok (left_eq _), outcome_bind, hloop]
  change ((x.readAll.bind _).map _).bind _ = _
  cases x.readAll.bind (divided tag variants none) with
  | none => rfl
  | some p =>
    obtain ⟨variant, ms⟩ := p
    cases variant with
    | none => exact outcome_failClosing '\x7d' _ _
    | some variant => rfl

/-- A text is read if what was read is right and only blanks are left. -/
theorem runChecked_eq_ok_iff {r : Reader (Except Cause α)} {text : String} {x : α} :
    runChecked r text = .ok x ↔
      ∃ rest, outcome r text.toList = some (.ok x, rest) ∧ rest.dropWhile isBlank = [] := by
  rw [runChecked, outcome]
  rcases r text.toList with f | ⟨cause | x', rest⟩
  · constructor
    · intro h
      cases h
    · rintro ⟨rest, ⟨⟩, -⟩
  · constructor
    · intro h
      cases h
    · rintro ⟨rest, ⟨⟩, -⟩
  · cases hblank : rest.dropWhile isBlank with
    | nil =>
      constructor
      · intro h
        simp only [hblank] at h
        cases h
        exact ⟨rest, rfl, hblank⟩
      · rintro ⟨rest, ⟨⟩, -⟩
        simp only [hblank]
    | cons c cs =>
      constructor
      · intro h
        simp only [hblank] at h
        cases h
      · rintro ⟨rest, ⟨⟩, h⟩
        rw [hblank] at h
        cases h

/-- The entries of an object that were read say a tagged message: one of them names the variant,
and the others are of its kind. -/
structure Tagged.Said (t : Tagged α) (read : List (String × Value)) (variant : String)
    (x : α) : Prop where
  named : valuesOf Tagged.tag read = [.text variant]
  known : variant ∈ t.variants
  holds : ∃ v, (t.kind variant).ofValue (.object (others Tagged.tag read)) = .ok v ∧
    t.ofFields variant v.toFields = x

/-- The text of an object is a tagged message exactly if its entries are read and say one. -/
theorem Tagged.parse_objectText (t : Tagged α) (x : ObjectText) (m : α) :
    t.parse x.text = .ok m ↔
      ∃ read, x.readAll = some read ∧ ∃ variant, t.Said read variant m := by
  have hreader : outcome t.reader x.text.toList =
      (outcome (Reader.tagged t.title Tagged.tag t.variants) x.text.toList).map fun p =>
        (((t.kind p.1.1).ofValue p.1.2).map fun v => t.ofFields p.1.1 v.toFields, p.2) := by
    rw [Tagged.reader, outcome_bind]
    cases outcome (Reader.tagged t.title Tagged.tag t.variants) x.text.toList <;> rfl
  rw [Tagged.parse, runChecked_eq_ok_iff, hreader, outcome_tagged]
  constructor
  · rintro ⟨rest, h, -⟩
    obtain ⟨⟨⟨variant, content⟩, rest'⟩, htagged, heq⟩ := Option.map_eq_some_iff.mp h
    obtain ⟨⟨name, ms⟩, hdivided, hname⟩ := Option.bind_eq_some_iff.mp htagged
    obtain ⟨read, hread, hdivided⟩ := Option.bind_eq_some_iff.mp hdivided
    obtain ⟨variant, rfl, hcontent⟩ := Option.map_eq_some_iff.mp hname
    cases hcontent
    obtain ⟨hnamed, hknown, rfl⟩ := divided_eq_some_iff.mp hdivided
    injection heq with hvalue
    cases hkind : (t.kind variant).ofValue (.object (others Tagged.tag read)) with
    | error cause =>
      rw [hkind] at hvalue
      cases hvalue
    | ok v =>
      rw [hkind] at hvalue
      cases hvalue
      exact ⟨read, hread, variant, hnamed, hknown, v, hkind, rfl⟩
  · rintro ⟨read, hread, variant, hnamed, hknown, v, hkind, rfl⟩
    refine ⟨x.behind.chars, ?_, ?_⟩
    · rw [hread, Option.bind_some, divided_eq_some_iff.mpr ⟨hnamed, hknown, rfl⟩]
      simp only [Option.bind_some, Option.map_some, hkind]
      rfl
    · rw [← List.append_nil x.behind.chars, List.dropWhile_append_of_pos x.behind.blank]
      rfl

end Texts

end Replay.Json
