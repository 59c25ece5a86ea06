import Replay.Proofs.Json.Outcomes

/-!
What readers make of whole values. A value is taken from its text as a whole or not at all, wherever
the text stands and at every depth (`IsValue.takes`). In lists and objects each part is taken by
itself, and one that is not taken makes the whole fail.
-/

namespace Replay.Json

open Reader

section Blanks

variable {α β : Type} {rest : List Char}

theorem token_blanks (b : Blanks) (cs : List Char) : token (b.chars ++ cs) = token cs := by
  have hblanks : blanks (b.chars ++ cs) = blanks cs := by
    rw [blanks, blanks, List.dropWhile_append_of_pos b.blank]
  change (blanks (b.chars ++ cs) >>= fun p => peek p.2) = (blanks cs >>= fun p => peek p.2)
  rw [hblanks]

/-- A reader that looks for what comes next passes over blanks. -/
theorem token_bind_blanks (f : Option Char → Reader α) (b : Blanks) (cs : List Char) :
    (token >>= f) (b.chars ++ cs) = (token >>= f) cs := by
  change (token (b.chars ++ cs) >>= fun p => f p.1 p.2) = (token cs >>= fun p => f p.1 p.2)
  rw [token_blanks]

def Blanks.none : Blanks := ⟨[], nofun⟩

theorem ends_blanks (b : Blanks) (hrest : Ends rest) : Ends (b.chars ++ rest) := by
  obtain ⟨cs, hcs⟩ := b
  cases cs with
  | nil => exact hrest
  | cons c cs =>
    have hc : isBlank c = true := hcs c List.mem_cons_self
    simp only [isBlank, Bool.or_eq_true, decide_eq_true_eq] at hc
    rcases hc with ((rfl | rfl) | rfl) | rfl <;> simp [Ends, Stops, Char.isDigit]

end Blanks

section Parts

variable {rest : List Char} {c : Char}

/-- What stands in front of a bracket, or of a comma and further parts, ends there. -/
theorem ends_separated (b : Blanks) (parts : List (List Char)) (hc : c = ']' ∨ c = '\x7d')
    (rest : List Char) : Ends (b.chars ++ (separated false parts ++ c :: rest)) := by
  refine ends_blanks b ?_
  cases parts with
  | nil => exact ends_cons (Or.inr hc) rest
  | cons part parts => exact ends_cons (Or.inl rfl) _

theorem between_eq (inside : Blanks) (parts : List (List Char)) :
    ∃ lead : Blanks, between inside parts = lead.chars ++ separated true parts := by
  cases parts with
  | nil => exact ⟨inside, (List.append_nil _).symm⟩
  | cons part parts => exact ⟨.none, rfl⟩

/-- The text that is left bounds the turns of a loop over the parts. -/
theorem length_lt_separated (parts : List (List Char)) (h : ∀ part ∈ parts, part ≠ [])
    (lead : Blanks) (first : Bool) (c : Char) (rest : List Char) :
    parts.length < (lead.chars ++ (separated first parts ++ c :: rest)).length := by
  have hle : parts.length ≤ (separated first parts).length := by
    induction parts generalizing first with
    | nil => exact Nat.zero_le _
    | cons part parts ih =>
      have hpos := List.length_pos_iff.mpr (h part List.mem_cons_self)
      have hmore := ih (fun p hp => h p (List.mem_cons_of_mem _ hp)) false
      simp only [separated, List.length_append, List.length_cons]
      omega
  simp only [List.length_append, List.length_cons]
  omega

theorem another_comma (b : Blanks) (cs : List Char) :
    another false (',' :: (b.chars ++ cs)) = another false (',' :: cs) := by
  rw [another, bind_ok (token_cons rfl _), bind_ok (token_cons rfl _)]
  change (drop >>= _) _ = (drop >>= _) _
  rw [bind_ok (drop_cons _ _), bind_ok (drop_cons _ _)]
  exact token_bind_blanks _ b cs

theorem another_part (hc : Opens c) (first : Bool) (lead before : Blanks) (rest : List Char) :
    another first (lead.chars ++ (comma first ++ (before.chars ++ c :: rest))) =
      .ok (true, c :: rest) := by
  refine (token_bind_blanks _ lead _).trans ?_
  cases first with
  | true => exact (token_bind_blanks _ before _).trans (another_item hc true rest)
  | false => exact (another_comma before _).trans (another_item hc false rest)

theorem nextKey_comma (b : Blanks) (cs : List Char) :
    nextKey false (',' :: (b.chars ++ '"' :: cs)) = nextKey.key ('"' :: cs) := by
  rw [nextKey, bind_ok (token_cons rfl _)]
  change (drop >>= _) _ = _
  rw [bind_ok (drop_cons _ _)]
  exact token_bind_blanks _ b _

/-- The key of the next member is read, and what stands behind it is left. -/
theorem outcome_nextKey (first : Bool) (lead before : Blanks) (ps : List Piece)
    (rest : List Char) :
    outcome (nextKey first)
        (lead.chars ++ (comma first ++ (before.chars ++ (quoted ps ++ rest)))) =
      (string? ps).map fun key => (some key, rest) := by
  have hkey : outcome nextKey.key (quoted ps ++ rest) =
      (string? ps).map fun key => (some key, rest) := by
    rw [quoted, List.cons_append, List.append_assoc, nextKey.key, outcome_bind_ok (drop_cons _ _),
      List.singleton_append, outcome_bind, outcome_textBody]
    cases string? ps <;> rfl
  refine Eq.trans ?_ hkey
  refine congrArg Except.toOption ((token_bind_blanks _ lead _).trans ?_)
  cases first with
  | true => exact token_bind_blanks _ before _
  | false => exact nextKey_comma before _

theorem colon_blanks (b : Blanks) (rest : List Char) :
    colon (b.chars ++ ':' :: rest) = .ok ((), rest) :=
  token_bind_blanks _ b _

end Parts

section Loops

variable {α : Type} {rest : List Char} {turns : Nat}

/-- Items that are taken one by one are taken as a list, and the list fails if one of them does. -/
theorem outcome_items {item : Reader α} {is : List Item}
    (hopens : ∀ i ∈ is, ∃ c cs, i.value = c :: cs ∧ Opens c)
    (his : ∀ i ∈ is, Takes item i.value (given item i.value)) (hturns : is.length < turns)
    (first : Bool) (lead : Blanks) (rest : List Char) :
    outcome (items item turns first)
        (lead.chars ++ (separated first (is.map Item.text) ++ ']' :: rest)) =
      (is.mapM fun i => given item i.value).map (·, ']' :: rest) := by
  induction is generalizing turns first lead with
  | nil =>
    obtain ⟨turns, rfl, -⟩ := exists_turn hturns
    have hend : another first (lead.chars ++ ']' :: rest) = .ok (false, ']' :: rest) :=
      (token_bind_blanks _ lead _).trans (another_end first rest)
    exact outcome_bind_ok hend _
  | cons i is ih =>
    obtain ⟨turns, rfl, hmore⟩ := exists_turn hturns
    obtain ⟨c, cs, hvalue, hc⟩ := hopens i List.mem_cons_self
    have hanother : another first
        (lead.chars ++ (separated first ((i :: is).map Item.text) ++ ']' :: rest)) =
        .ok (true, i.value ++ (i.behind.chars ++
          (separated false (is.map Item.text) ++ ']' :: rest))) := by
      simp only [List.map_cons, separated, Item.text, hvalue, List.append_assoc,
        List.cons_append]
      exact another_part hc first lead i.before _
    have htake := his i List.mem_cons_self _
      (ends_separated i.behind (is.map Item.text) (Or.inl rfl) rest)
    have hitems := ih (fun j hj => hopens j (List.mem_cons_of_mem i hj))
      (fun j hj => his j (List.mem_cons_of_mem i hj)) hmore false i.behind
    rw [items, outcome_bind_ok hanother]
    change outcome (item >>= _) _ = _
    rw [outcome_bind, htake, List.mapM_cons]
    cases given item i.value with
    | none => rfl
    | some x =>
      change outcome (items item turns false >>= _) _ = _
      rw [outcome_bind, hitems]
      cases is.mapM fun j => given item j.value <;> rfl

/-- A reader of values passes over the blanks in front of them. -/
def SkipsBlanks (r : Reader α) : Prop := ∀ (b : Blanks) cs, r (b.chars ++ cs) = r cs

/-- The key of an entry, and what the reader gives for its value. -/
def Entry.read? (r : Reader α) (e : Entry) : Option (String × α) := do
  let key ← string? e.key
  let x ← given r e.value
  return (key, x)

/-- What is left of the members behind the key of the first one. -/
def Member.behindKeyText (m : Member) (ms : List Member) (rest : List Char) : List Char :=
  m.behindKey.chars ++ ':' :: (m.beforeValue.chars ++ (m.entry.value ++ (m.behindValue.chars ++
    (separated false (ms.map Member.text) ++ rest))))

theorem outcome_nextKey_member (first : Bool) (lead : Blanks) (m : Member) (ms : List Member)
    (rest : List Char) :
    outcome (nextKey first)
        (lead.chars ++ (separated first ((m :: ms).map Member.text) ++ rest)) =
      (string? m.entry.key).map fun key => (some key, m.behindKeyText ms rest) := by
  simp only [List.map_cons, separated, Member.text, Member.behindKeyText, List.append_assoc,
    List.cons_append]
  exact outcome_nextKey first lead m.beforeKey m.entry.key _

/-- The value of a member is read behind its colon. -/
theorem outcome_colon_bind {β : Type} {r : Reader α} (hr : SkipsBlanks r) {m : Member}
    {o : Option α} (hm : Takes r m.entry.value o) (ms : List Member) (f : α → Reader β)
    (rest : List Char) :
    outcome (do
        colon
        let x ← r
        f x) (m.behindKeyText ms ('\x7d' :: rest)) =
      o.bind fun x => outcome (f x)
        (m.behindValue.chars ++ (separated false (ms.map Member.text) ++ '\x7d' :: rest)) := by
  have htake := hm _ (ends_separated m.behindValue (ms.map Member.text) (Or.inr rfl) rest)
  rw [Member.behindKeyText, outcome_bind_ok (colon_blanks m.behindKey _), outcome_bind, outcome,
    hr m.beforeValue]
  change ((outcome r _).bind _) = _
  rw [htake]
  cases o <;> rfl

/-- Members whose values are taken one by one are taken as an object, and the object fails if one
of its keys or values does. -/
theorem outcome_members {r : Reader α} (hr : SkipsBlanks r) {ms : List Member}
    (hms : ∀ m ∈ ms, Takes r m.entry.value (given r m.entry.value)) (hturns : ms.length < turns)
    (first : Bool) (lead : Blanks) (rest : List Char) :
    outcome (members r turns first)
        (lead.chars ++ (separated first (ms.map Member.text) ++ '\x7d' :: rest)) =
      (ms.mapM fun m : Member => m.entry.read? r).map (·, '\x7d' :: rest) := by
  induction ms generalizing turns first lead with
  | nil =>
    obtain ⟨turns, rfl, -⟩ := exists_turn hturns
    have hend : nextKey first (lead.chars ++ '\x7d' :: rest) = .ok (none, '\x7d' :: rest) :=
      (token_bind_blanks _ lead _).trans (nextKey_end first rest)
    exact outcome_bind_ok hend _
  | cons m ms ih =>
    obtain ⟨turns, rfl, hmore⟩ := exists_turn hturns
    have hmembers := ih (fun n hn => hms n (List.mem_cons_of_mem m hn)) hmore false m.behindValue
    rw [members, outcome_bind, outcome_nextKey_member, List.mapM_cons, Entry.read?]
    cases string? m.entry.key with
    | none => rfl
    | some key =>
      refine (outcome_colon_bind hr (hms m List.mem_cons_self) ms _ rest).trans ?_
      cases given r m.entry.value with
      | none => rfl
      | some x =>
        change outcome (members r turns false >>= _) _ = _
        rw [outcome_bind, hmembers]
        cases ms.mapM fun n : Member => n.entry.read? r <;> rfl

end Loops

section Values

theorem Takes.given_self {α : Type} {r : Reader α} {cs : List Char} {o : Option α}
    (h : Takes r cs o) : Takes r cs (given r cs) := by
  rw [h.given_eq]
  exact h

theorem skipsBlanks_value (depth : Nat) : SkipsBlanks (value depth) := by
  intro b cs
  cases depth <;> exact token_bind_blanks _ b cs

/-- What a value begins with: a word, a numeral, a quote or a bracket. -/
theorem Numeral.text_head (n : Numeral) :
    ∃ c cs, n.text = c :: cs ∧ (c = '-' ∨ c.isDigit = true) := by
  rw [text]
  cases n.negative with
  | true => exact ⟨'-', _, rfl, Or.inl rfl⟩
  | false =>
    obtain ⟨c, cs, hcs⟩ := n.canonical.exists_cons
    refine ⟨c, cs ++ n.tail, ?_, Or.inr (n.canonical.1 c (by simp [hcs]))⟩
    rw [hcs]
    rfl

theorem IsValue.head {cs : List Char} (h : IsValue cs) : ∃ c r, cs = c :: r ∧ Opens c := by
  cases h with
  | null => exact ⟨'n', _, rfl, by simp [Opens, isBlank]⟩
  | boolean b => cases b <;> exact ⟨_, _, rfl, by simp [Opens, isBlank]⟩
  | numeral n =>
    obtain ⟨c, r, hcs, rfl | hc⟩ := n.text_head
    · exact ⟨_, r, hcs, opens_minus⟩
    · exact ⟨c, r, hcs, opens_of_isDigit hc⟩
  | text ps => exact ⟨'"', _, rfl, by simp [Opens, isBlank]⟩
  | list inside items h => exact ⟨'[', _, rfl, by simp [Opens, isBlank]⟩
  | object inside members h => exact ⟨'\x7b', _, rfl, by simp [Opens, isBlank]⟩

theorem IsValue.ne_nil {cs : List Char} (h : IsValue cs) : cs ≠ [] := by
  obtain ⟨c, r, rfl, -⟩ := h.head
  exact List.cons_ne_nil c r

variable (depth : Nat)

theorem takes_null : Takes (value depth) ['n', 'u', 'l', 'l'] (some .null) := by
  intro rest _
  exact congrArg Except.toOption (value_eq_scalar rfl (by decide) (by decide) depth _)

theorem takes_boolean (b : Bool) :
    Takes (value depth) (if b then ['t', 'r', 'u', 'e'] else ['f', 'a', 'l', 's', 'e'])
      (some (.boolean b)) := by
  intro rest _
  cases b <;>
    exact congrArg Except.toOption (value_eq_scalar rfl (by decide) (by decide) depth _)

theorem takes_numeral (n : Numeral) :
    ∃ o, Takes (value depth) n.text o ∧ ∀ v ∈ o, n.Reads v := by
  obtain ⟨o, ho, hreads⟩ := n.takes_scalar
  refine ⟨o, fun rest hrest => ?_, hreads⟩
  obtain ⟨c, r, hcs, hc⟩ := n.text_head
  have hread := ho rest hrest
  rw [hcs, List.cons_append] at hread ⊢
  rw [← hread, outcome, outcome]
  rcases hc with rfl | hc
  · rw [value_eq_scalar rfl (by decide) (by decide)]
  · rw [value_eq_scalar (isBlank_of_isDigit hc) (ne_of_isDigit hc rfl) (ne_of_isDigit hc rfl)]

theorem takes_text (ps : List Piece) :
    Takes (value depth) (quoted ps) ((string? ps).map .text) := by
  intro rest _
  have hscalar : outcome scalar (quoted ps ++ rest) =
      ((string? ps).map .text).map (·, rest) := by
    rw [quoted, List.cons_append, List.append_assoc, List.singleton_append, scalar,
      outcome_bind_ok (token_cons rfl _)]
    change outcome (drop >>= _) _ = _
    rw [outcome_bind_ok (drop_cons _ _), outcome_bind, outcome_textBody]
    cases string? ps <;> rfl
  rw [← hscalar]
  exact congrArg Except.toOption (value_eq_scalar rfl (by decide) (by decide) depth _)

theorem takes_list {inside : Blanks} {is : List Item} (h : ∀ i ∈ is, IsValue i.value)
    (his : ∀ i ∈ is, Takes (value depth) i.value (given (value depth) i.value)) :
    Takes (value (depth + 1)) (listText inside is)
      ((is.mapM fun i => given (value depth) i.value).map .list) := by
  intro rest _
  obtain ⟨lead, hlead⟩ := between_eq inside (is.map Item.text)
  have hturns := length_lt_separated (is.map Item.text) (by
    intro part hpart
    obtain ⟨i, hi, rfl⟩ := List.mem_map.mp hpart
    simp [Item.text, (h i hi).ne_nil]) lead true ']' rest
  rw [List.length_map] at hturns
  have hitems := outcome_items (fun i hi => (h i hi).head) his hturns true lead rest
  rw [listText, hlead, List.cons_append, List.append_assoc, List.append_assoc,
    List.singleton_append, value, valueWith, outcome_bind_ok (token_cons rfl _), if_pos rfl]
  change outcome (drop >>= _) _ = _
  rw [outcome_bind_ok (drop_cons _ _), outcome_bind_ok (left_eq _), outcome_bind, hitems]
  cases is.mapM fun i => given (value depth) i.value <;> rfl

theorem length_lt_members (ms : List Member) (lead : Blanks) (rest : List Char) :
    ms.length <
      (lead.chars ++ (separated true (ms.map Member.text) ++ '\x7d' :: rest)).length := by
  have hturns := length_lt_separated (ms.map Member.text) (by
    intro part hpart
    obtain ⟨m, hm, rfl⟩ := List.mem_map.mp hpart
    simp [Member.text, quoted]) lead true '\x7d' rest
  rwa [List.length_map] at hturns

theorem takes_object {inside : Blanks} {ms : List Member}
    (h : ∀ m ∈ ms, Takes (value depth) m.entry.value (given (value depth) m.entry.value)) :
    Takes (value (depth + 1)) (objectText inside ms)
      ((ms.mapM fun m : Member => m.entry.read? (value depth)).map .object) := by
  intro rest _
  obtain ⟨lead, hlead⟩ := between_eq inside (ms.map Member.text)
  have hturns := length_lt_members ms lead rest
  have hmembers := outcome_members (skipsBlanks_value depth) h hturns true lead rest
  rw [objectText, hlead, List.cons_append, List.append_assoc, List.append_assoc,
    List.singleton_append, value, valueWith, outcome_bind_ok (token_cons rfl _),
    if_neg (by simp), if_pos rfl]
  change outcome (drop >>= _) _ = _
  rw [outcome_bind_ok (drop_cons _ _), outcome_bind_ok (left_eq _), outcome_bind, hmembers]
  cases ms.mapM fun m : Member => m.entry.read? (value depth) <;> rfl

/-- No list and no object is read where none may be. -/
theorem takes_bracket {c : Char} (hc : c = '[' ∨ c = '\x7b') (cs : List Char) :
    Takes (value 0) (c :: cs) none := by
  rcases hc with rfl | rfl <;> exact fun rest _ => rfl

/-- A value is taken as a whole or not at all. -/
theorem IsValue.takes {cs : List Char} (h : IsValue cs) (depth : Nat) :
    Takes (value depth) cs (given (value depth) cs) := by
  induction h generalizing depth with
  | null => exact (takes_null depth).given_self
  | boolean b => exact (takes_boolean depth b).given_self
  | numeral n =>
    obtain ⟨o, ho, -⟩ := takes_numeral depth n
    exact ho.given_self
  | text ps => exact (takes_text depth ps).given_self
  | list inside is h ih =>
    cases depth with
    | zero => exact (takes_bracket (Or.inl rfl) _).given_self
    | succ depth => exact (takes_list depth h fun i hi => ih i hi depth).given_self
  | object inside ms h ih =>
    cases depth with
    | zero => exact (takes_bracket (Or.inr rfl) _).given_self
    | succ depth => exact (takes_object depth fun m hm => ih m hm depth).given_self

section Readings

variable {depth : Nat} {cs : List Char}

theorem reads_of_given {n : Numeral} {v : Value}
    (h : given (value depth) n.text = some v) : n.Reads v := by
  obtain ⟨o, ho, hreads⟩ := takes_numeral depth n
  rw [ho.given_eq] at h
  exact hreads v h

theorem given_listText {inside : Blanks} {is : List Item} (h : ∀ i ∈ is, IsValue i.value) :
    given (value (depth + 1)) (listText inside is) =
      (is.mapM fun i => given (value depth) i.value).map .list :=
  (takes_list depth h fun i hi => (h i hi).takes depth).given_eq

/-- What a text is read as, as far as that tells what is written there. -/
inductive ReadAs : List Char → Value → Prop where
  | null : ReadAs ['n', 'u', 'l', 'l'] .null
  | boolean (b : Bool) :
    ReadAs (if b then ['t', 'r', 'u', 'e'] else ['f', 'a', 'l', 's', 'e']) (.boolean b)
  | numeral {n : Numeral} {v : Value} (h : n.Reads v) : ReadAs n.text v
  | text {ps : List Piece} {s : String} (h : string? ps = some s) :
    ReadAs (quoted ps) (.text s)
  | list (inside : Blanks) (is : List Item) (vs : List Value) :
    ReadAs (listText inside is) (.list vs)
  | object (inside : Blanks) (ms : List Member) (vs : List (String × Value)) :
    ReadAs (objectText inside ms) (.object vs)

theorem IsValue.readAs {v : Value} (h : IsValue cs) (hread : given (value depth) cs = some v) :
    ReadAs cs v := by
  cases h with
  | null =>
    rw [(takes_null depth).given_eq] at hread
    cases hread
    exact .null
  | boolean b =>
    rw [(takes_boolean depth b).given_eq] at hread
    cases hread
    exact .boolean b
  | numeral n => exact .numeral (reads_of_given hread)
  | text ps =>
    rw [(takes_text depth ps).given_eq] at hread
    obtain ⟨s, hs, rfl⟩ := Option.map_eq_some_iff.mp hread
    exact .text hs
  | list inside is h =>
    cases depth with
    | zero =>
      rw [listText, (takes_bracket (Or.inl rfl) _).given_eq] at hread
      cases hread
    | succ depth =>
      rw [given_listText h] at hread
      obtain ⟨vs, -, rfl⟩ := Option.map_eq_some_iff.mp hread
      exact .list inside is vs
  | object inside ms h =>
    cases depth with
    | zero =>
      rw [objectText, (takes_bracket (Or.inr rfl) _).given_eq] at hread
      cases hread
    | succ depth =>
      rw [(takes_object depth fun m hm => (h m hm).takes depth).given_eq] at hread
      obtain ⟨vs, -, rfl⟩ := Option.map_eq_some_iff.mp hread
      exact .object inside ms vs

/-- Only a string is read as a string. -/
theorem ReadAs.text_inv {s : String} (h : ReadAs cs (.text s)) :
    ∃ ps, cs = quoted ps ∧ string? ps = some s := by
  cases h with
  | numeral h => cases h
  | text h => exact ⟨_, rfl, h⟩

/-- Only a numeral is read as a whole number. -/
theorem ReadAs.word_inv {k : Nat} (h : ReadAs cs (.ofNat k)) :
    ∃ n : Numeral, cs = n.text ∧ n.Reads (.ofNat k) := by
  cases h with
  | numeral h => exact ⟨_, rfl, h⟩

end Readings

end Values

end Replay.Json
