import Replay.Config.Substitution

/-!
Which references of a text are replaced. A text has one cut into references and what stands between
them where each reference is the leftmost one behind the reference before it, and that cut says
what becomes of the text. Main statement: `leftmost_references_filled`.
-/

namespace Replay.Config

namespace Reference

/-- What a name and a default may be. -/
structure WellFormed (r : Reference) : Prop where
  name_ne_nil : r.name ≠ []
  name_chars : ∀ c ∈ r.name, c ≠ '\x7d' ∧ c ≠ ':'
  default_chars : ∀ d ∈ r.default, ∀ c ∈ d, c ≠ '\x7d'

theorem inName_iff {c : Char} : inName c = true ↔ c ≠ '\x7d' ∧ c ≠ ':' := by
  simp [inName]

theorem inDefault_iff {c : Char} : inDefault c = true ↔ c ≠ '\x7d' := by
  simp [inDefault]

section Span

variable {p : Char → Bool} {cs rest : List Char} {stop : Char}

/-- Characters of a class before one that is not of it. -/
theorem takeWhile_stop (hcs : ∀ c ∈ cs, p c = true) (hstop : p stop = false) :
    (cs ++ stop :: rest).takeWhile p = cs := by
  rw [List.takeWhile_append_of_pos hcs, List.takeWhile_cons_of_neg (by simp [hstop]),
    List.append_nil]

theorem dropWhile_stop (hcs : ∀ c ∈ cs, p c = true) (hstop : p stop = false) :
    (cs ++ stop :: rest).dropWhile p = stop :: rest := by
  rw [List.dropWhile_append_of_pos hcs, List.dropWhile_cons_of_neg (by simp [hstop])]

end Span

variable {cs rest : List Char} {r : Reference}

theorem wellFormed_of_takeEnd? {name : List Char} (hne : name ≠ [])
    (hname : ∀ c ∈ name, inName c = true) (h : takeEnd? name cs = some (r, rest)) :
    r.WellFormed := by
  have hchars : ∀ c ∈ name, c ≠ '\x7d' ∧ c ≠ ':' := fun c hc => inName_iff.mp (hname c hc)
  unfold takeEnd? at h
  split at h
  · cases h
    exact ⟨hne, hchars, nofun⟩
  · rename_i cs
    split at h
    · cases h
    · cases h
      refine ⟨hne, hchars, ?_⟩
      rintro d ⟨⟩ c hc
      exact inDefault_iff.mp (List.all_eq_true.mp List.all_takeWhile c hc)
  · cases h

/-- The text of a reference is taken off as that reference, whatever follows. -/
theorem take?_text (hr : r.WellFormed) (rest : List Char) :
    take? (r.text ++ rest) = some (r, rest) := by
  obtain ⟨name, default⟩ := r
  obtain ⟨hne, hname, hdefault⟩ := hr
  have hin : ∀ c ∈ name, inName c = true := fun c hc => inName_iff.mpr (hname c hc)
  cases default with
  | none =>
    have hsplit : text ⟨name, none⟩ ++ rest = '$' :: '\x7b' :: (name ++ '\x7d' :: rest) := by
      simp [text]
    rw [hsplit, take?, takeWhile_stop hin rfl, dropWhile_stop hin rfl, if_neg hne]
    rfl
  | some d =>
    have hd : ∀ c ∈ d, inDefault c = true := fun c hc => inDefault_iff.mpr (hdefault d rfl c hc)
    have hsplit : text ⟨name, some d⟩ ++ rest =
        '$' :: '\x7b' :: (name ++ ':' :: '-' :: (d ++ '\x7d' :: rest)) := by
      simp [text]
    rw [hsplit, take?, takeWhile_stop hin rfl, dropWhile_stop hin rfl, if_neg hne, takeEnd?,
      dropWhile_stop hd rfl, takeWhile_stop hd rfl]

theorem take?_eq_some_iff : take? cs = some (r, rest) ↔ r.WellFormed ∧ cs = r.text ++ rest := by
  constructor
  · intro h
    refine ⟨?_, eq_text_append_of_take? h⟩
    unfold take? at h
    split at h
    · rename_i cs
      split at h
      · cases h
      · rename_i hne
        exact wellFormed_of_takeEnd? hne (List.all_eq_true.mp List.all_takeWhile) h
    · cases h
  · rintro ⟨hr, rfl⟩
    exact take?_text hr rest

/-- A reference stands at the front of a text. -/
def Begins (cs : List Char) : Prop := ∃ r rest, WellFormed r ∧ cs = r.text ++ rest

theorem take?_eq_none_iff : take? cs = none ↔ ¬ Begins cs := by
  constructor
  · rintro h ⟨r, rest, hr, rfl⟩
    rw [take?_text hr rest] at h
    cases h
  · intro h
    rw [Option.eq_none_iff_forall_ne_some]
    rintro ⟨r, rest⟩ htake
    exact h ⟨r, rest, take?_eq_some_iff.mp htake⟩

/-- A text begins with one reference at most. -/
theorem text_append_inj {r' : Reference} {rest' : List Char} (hr : r.WellFormed)
    (hr' : r'.WellFormed) (h : r.text ++ rest = r'.text ++ rest') : r = r' ∧ rest = rest' := by
  have htake := take?_text hr' rest'
  rw [← h, take?_text hr rest, Option.some.injEq, Prod.mk.injEq] at htake
  exact htake

/-- The value of the variable goes before the default, and the default before the reference
itself. -/
theorem value_eq (lookup : String → Option String) (r : Reference) : r.value lookup =
    ((lookup (String.ofList r.name)).map String.toList).getD (r.default.getD r.text) := by
  unfold value
  split
  · rename_i v _ hv
    simp [hv]
  · rename_i d hv hd
    simp [hv, hd]
  · rename_i hv hd
    simp [hv, hd]

end Reference

open Reference (Begins)

/-- References, each behind what stands before it, and what stands behind the last. -/
structure Cut where
  parts : List (List Char × Reference)
  last : List Char

namespace Cut

/-- The text that is cut. -/
def text (c : Cut) : List Char :=
  c.parts.flatMap (fun (plain, r) => plain ++ r.text) ++ c.last

/-- The text with each reference replaced: by the value of its variable, if that is set, else by
its default, if it has one. Everything else stays. -/
def filled (lookup : String → Option String) (c : Cut) : List Char :=
  c.parts.flatMap (fun (plain, r) => plain ++
    ((lookup (String.ofList r.name)).map String.toList).getD (r.default.getD r.text)) ++ c.last

/-- Each reference begins at the leftmost place behind the one before where any reference begins,
and none begins behind the last. -/
inductive Leftmost : Cut → Prop where
  | last {last : List Char} (hlast : ∀ k, ¬ Begins (last.drop k)) : Leftmost ⟨[], last⟩
  | next {plain : List Char} {r : Reference} {parts : List (List Char × Reference)}
      {last : List Char} (hr : r.WellFormed)
      (hplain : ∀ k < plain.length, ¬ Begins ((text ⟨(plain, r) :: parts, last⟩).drop k))
      (hmore : Leftmost ⟨parts, last⟩) : Leftmost ⟨(plain, r) :: parts, last⟩

variable {lookup : String → Option String}

theorem text_cons (plain : List Char) (r : Reference) (parts : List (List Char × Reference))
    (last : List Char) :
    text ⟨(plain, r) :: parts, last⟩ = plain ++ (r.text ++ text ⟨parts, last⟩) := by
  simp [text]

theorem filled_cons (plain : List Char) (r : Reference) (parts : List (List Char × Reference))
    (last : List Char) : filled lookup ⟨(plain, r) :: parts, last⟩ =
      plain ++ (r.value lookup ++ filled lookup ⟨parts, last⟩) := by
  simp [filled, Reference.value_eq]

/-- The same cut behind one more character. -/
def behind (c : Char) : Cut → Cut
  | ⟨[], last⟩ => ⟨[], c :: last⟩
  | ⟨(plain, r) :: parts, last⟩ => ⟨(c :: plain, r) :: parts, last⟩

theorem text_behind (c : Char) (cut : Cut) : (cut.behind c).text = c :: cut.text := by
  obtain ⟨_ | ⟨⟨plain, r⟩, parts⟩, last⟩ := cut
  · rfl
  · rfl

theorem filled_behind (c : Char) (cut : Cut) :
    (cut.behind c).filled lookup = c :: cut.filled lookup := by
  obtain ⟨_ | ⟨⟨plain, r⟩, parts⟩, last⟩ := cut
  · rfl
  · rfl

theorem leftmost_behind {c : Char} {cut : Cut} (hnone : ¬ Begins (c :: cut.text))
    (hcut : cut.Leftmost) : (cut.behind c).Leftmost := by
  cases hcut with
  | last hlast =>
    refine .last fun k => ?_
    cases k with
    | zero => exact hnone
    | succ k => exact hlast k
  | next hr hplain hmore =>
    refine .next hr (fun k hk => ?_) hmore
    cases k with
    | zero => exact hnone
    | succ k => exact hplain k (Nat.lt_of_succ_lt_succ hk)

theorem substitute_of_take? {text rest : List Char} {r : Reference}
    (h : Reference.take? text = some (r, rest)) :
    substitute lookup text = r.value lookup ++ substitute lookup rest := by
  rw [substitute]
  split
  · rename_i htake
    cases htake.symm.trans h
    rfl
  · rename_i htake
    cases htake.symm.trans h

theorem substitute_of_take?_eq_none {c : Char} {cs : List Char}
    (h : Reference.take? (c :: cs) = none) :
    substitute lookup (c :: cs) = c :: substitute lookup cs := by
  rw [substitute]
  split
  · rename_i htake
    cases htake.symm.trans h
  · rfl

/-- The pass over a text finds its leftmost references. -/
theorem exists_leftmost (cs : List Char) : ∃ cut : Cut, cut.text = cs ∧ cut.Leftmost ∧
    ∀ lookup, substitute lookup cs = cut.filled lookup := by
  cases htake : Reference.take? cs with
  | some found =>
    obtain ⟨r, rest⟩ := found
    have := Reference.length_rest_lt htake
    obtain ⟨hr, htext⟩ := Reference.take?_eq_some_iff.mp htake
    obtain ⟨⟨parts, last⟩, hrest, hleft, hfilled⟩ := exists_leftmost rest
    refine ⟨⟨([], r) :: parts, last⟩, ?_, .next hr nofun hleft, fun lookup => ?_⟩
    · rw [text_cons, hrest, htext, List.nil_append]
    · rw [filled_cons, substitute_of_take? htake, hfilled lookup, List.nil_append]
  | none =>
    cases cs with
    | nil =>
      refine ⟨⟨[], []⟩, rfl, .last fun k => ?_, fun lookup => ?_⟩
      · rw [List.drop_nil]
        exact Reference.take?_eq_none_iff.mp htake
      · rw [substitute]
        rfl
    | cons c cs =>
      obtain ⟨cut, hcut, hleft, hfilled⟩ := exists_leftmost cs
      have hnone := Reference.take?_eq_none_iff.mp htake
      rw [← hcut] at hnone
      refine ⟨cut.behind c, ?_, leftmost_behind hnone hleft, fun lookup => ?_⟩
      · rw [text_behind, hcut]
      · rw [filled_behind, substitute_of_take?_eq_none htake, hfilled lookup]
termination_by cs.length

theorem begins_drop {plain : List Char} {r : Reference} {parts : List (List Char × Reference)}
    {last : List Char} (hr : r.WellFormed) :
    Begins ((text ⟨(plain, r) :: parts, last⟩).drop plain.length) := by
  refine ⟨r, text ⟨parts, last⟩, hr, ?_⟩
  rw [text_cons, List.drop_left]

/-- A text has no second cut of this kind. -/
theorem Leftmost.unique {cut other : Cut} (h : cut.Leftmost) (h' : other.Leftmost)
    (htext : cut.text = other.text) : cut = other := by
  induction h generalizing other with
  | last hlast =>
    cases h' with
    | last hlast' => exact congrArg (Cut.mk []) htext
    | @next plain _ _ _ hr _ _ =>
      refine absurd ?_ (hlast plain.length)
      change Begins ((text ⟨[], _⟩).drop _)
      rw [htext]
      exact begins_drop hr
  | @next plain r parts last hr hplain hmore ih =>
    cases h' with
    | last hlast' =>
      refine absurd ?_ (hlast' plain.length)
      change Begins ((text ⟨[], _⟩).drop _)
      rw [← htext]
      exact begins_drop hr
    | @next plain' r' parts' last' hr' hplain' hmore' =>
      -- a shorter stretch would end where a reference begins inside the longer one
      have hlength : plain.length = plain'.length := by
        apply Nat.le_antisymm
        · refine Nat.le_of_not_lt fun hlt => hplain _ hlt ?_
          rw [htext]
          exact begins_drop hr'
        · refine Nat.le_of_not_lt fun hlt => hplain' _ hlt ?_
          rw [← htext]
          exact begins_drop hr
      rw [text_cons, text_cons] at htext
      obtain ⟨rfl, hbehind⟩ := List.append_inj htext hlength
      obtain ⟨rfl, hrest⟩ := Reference.text_append_inj hr hr' hbehind
      obtain ⟨rfl, rfl⟩ := Cut.mk.inj (ih hmore' hrest)
      rfl

end Cut

/-- Whatever a text is, and however its variables are looked up: it has exactly one cut into
references and what stands between them in which each reference is the leftmost one behind the
reference before it. In the result each of these references is replaced, by the value if the
variable is set, even to an empty text, else by the default if there is one, and nothing else
changes; so what is put in is not read again. -/
theorem leftmost_references_filled (text : List Char) : ∃ cut : Cut,
    cut.text = text ∧ cut.Leftmost ∧
    (∀ other : Cut, other.text = text → other.Leftmost → other = cut) ∧
    ∀ lookup : String → Option String, substitute lookup text = cut.filled lookup := by
  obtain ⟨cut, htext, hleft, hfilled⟩ := Cut.exists_leftmost text
  refine ⟨cut, htext, hleft, fun other hother hleft' => ?_, hfilled⟩
  exact hleft'.unique hleft (hother.trans htext.symm)

/-- A name may hold the beginning of another reference, and a failed one hides none behind it. -/
example : substitute (fun name => if name = "B" then some "$\x7bB\x7d" else none)
    "$\x7bA$\x7bB\x7d$\x7bA:$\x7bB\x7d$\x7bC:-$\x7bB\x7d\x7d$\x7bB".toList =
    "$\x7bA$\x7bB\x7d$\x7bA:$\x7bB\x7d$\x7bB\x7d$\x7bB".toList := by decide +kernel

end Replay.Config
