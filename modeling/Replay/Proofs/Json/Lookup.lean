import Replay.Proofs.Json.Records
import Mathlib.Data.List.Perm.Basic

/-!
Records from objects in memory, by key. A record is made from an object exactly if each of its
fields can be made from the values that the object gives under the key of the field, and the field
holds what was made (`get_of_record`, `exists_record`). So neither the order of the members nor
members without a field make a difference.
-/

namespace Replay.Json

/-- The values that members give under a key. -/
def valuesOf (key : String) (ms : List (String × Value)) : List Value :=
  (ms.filter (·.1 == key)).map (·.2)

/-- The members under all other keys. -/
def others (key : String) (ms : List (String × Value)) : List (String × Value) :=
  ms.filter (·.1 != key)

section Values

variable {key key' : String} {v : Value} {ms ms' : List (String × Value)}

@[simp]
theorem valuesOf_nil (key : String) : valuesOf key [] = [] := rfl

@[simp]
theorem valuesOf_cons_self (key : String) (v : Value) (ms : List (String × Value)) :
    valuesOf key ((key, v) :: ms) = v :: valuesOf key ms := by
  simp [valuesOf]

theorem valuesOf_cons_of_ne (h : key' ≠ key) (v : Value) (ms : List (String × Value)) :
    valuesOf key ((key', v) :: ms) = valuesOf key ms := by
  simp [valuesOf, h]

theorem others_cons_self (key : String) (v : Value) (ms : List (String × Value)) :
    others key ((key, v) :: ms) = others key ms := by
  simp [others]

theorem others_cons_of_ne (h : key' ≠ key) (v : Value) (ms : List (String × Value)) :
    others key ((key', v) :: ms) = (key', v) :: others key ms := by
  simp [others, h]

theorem valuesOf_append (key : String) (ms ms' : List (String × Value)) :
    valuesOf key (ms ++ ms') = valuesOf key ms ++ valuesOf key ms' := by
  simp [valuesOf]

theorem valuesOf_others (h : key ≠ key') (ms : List (String × Value)) :
    valuesOf key (others key' ms) = valuesOf key ms := by
  rw [valuesOf, others, List.filter_filter, valuesOf]
  congr 2
  funext m
  by_cases hm : m.1 = key
  · simp [hm, h]
  · simp [hm]

theorem mem_valuesOf : v ∈ valuesOf key ms ↔ (key, v) ∈ ms := by
  simp [valuesOf]

theorem valuesOf_eq_nil_iff : valuesOf key ms = [] ↔ ∀ m ∈ ms, m.1 ≠ key := by
  simp [valuesOf]

theorem any_eq_true_iff : (ms.any (·.1 == key)) = true ↔ valuesOf key ms ≠ [] := by
  rw [Ne, valuesOf_eq_nil_iff, List.any_eq_true]
  simp

theorem valuesOf_perm (h : ms.Perm ms') (key : String) :
    (valuesOf key ms).Perm (valuesOf key ms') :=
  (h.filter _).map _

/-- A field holds the first value under its key. -/
theorem get_eq_head (fs : Fields) (key : String) :
    fs.get key = (valuesOf key fs).head?.getD .null := by
  rw [Fields.get, valuesOf, List.head?_map, List.head?_filter]
  cases fs.find? (·.1 == key) <;> rfl

end Values

namespace Slot

/-- What a field holds if these are the values under its key: nothing if it may be left out. -/
def content (slot : Slot Check) : List Value → Option Value
  | [] => if slot.required then none else some .null
  | [v] => (slot.reading v).toOption
  | _ => none

/-- What is under a key once members give further values, as long as only one is given. -/
def gathered (slot : Slot Check) : List Value → List Value → Option (List Value)
  | [], [] => some []
  | [], [v] => (slot.reading v).toOption.map ([·])
  | vs, [] => some vs
  | _, _ => none

end Slot

section Gathering

variable {slots : List (Slot Check)} {key : String} {slot : Slot Check}
  {ms fs fs' : List (String × Value)}

/-- A key that no field has is not the key of a field. -/
theorem ne_of_find? {key' : String} (hslot : Slot.find? slots key = some slot)
    (hnone : Slot.find? slots key' = none) : key' ≠ key := by
  rintro rfl
  rw [hslot] at hnone
  cases hnone

theorem gathered_nil (slot : Slot Check) (vs : List Value) : slot.gathered vs [] = some vs := by
  cases vs <;> rfl

theorem gathered_cons_of_ne_nil {vs : List Value} (h : vs ≠ []) (v : Value) (ws : List Value) :
    slot.gathered vs (v :: ws) = none := by
  cases vs with
  | nil => exact absurd rfl h
  | cons => rfl

theorem gathered_of_error {v : Value} {cause : Cause} (h : slot.reading v = .error cause)
    (ws : List Value) : slot.gathered [] (v :: ws) = none := by
  cases ws with
  | nil =>
    rw [Slot.gathered, h]
    rfl
  | cons => rfl

theorem gathered_of_ok {v w : Value} (h : slot.reading v = .ok w) (ws : List Value) :
    slot.gathered [] (v :: ws) = slot.gathered [w] ws := by
  cases ws with
  | nil =>
    rw [Slot.gathered, h]
    rfl
  | cons => rfl

/-- A member that is taken changes nothing about what is gathered in the end. -/
theorem gathered_step {key' : String} {slot' : Slot Check} {v w : Value}
    (hslot : Slot.find? slots key = some slot) (hslot' : Slot.find? slots key' = some slot')
    (hfs : valuesOf key' fs = []) (hw : slot'.reading v = .ok w) :
    slot.gathered (valuesOf key (fs ++ [(key', w)])) (valuesOf key ms) =
      slot.gathered (valuesOf key fs) (valuesOf key ((key', v) :: ms)) := by
  rw [valuesOf_append]
  by_cases hkey : key' = key
  · subst hkey
    rw [hslot, Option.some.injEq] at hslot'
    subst hslot'
    rw [hfs, valuesOf_cons_self, valuesOf_cons_self, gathered_of_ok hw]
    rfl
  · rw [valuesOf_cons_of_ne hkey, valuesOf_cons_of_ne hkey, valuesOf_nil, List.append_nil]

/-- What is gathered from the members is what the fields hold under each key. -/
theorem gathered_of_fieldsOfMembers (h : fieldsOfMembers slots fs ms = .ok fs')
    (hslot : Slot.find? slots key = some slot) :
    slot.gathered (valuesOf key fs) (valuesOf key ms) = some (valuesOf key fs') := by
  induction ms generalizing fs with
  | nil =>
    rw [fieldsOfMembers] at h
    cases h
    exact gathered_nil slot _
  | cons m ms ih =>
    obtain ⟨key', v⟩ := m
    rw [fieldsOfMembers] at h
    split at h
    · rename_i hnone
      rw [valuesOf_cons_of_ne (ne_of_find? hslot hnone)]
      exact ih h
    · rename_i slot' hslot'
      split at h
      · cases h
      · rename_i hany
        rw [any_eq_true_iff, not_not] at hany
        cases hw : slot'.reading v with
        | error cause =>
          rw [hw] at h
          cases h
        | ok w =>
          rw [hw] at h
          rw [← gathered_step hslot hslot' hany hw]
          exact ih h

/-- The members give fields if they give each field one value at most, and one that is checked. -/
theorem exists_fieldsOfMembers
    (h : ∀ key slot, Slot.find? slots key = some slot →
      (slot.gathered (valuesOf key fs) (valuesOf key ms)).isSome = true) :
    ∃ fs', fieldsOfMembers slots fs ms = .ok fs' := by
  induction ms generalizing fs with
  | nil => exact ⟨fs, rfl⟩
  | cons m ms ih =>
    obtain ⟨key', v⟩ := m
    rw [fieldsOfMembers]
    split
    · rename_i hnone
      refine ih fun key slot hslot => ?_
      have hgathered := h key slot hslot
      rwa [valuesOf_cons_of_ne (ne_of_find? hslot hnone)] at hgathered
    · rename_i slot' hslot'
      have hgathered := h key' slot' hslot'
      rw [valuesOf_cons_self] at hgathered
      by_cases hfs : valuesOf key' fs = []
      · have hany : ¬ (fs.any (·.1 == key')) = true := by
          rw [any_eq_true_iff, not_not]
          exact hfs
        rw [if_neg hany]
        cases hw : slot'.reading v with
        | error cause =>
          rw [hfs, gathered_of_error hw] at hgathered
          cases hgathered
        | ok w =>
          refine @ih (fs ++ [(key', w)]) fun key slot hslot => ?_
          rw [gathered_step hslot hslot' hfs hw]
          exact h key slot hslot
      · rw [gathered_cons_of_ne_nil hfs] at hgathered
        cases hgathered

end Gathering

section Records

variable {title : String} {slots : List (Slot Check)} {ms : List (String × Value)} {v : Value}

theorem gathered_of_content {slot : Slot Check} {vs : List Value}
    (h : (slot.content vs).isSome = true) : (slot.gathered [] vs).isSome = true := by
  cases vs with
  | nil => rfl
  | cons v vs =>
    cases vs with
    | nil =>
      rw [Slot.gathered, Option.isSome_map]
      exact h
    | cons => cases h

theorem eq_nil_of_gathered {slot : Slot Check} {vs : List Value}
    (h : slot.gathered [] vs = some []) : vs = [] := by
  rcases vs with _ | ⟨v, _ | ⟨v', vs⟩⟩
  · rfl
  · obtain ⟨w, -, hw⟩ := Option.map_eq_some_iff.mp h
    cases hw
  · cases h

theorem mem_of_find? {key : String} {slot : Slot Check} (h : Slot.find? slots key = some slot) :
    slot ∈ slots ∧ slot.key = key :=
  ⟨List.mem_of_find?_eq_some h, by simpa using List.find?_some h⟩

/-- No required field is missing if something is given for each. -/
theorem missing?_eq_none_iff {fs : List (String × Value)} :
    Slot.missing? slots fs = none ↔
      ∀ slot ∈ slots, slot.required = true → valuesOf slot.key fs ≠ [] := by
  rw [Slot.missing?, Option.map_eq_none_iff, List.find?_eq_none]
  simp only [Bool.and_eq_true, Bool.not_eq_true', not_and, ← any_eq_true_iff,
    Bool.not_eq_false]

/-- A record from an object holds fields that its members give, none of them missing. -/
theorem recordOfValue_eq_ok_iff : recordOfValue title slots (.object ms) = .ok v ↔
    ∃ fs, fieldsOfMembers slots [] ms = .ok fs ∧ Slot.missing? slots fs = none ∧
      v = .object fs := by
  rw [recordOfValue]
  cases fieldsOfMembers slots [] ms with
  | error cause =>
    constructor
    · intro h
      cases h
    · rintro ⟨fs, h, -⟩
      cases h
  | ok fs =>
    rw [ok_bind]
    cases hmissing : Slot.missing? slots fs with
    | some key =>
      constructor
      · intro h
        cases h
      · rintro ⟨fs, ⟨⟩, h, -⟩
        rw [hmissing] at h
        cases h
    | none =>
      constructor
      · intro h
        cases h
        exact ⟨fs, rfl, hmissing, rfl⟩
      · rintro ⟨fs, ⟨⟩, -, rfl⟩
        rfl

/-- A field of a record holds what is made from the values under its key. -/
theorem get_of_recordOfValue (h : recordOfValue title slots (.object ms) = .ok v) {key : String}
    {slot : Slot Check} (hslot : Slot.find? slots key = some slot) :
    slot.content (valuesOf key ms) = some (v.toFields.get key) := by
  obtain ⟨fs, hfs, hmissing, rfl⟩ := recordOfValue_eq_ok_iff.mp h
  have hgathered := gathered_of_fieldsOfMembers hfs hslot
  obtain ⟨hmem, rfl⟩ := mem_of_find? hslot
  rw [Value.toFields, get_eq_head]
  rw [valuesOf_nil] at hgathered
  generalize valuesOf slot.key ms = vs at hgathered
  rcases vs with _ | ⟨u, _ | ⟨u', vs⟩⟩
  · injection hgathered with hnil
    have hrequired : ¬ slot.required = true := fun hrequired =>
      missing?_eq_none_iff.mp hmissing slot hmem hrequired hnil.symm
    rw [Slot.content, if_neg hrequired, ← hnil]
    rfl
  · obtain ⟨w, hw, hvalues⟩ := Option.map_eq_some_iff.mp hgathered
    rw [Slot.content, hw, ← hvalues]
    rfl
  · cases hgathered

/-- A record is made if each of its fields can be made. -/
theorem exists_recordOfValue
    (h : ∀ slot ∈ slots, (slot.content (valuesOf slot.key ms)).isSome = true) :
    ∃ v, recordOfValue title slots (.object ms) = .ok v := by
  obtain ⟨fs, hfs⟩ : ∃ fs, fieldsOfMembers slots [] ms = .ok fs := by
    refine exists_fieldsOfMembers fun key slot hslot => ?_
    obtain ⟨hmem, rfl⟩ := mem_of_find? hslot
    exact gathered_of_content (h slot hmem)
  refine ⟨.object fs, recordOfValue_eq_ok_iff.mpr ⟨fs, hfs, ?_, rfl⟩⟩
  refine missing?_eq_none_iff.mpr fun slot hmem hrequired hnil => ?_
  obtain ⟨slot', hslot'⟩ : ∃ slot', Slot.find? slots slot.key = some slot' :=
    Option.isSome_iff_exists.mp (List.find?_isSome.mpr ⟨slot, hmem, beq_self_eq_true slot.key⟩)
  have hgathered := gathered_of_fieldsOfMembers hfs hslot'
  rw [hnil, valuesOf_nil] at hgathered
  have hcontent := h slot hmem
  rw [eq_nil_of_gathered hgathered, Slot.content, if_pos hrequired] at hcontent
  cases hcontent

end Records

section Kinds

variable {title : String} {fields : List (Slot Kind)} {ms : List (String × Value)} {v : Value}

/-- What a field of some kind holds if these are the values under its key. -/
def Slot.held (slot : Slot Kind) (vs : List Value) : Option Value :=
  (slot.map Kind.ofValue).content vs

/-- A field of a record holds what is made of the values under its key. -/
theorem get_of_record (h : (Kind.record title fields).ofValue (.object ms) = .ok v) {key : String}
    {slot : Slot Kind} (hslot : Slot.find? fields key = some slot) :
    slot.held (valuesOf key ms) = some (v.toFields.get key) := by
  refine get_of_recordOfValue h ?_
  rw [checks_eq_map, Slot.find?_map, hslot]
  rfl

/-- An object is a record if each field can be made of the values under its key. -/
theorem exists_record (title : String)
    (h : ∀ slot ∈ fields, (slot.held (valuesOf slot.key ms)).isSome = true) :
    ∃ v, (Kind.record title fields).ofValue (.object ms) = .ok v := by
  refine exists_recordOfValue fun slot hslot => ?_
  rw [checks_eq_map] at hslot
  obtain ⟨slot, hmem, rfl⟩ := List.mem_map.mp hslot
  exact h slot hmem

end Kinds

section Fields

variable {α : Type} {k : Kind} {item : Value → α} {R : Value → α → Prop}
  {vs : List Value}

/-- The values under a key give a field its content. -/
def Slot.Gives (slot : Slot Kind) (item : Value → α) (vs : List Value) (x : α) : Prop :=
  ∃ w, slot.held vs = some w ∧ item w = x

/-- What is written for something that may be absent: nothing, `null`, or the thing itself. -/
inductive Maybe (R : Value → α → Prop) : List Value → Option α → Prop where
  | missing : Maybe R [] none
  | null : Maybe R [.null] none
  | given {v : Value} {x : α} (h : R v x) : Maybe R [v] (some x)

theorem Maybe.of_perm {vs' : List Value} {x : Option α} (h : Maybe R vs x) (hperm : vs.Perm vs') :
    Maybe R vs' x := by
  cases h with
  | missing =>
    obtain rfl := hperm.nil_eq
    exact .missing
  | null =>
    obtain rfl := List.singleton_perm.mp hperm
    exact .null
  | given h =>
    obtain rfl := List.singleton_perm.mp hperm
    exact .given h

/-- The values of a kind are those that stand for something, and none of them is `null`. -/
structure Represents (k : Kind) (item : Value → α) (R : Value → α → Prop) : Prop where
  refuses_null (w : Value) : k.ofValue .null ≠ .ok w
  sound {v w : Value} (h : k.ofValue v = .ok w) : w ≠ .null ∧ R v (item w)
  complete {v : Value} {x : α} (h : R v x) : ∃ w, k.ofValue v = .ok w ∧ item w = x

theorem toOption_eq_some_iff {β ε : Type} {x : Except ε β} {y : β} :
    x.toOption = some y ↔ x = .ok y := by
  cases x <;> simp [Except.toOption]

theorem optional_ofValue_of_ne {v : Value} (hv : v ≠ .null) :
    (Kind.optional k).ofValue v = k.ofValue v := by
  cases v with
  | null => exact absurd rfl hv
  | _ => rfl

theorem gives_optional (key : String) (h : Represents k item R) {x : Option α} :
    Slot.Gives ⟨key, false, .optional k⟩ (Value.toOption item) vs x ↔ Maybe R vs x := by
  constructor
  · rintro ⟨w, hw, rfl⟩
    rcases vs with _ | ⟨v, _ | ⟨v', vs⟩⟩
    · cases hw
      exact .missing
    · have hread : (Kind.optional k).ofValue v = .ok w := toOption_eq_some_iff.mp hw
      by_cases hv : v = .null
      · subst hv
        cases hread
        exact .null
      · rw [optional_ofValue_of_ne hv] at hread
        obtain ⟨hne, hR⟩ := h.sound hread
        rw [Value.toOption_of_ne item hne]
        exact .given hR
    · cases hw
  · rintro (_ | _ | hR)
    · exact ⟨.null, rfl, rfl⟩
    · exact ⟨.null, rfl, rfl⟩
    · rename_i v x
      obtain ⟨w, hw, rfl⟩ := h.complete hR
      have hv : v ≠ .null := by
        rintro rfl
        exact h.refuses_null w hw
      refine ⟨w, toOption_eq_some_iff.mpr ((optional_ofValue_of_ne hv).trans hw), ?_⟩
      exact Value.toOption_of_ne item (h.sound hw).1

end Fields

end Replay.Json
