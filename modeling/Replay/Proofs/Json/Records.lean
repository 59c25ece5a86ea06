import Replay.Proofs.Json.Fitting
import Replay.Message.Wire

/-!
Records and tagged messages that are read back from their texts. It is enough that the members of a
value stand in the order of the fields, each fits its own, and the fields give the value back.
-/

namespace Replay.Json

open Reader

/-- Members in the order of their fields. A field that is not required may be left out. -/
inductive InOrder (depth : Nat) : List (Slot Kind) → List (String × Value) → Prop where
  | nil : InOrder depth [] []
  | given {key : String} {required : Bool} {kind : Kind} {v : Value} {fields : List (Slot Kind)}
      {ms : List (String × Value)} (h : Fits kind depth v) (hms : InOrder depth fields ms) :
      InOrder depth (⟨key, required, kind⟩ :: fields) ((key, v) :: ms)
  | leftOut {key : String} {kind : Kind} {fields : List (Slot Kind)} {ms : List (String × Value)}
      (hms : InOrder depth fields ms) : InOrder depth (⟨key, false, kind⟩ :: fields) ms

namespace InOrder

variable {depth : Nat} {fields : List (Slot Kind)} {ms : List (String × Value)}

theorem sublist (h : InOrder depth fields ms) :
    (ms.map (·.1)).Sublist (fields.map (·.key)) := by
  induction h with
  | nil => exact .slnil
  | given _ _ ih => exact ih.cons_cons _
  | leftOut _ ih => exact ih.cons _

/-- A member that may be absent is either given or left out. -/
theorem optional {α : Type} {key : String} {kind : Kind} {write : α → Value}
    (hwrite : ∀ x, Fits kind depth (write x)) (x : Option α) (hms : InOrder depth fields ms) :
    InOrder depth (⟨key, false, .optional kind⟩ :: fields) (optionalMember key write x ++ ms) := by
  cases x with
  | none => exact .leftOut hms
  | some x => exact .given (.present (hwrite x)) hms

theorem optionalEnd {α : Type} {key : String} {kind : Kind} {write : α → Value}
    (hwrite : ∀ x, Fits kind depth (write x)) (x : Option α) :
    InOrder depth [⟨key, false, .optional kind⟩] (optionalMember key write x) := by
  rw [← List.append_nil (optionalMember key write x)]
  exact optional hwrite x .nil

theorem mem_keys (h : InOrder depth fields ms) {m : String × Value} (hm : m ∈ ms) :
    m.1 ∈ fields.map (·.key) :=
  h.sublist.mem (List.mem_map_of_mem hm)

theorem find?_isSome (h : InOrder depth fields ms) {m : String × Value} (hm : m ∈ ms) :
    (Slot.find? fields m.1).isSome = true := by
  obtain ⟨slot, hslot, hkey⟩ := List.mem_map.mp (h.mem_keys hm)
  exact List.find?_isSome.mpr ⟨slot, hslot, by simp [hkey]⟩

theorem fits_of_find? (h : InOrder depth fields ms) (hkeys : (fields.map (·.key)).Nodup)
    {m : String × Value} (hm : m ∈ ms) {slot : Slot Kind}
    (hslot : Slot.find? fields m.1 = some slot) : Fits slot.reading depth m.2 := by
  induction h with
  | nil => cases hm
  | @given key required kind v fields ms hfits hms ih =>
    rw [List.map_cons, List.nodup_cons] at hkeys
    rcases List.mem_cons.mp hm with rfl | htail
    · rw [Slot.find?, List.find?_cons_of_pos (by simp)] at hslot
      cases hslot
      exact hfits
    · have hne : key ≠ m.1 := by
        rintro rfl
        exact hkeys.1 (hms.mem_keys htail)
      rw [Slot.find?, List.find?_cons_of_neg (by simp [hne])] at hslot
      exact ih hkeys.2 htail hslot
  | @leftOut key kind fields ms hms ih =>
    rw [List.map_cons, List.nodup_cons] at hkeys
    have hne : key ≠ m.1 := by
      rintro rfl
      exact hkeys.1 (hms.mem_keys hm)
    rw [Slot.find?, List.find?_cons_of_neg (by simp [hne])] at hslot
    exact ih hkeys.2 hm hslot

theorem mem_of_required (h : InOrder depth fields ms) {slot : Slot Kind} (hslot : slot ∈ fields)
    (hrequired : slot.required = true) : ∃ m ∈ ms, m.1 = slot.key := by
  induction h with
  | nil => cases hslot
  | given _ _ ih =>
    rcases List.mem_cons.mp hslot with rfl | hslot
    · exact ⟨_, List.mem_cons_self, rfl⟩
    · obtain ⟨m, hm, hkey⟩ := ih hslot
      exact ⟨m, List.mem_cons_of_mem _ hm, hkey⟩
  | leftOut _ ih =>
    rcases List.mem_cons.mp hslot with rfl | hslot
    · cases hrequired
    · exact ih hslot

theorem missing?_eq_none (h : InOrder depth fields ms) : Slot.missing? fields ms = none := by
  rw [Slot.missing?, Option.map_eq_none_iff, List.find?_eq_none]
  intro slot hslot hmissing
  simp only [Bool.and_eq_true, Bool.not_eq_true', List.any_eq_false, beq_iff_eq] at hmissing
  obtain ⟨m, hm, hkey⟩ := h.mem_of_required hslot hmissing.1
  exact hmissing.2 m hm hkey

/-- Members in the order of their fields fit the record. -/
theorem fits (h : InOrder depth fields ms) (hkeys : (fields.map (·.key)).Nodup) (title : String) :
    Fits (.record title fields) (depth + 1) (.object ms) :=
  .record (h.sublist.nodup hkeys) (fun _ hm => h.find?_isSome hm)
    (fun _ hm _ hslot => h.fits_of_find? hkeys hm hslot) h.missing?_eq_none

end InOrder

section Contents

/-! What a field holds is what its member was written from. -/

@[simp]
theorem Value.toText_text (s : String) : (Value.text s).toText = s := rfl

@[simp]
theorem Value.toBool_boolean (b : Bool) : (Value.boolean b).toBool = b := rfl

@[simp]
theorem Value.toNat_ofNat (n : Nat) : (Value.ofNat n).toNat = n := rfl

@[simp]
theorem Value.toBinary64_number (x : Binary64) : (Value.number x).toBinary64 = x := rfl

theorem Value.toOption_of_ne {α : Type} {v : Value} (item : Value → α) (h : v ≠ .null) :
    v.toOption item = some (item v) := by
  cases v with
  | null => exact absurd rfl h
  | _ => rfl

@[simp]
theorem Value.toList_list {α : Type} (item : Value → α) (vs : List Value) :
    (Value.list vs).toList item = vs.map item := rfl

namespace Fields

variable {α : Type} {key key' : String} {write : α → Value} {item : Value → α} {fs : Fields}

@[simp]
theorem get_nil (key : String) : get [] key = .null := rfl

@[simp]
theorem get_cons_self (key : String) (v : Value) (fs : Fields) : get ((key, v) :: fs) key = v := by
  simp [get]

@[simp]
theorem get_cons_of_ne (hkey : key ≠ key') (v : Value) (fs : Fields) :
    get ((key, v) :: fs) key' = get fs key' := by
  rw [get, List.find?_cons_of_neg (by simpa using hkey)]
  rfl

@[simp]
theorem get_optional_of_ne (hkey : key ≠ key') (x : Option α) (fs : Fields) :
    get (optionalMember key write x ++ fs) key' = get fs key' := by
  cases x with
  | none => rfl
  | some x => exact get_cons_of_ne hkey _ _

@[simp]
theorem get_optionalEnd_of_ne (hkey : key ≠ key') (x : Option α) :
    get (optionalMember key write x) key' = .null := by
  rw [← List.append_nil (optionalMember key write x), get_optional_of_ne hkey, get_nil]

/-- A member that may be absent is present exactly if there is a value. -/
theorem toOption_get_optional (hnull : ∀ x, write x ≠ .null) (hitem : ∀ x, item (write x) = x)
    (hfs : get fs key = .null) (x : Option α) :
    (get (optionalMember key write x ++ fs) key).toOption item = x := by
  cases x with
  | none =>
    change (get fs key).toOption item = none
    rw [hfs]
    rfl
  | some x =>
    change (get ((key, write x) :: fs) key).toOption item = some x
    rw [get_cons_self, Value.toOption_of_ne item (hnull x), hitem]

theorem toOption_get_optionalEnd (hnull : ∀ x, write x ≠ .null) (hitem : ∀ x, item (write x) = x)
    (x : Option α) : (get (optionalMember key write x) key).toOption item = x := by
  rw [← List.append_nil (optionalMember key write x)]
  exact toOption_get_optional hnull hitem rfl x

end Fields

end Contents

section Runs

variable {α : Type} {x : α} {cs : List Char}

theorem Reader.runChecked_eq_ok {r : Reader (Except Cause α)} (h : r cs = .ok (.ok x, [])) :
    runChecked r (String.ofList cs) = .ok x := by
  rw [runChecked, String.toList_ofList, h]
  rfl

theorem Reader.run_eq_ok {r : Reader α} (h : r cs = .ok (x, [])) :
    run r (String.ofList cs) = .ok x :=
  runChecked_eq_ok (map_ok Except.ok h)

/-- A record gives a value back. -/
structure Record.Faithful (r : Record α) (x : α) : Prop where
  fits : Fits r.kind depthLimit (r.toValue x)
  back : r.ofFields (r.members x) = x

/-- What a record gives back is read back from its text. -/
theorem Record.Faithful.parse_render {r : Record α} (h : r.Faithful x) :
    r.parse (r.render x) = .ok x := by
  have hread := h.fits.reads_kind [] ends_nil
  rw [List.append_nil] at hread
  rw [Record.parse, Record.render, Value.render, run_eq_ok hread]
  change Except.ok (r.ofFields (r.members x)) = _
  rw [h.back]

/-- A tagged message gives a value back: its variant is a known one, the tag is not the key of one
of its members, and the kind of its variant and the fields fit. -/
structure Tagged.Faithful (t : Tagged α) (x : α) : Prop where
  known : t.variant x ∈ t.variants
  untagged : ∀ m ∈ t.members x, m.1 ≠ Tagged.tag
  fits : Fits (t.kind (t.variant x)) depthLimit (.object (t.members x))
  back : t.ofFields (t.variant x) (t.members x) = x

/-- A message is given back if the members of its variant stand in the order of the fields. -/
theorem Tagged.Faithful.of_inOrder {t : Tagged α} {title : String} {fields : List (Slot Kind)}
    (hknown : t.variant x ∈ t.variants) (hkind : t.kind (t.variant x) = .record title fields)
    (hkeys : (Tagged.tag :: fields.map (·.key)).Nodup)
    (horder : InOrder (depthLimit - 1) fields (t.members x))
    (hback : t.ofFields (t.variant x) (t.members x) = x) : t.Faithful x := by
  rw [List.nodup_cons] at hkeys
  refine ⟨hknown, ?_, ?_, hback⟩
  · rintro m hm hkey
    exact hkeys.1 (hkey ▸ horder.mem_keys hm)
  · rw [hkind]
    exact horder.fits hkeys.2 title

theorem Readable.of_object (depth : Nat) {ms : List (String × Value)}
    (h : Readable (depth + 1) (.object ms)) : ∀ m ∈ ms, Readable depth m.2 := by
  cases h with
  | object h => exact h

/-- What a tagged message gives back is read back from its text. -/
theorem Tagged.Faithful.parse_render {t : Tagged α} (h : t.Faithful x) :
    t.parse (t.render x) = .ok x := by
  have htagged := tagged_eq t.title h.known h.untagged
    (Readable.of_object (depthLimit - 1) h.fits.readable) []
  rw [List.append_nil] at htagged
  have hread : t.reader (t.toValue x).write = .ok (.ok x, []) := by
    rw [Tagged.reader, Tagged.toValue, bind_ok htagged]
    simp only [h.fits.ofValue_eq]
    change Except.ok (Except.ok (t.ofFields (t.variant x) (t.members x)), []) = _
    rw [h.back]
  exact runChecked_eq_ok hread

/-- A text tells the variant, whatever else is in it. -/
theorem Tagged.variant_of_render {t : Tagged α} {x y : α} (h : t.render x = t.render y) :
    t.variant x = t.variant y := by
  have hwrite : (t.toValue x).write = (t.toValue y).write := by
    have hlist := congrArg String.toList h
    simpa only [Tagged.render, Value.render, String.toList_ofList] using hlist
  -- behind the bracket and the tag comes the name of the variant
  have hname : ∀ z, (t.toValue z).write = '\x7b' :: (writeText Tagged.tag ++ [':', '"']) ++
      ((t.variant z).toList.flatMap escapeChar ++ '"' :: writeMembers (t.members z)) := by
    intro z
    simp [Tagged.toValue, Value.write, writeText]
  rw [hname x, hname y] at hwrite
  have hread := congrArg textBody (List.append_cancel_left hwrite)
  rw [textBody_writeText, textBody_writeText] at hread
  injection hread with hread
  injection hread

end Runs

end Replay.Json
