import Replay.Proofs.Message.Decoding

/-!
Which members of a viewer's message matter. The order of the members does not, nor do members that
the variant has no field for; what may be absent may as well be `null`. Main statement:
`decoded_by_members`.
-/

namespace Replay

open Json (Entry Item Maybe Numeral ObjectText Piece Value depthLimit readAll valuesOf)

namespace Json

section Entries

/-- An entry under the key. -/
def Entry.Has (e : Entry) (key : String) : Prop := string? e.key = some key

instance (e : Entry) (key : String) : Decidable (e.Has key) :=
  inferInstanceAs (Decidable (string? e.key = some key))

/-- An entry under the key whose value is the string. -/
def Entry.Spells (e : Entry) (key s : String) : Prop :=
  e.Has key ∧ ∃ ps, e.value = quoted ps ∧ string? ps = some s

def Entry.IsNull (e : Entry) (key : String) : Prop := e.Has key ∧ e.value = ['n', 'u', 'l', 'l']

/-- A list of these items. -/
def IsListOf (cs : List Char) (is : List Item) : Prop :=
  (∃ inside, cs = listText inside is) ∧ ∀ i ∈ is, IsValue i.value

/-- A numeral that is a word below the bound. -/
def IsBelow (bound : Nat) (cs : List Char) : Prop := ∃ n : Numeral, cs = n.text ∧ n.Below bound

/-- No entry is under the key. -/
def ObjectText.Lacks (x : ObjectText) (key : String) : Prop := ∀ e ∈ x.entries, ¬ e.Has key

/-- What is under the key, if anything, is `null`. -/
def ObjectText.Absent (x : ObjectText) (key : String) : Prop :=
  ∀ e ∈ x.entries, e.Has key → e.IsNull key

variable {x : ObjectText} {read : List (String × Value)} {key : String} {v : Value}

theorem ObjectText.isValue_of_mem {e : Entry} (he : e ∈ x.entries) : IsValue e.value := by
  obtain ⟨m, hm, rfl⟩ := List.mem_map.mp he
  exact x.isValue m hm

/-- A value that was read was written under its key. -/
theorem exists_entry {depth : Nat} {es : List Entry} (hread : readAll depth es = some read)
    (hv : v ∈ valuesOf key read) :
    ∃ e ∈ es, e.Has key ∧ given (Reader.value depth) e.value = some v := by
  obtain ⟨e, he, hmem⟩ := (mem_readAll hread).mp (mem_valuesOf.mp hv)
  exact ⟨e, he, read?_eq_some_iff.mp hmem⟩

theorem valuesOf_eq_nil {depth : Nat} {es : List Entry} (hread : readAll depth es = some read)
    (hlacks : ∀ e ∈ es, ¬ e.Has key) : valuesOf key read = [] := by
  refine List.eq_nil_iff_forall_not_mem.mpr fun v hv => ?_
  obtain ⟨e, he, hkey, -⟩ := exists_entry hread hv
  exact hlacks e he hkey

/-- What was written under a key was read as one of its values. -/
theorem exists_value {depth : Nat} {es : List Entry} (hread : readAll depth es = some read)
    {e : Entry} (he : e ∈ es) (hkey : e.Has key) :
    ∃ v ∈ valuesOf key read, given (Reader.value depth) e.value = some v := by
  obtain ⟨⟨key', v⟩, hmem, hm⟩ := exists_mem_of_mapM hread he
  obtain ⟨hkey', hv⟩ := read?_eq_some_iff.mp hm
  obtain rfl : key' = key := Option.some.inj (hkey'.symm.trans hkey)
  exact ⟨v, mem_valuesOf.mpr hmem, hv⟩

end Entries

end Json

namespace ClientMessage

/-- The keys that the fields of a variant have. -/
def fieldKeys (op : String) : List String :=
  if op = "subscribe" ∨ op = "unsubscribe" then ["channelIds"]
  else if op = "playbackControlRequest" then Request.keys
  else []

/-- A message is decoded exactly if the entries of its text are read and give one. -/
theorem parse_eq_ok_iff {x : ObjectText} {m : ClientMessage} :
    wire.parse x.text = .ok m ↔ ∃ read, x.readAll = some read ∧ From read m := by
  rw [Json.Tagged.parse_objectText]
  simp only [said_iff]

/-- Only the values under the tag and under the keys of the fields matter. -/
theorem From.of_perm {ms ms' : List (String × Value)} {m : ClientMessage} (h : From ms m)
    (hkeys : ∀ op, valuesOf "op" ms = [.text op] → ∀ key ∈ "op" :: fieldKeys op,
      (valuesOf key ms).Perm (valuesOf key ms')) : From ms' m := by
  have hsame : ∀ {op key v}, valuesOf "op" ms = [.text op] → key ∈ "op" :: fieldKeys op →
      valuesOf key ms = [v] → valuesOf key ms' = [v] := by
    intro op key v hop hkey hv
    have hperm := hkeys op hop key hkey
    rw [hv] at hperm
    exact (List.singleton_perm.mp hperm).symm
  cases h with
  | subscribe hop hids =>
    exact .subscribe (hsame hop (by simp) hop) (hsame hop (by simp [fieldKeys]) hids)
  | unsubscribe hop hids =>
    exact .unsubscribe (hsame hop (by simp) hop) (hsame hop (by simp [fieldKeys]) hids)
  | control hop hr =>
    refine .control (hsame hop (by simp) hop) (hr.of_perm fun key hkey => ?_)
    exact hkeys _ hop key (List.mem_cons_of_mem _ hkey)

theorem From.perm {ms ms' : List (String × Value)} {m : ClientMessage} (h : From ms m)
    (hperm : ms.Perm ms') : From ms' m :=
  h.of_perm fun _ _ key _ => Json.valuesOf_perm hperm key

/-- An entry that the reader accepts and that the variant named by the others has no field for. -/
def Extra (common : List Entry) (e : Entry) : Prop :=
  ∃ key v, e.read? (Json.Reader.value (depthLimit - 1)) = some (key, v) ∧ key ≠ "op" ∧
    ∀ c ∈ common, ∀ op, c.Spells "op" op → key ∉ fieldKeys op

section Extras

variable {x y : ObjectText} {common removed added : List Entry} {m : ClientMessage}

/-- What names the variant was written as that name. -/
theorem exists_spells {depth : Nat} {es : List Entry} {read : List (String × Value)}
    (hes : ∀ e ∈ es, Json.IsValue e.value) (hread : readAll depth es = some read) {key s : String}
    (hs : .text s ∈ valuesOf key read) : ∃ e ∈ es, e.Spells key s := by
  obtain ⟨e, he, hkey, hgiven⟩ := Json.exists_entry hread hs
  exact ⟨e, he, hkey, ((hes e he).readAs hgiven).text_inv⟩

/-- Entries that are extra beside others give no values under a key that matters. -/
theorem valuesOf_extra {es : List Entry} {read : List (String × Value)} {key : String}
    (hread : readAll (depthLimit - 1) es = some read) (hextra : ∀ e ∈ es, Extra common e)
    (hkey : key = "op" ∨ ∃ c ∈ common, ∃ op, c.Spells "op" op ∧ key ∈ fieldKeys op) :
    valuesOf key read = [] := by
  rw [Json.valuesOf_eq_nil_iff]
  rintro ⟨key, v⟩ hm rfl
  obtain ⟨e, he, hread⟩ := (Json.mem_readAll hread).mp hm
  obtain ⟨key', v', hv, hne, hfields⟩ := hextra e he
  rw [hread] at hv
  cases hv
  rcases hkey with rfl | ⟨c, hc, op, hop, hkey⟩
  · exact hne rfl
  · exact hfields c hc op hop hkey

/-- Other extra entries in another order say the same message. -/
theorem parse_of_extras (hx : x.entries.Perm (common ++ removed))
    (hy : y.entries.Perm (common ++ added)) (hextra : ∀ e ∈ removed ++ added, Extra common e)
    (h : wire.parse x.text = .ok m) : wire.parse y.text = .ok m := by
  obtain ⟨read, hread, hfrom⟩ := parse_eq_ok_iff.mp h
  obtain ⟨all, hall, hperm⟩ := Json.readAll_perm hx hread
  obtain ⟨kept, gone, hkept, hgone, rfl⟩ := Json.readAll_append.mp hall
  obtain ⟨new, hnew⟩ : ∃ new, readAll (depthLimit - 1) added = some new := by
    refine Json.exists_readAll fun e he => ?_
    obtain ⟨key, v, hv, -⟩ := hextra e (List.mem_append_right removed he)
    exact ⟨(key, v), hv⟩
  obtain ⟨read', hread', hperm'⟩ := Json.readAll_perm hy.symm
    (Json.readAll_append.mpr ⟨kept, new, hkept, hnew, rfl⟩)
  refine parse_eq_ok_iff.mpr ⟨read', hread', hfrom.of_perm fun op hop key hkey => ?_⟩
  obtain ⟨hremoved, hadded⟩ := List.forall_mem_append.mp hextra
  have hkept : ∀ key, valuesOf key gone = [] →
      (valuesOf key read).Perm (valuesOf key kept) := by
    intro key hnone
    have hvalues := Json.valuesOf_perm hperm key
    rwa [Json.valuesOf_append, hnone, List.append_nil] at hvalues
  obtain ⟨c, hc, hspells⟩ : ∃ c ∈ common, c.Spells "op" op := by
    refine exists_spells (fun c hc => ?_) ‹_› ?_
    · exact x.isValue_of_mem (hx.mem_iff.mpr (List.mem_append_left removed hc))
    · have hperm := hkept "op" (valuesOf_extra hgone hremoved (Or.inl rfl))
      exact hperm.mem_iff.mp (hop ▸ List.mem_singleton_self _)
  have hmatters : key = "op" ∨ ∃ c ∈ common, ∃ op, c.Spells "op" op ∧ key ∈ fieldKeys op :=
    (List.mem_cons.mp hkey).imp id fun hkey => ⟨c, hc, op, hspells, hkey⟩
  refine (hkept key (valuesOf_extra hgone hremoved hmatters)).trans ?_
  have hvalues := Json.valuesOf_perm hperm' key
  rw [Json.valuesOf_append, valuesOf_extra hnew hadded hmatters, List.append_nil] at hvalues
  exact hvalues

/-- Members in another order, and with other extra ones, are decoded alike. -/
theorem parse_extras (hx : x.entries.Perm (common ++ removed))
    (hy : y.entries.Perm (common ++ added)) (hextra : ∀ e ∈ removed ++ added, Extra common e) :
    (wire.parse x.text).toOption = (wire.parse y.text).toOption := by
  refine Option.ext fun m => ?_
  rw [Json.toOption_eq_some_iff, Json.toOption_eq_some_iff]
  refine ⟨parse_of_extras hx hy hextra, parse_of_extras hy hx fun e he => ?_⟩
  exact hextra e (List.mem_append.mpr (List.mem_append.mp he).symm)

end Extras

section Absence

variable {x y : ObjectText} {common : List Entry} {e : Entry} {m : ClientMessage}
  {ms : List (String × Value)} {key : String}

/-- The keys of the fields that may be `null`. -/
def optionalKeys : List String := ["playbackCommand", "seekTime", "requestId"]

/-- Nothing is given by `null`. -/
theorem maybe_null_cons {α : Type} {R : Value → α → Prop} (hR : ∀ a, ¬ R .null a)
    (hnone : valuesOf key ms = []) (key' : String) {a : Option α} :
    Maybe R (valuesOf key' ((key, .null) :: ms)) a ↔ Maybe R (valuesOf key' ms) a := by
  by_cases hkey : key = key'
  · subst hkey
    rw [Json.valuesOf_cons_self, hnone]
    constructor
    · rintro (_ | _ | h)
      · exact .missing
      · exact absurd h (hR _)
    · rintro ⟨⟩
      exact .null
  · rw [Json.valuesOf_cons_of_ne hkey]

theorem request_from_null_iff {r : Request} (hkey : key ∈ optionalKeys)
    (hnone : valuesOf key ms = []) :
    Request.From ((key, .null) :: ms) r ↔ Request.From ms r := by
  have hspeed : key ≠ "playbackSpeed" := by
    rintro rfl
    simp [optionalKeys] at hkey
  have hcommand : ∀ c, ¬ Command.Given .null c := nofun
  rw [Request.from_iff, Request.from_iff, maybe_null_cons hcommand hnone,
    Json.valuesOf_cons_of_ne hspeed,
    maybe_null_cons (R := fun v (t : Nanos) => v = .ofNat t.toNat) nofun hnone,
    maybe_null_cons (R := fun v s => v = .text s) nofun hnone]

/-- A field that may be absent is as well `null`. -/
theorem from_null_iff (hkey : key ∈ optionalKeys) (hnone : valuesOf key ms = []) :
    From ((key, .null) :: ms) m ↔ From ms m := by
  have hop : valuesOf "op" ((key, .null) :: ms) = valuesOf "op" ms := by
    refine Json.valuesOf_cons_of_ne ?_ _ _
    rintro rfl
    simp [optionalKeys] at hkey
  have hids : valuesOf "channelIds" ((key, .null) :: ms) = valuesOf "channelIds" ms := by
    refine Json.valuesOf_cons_of_ne ?_ _ _
    rintro rfl
    simp [optionalKeys] at hkey
  simp only [from_iff, hop, hids, request_from_null_iff hkey hnone]

/-- An entry that is `null` may be left out, and the other way round. -/
theorem parse_null (hx : x.entries.Perm (e :: common)) (hy : y.entries.Perm common)
    (hkey : key ∈ optionalKeys) (hnull : e.IsNull key) (hcommon : ∀ c ∈ common, ¬ c.Has key) :
    (wire.parse x.text).toOption = (wire.parse y.text).toOption := by
  refine Option.ext fun m => ?_
  rw [Json.toOption_eq_some_iff, Json.toOption_eq_some_iff, parse_eq_ok_iff, parse_eq_ok_iff]
  have hread : e.read? (Json.Reader.value (depthLimit - 1)) = some (key, .null) := by
    refine Json.read?_eq_some_iff.mpr ⟨hnull.1, ?_⟩
    rw [hnull.2]
    exact (Json.takes_null _).given_eq
  have hnone : ∀ {ms}, readAll (depthLimit - 1) common = some ms → valuesOf key ms = [] :=
    fun hms => Json.valuesOf_eq_nil hms hcommon
  constructor
  · rintro ⟨read, hall, hfrom⟩
    obtain ⟨all, hall, hperm⟩ := Json.readAll_perm hx hall
    obtain ⟨m', ms, hm', hms, rfl⟩ := Json.readAll_cons_eq_some_iff.mp hall
    obtain rfl := Option.some.inj (hread.symm.trans hm')
    obtain ⟨read', hread', hperm'⟩ := Json.readAll_perm hy.symm hms
    exact ⟨read', hread', ((from_null_iff hkey (hnone hms)).mp (hfrom.perm hperm)).perm hperm'⟩
  · rintro ⟨read, hall, hfrom⟩
    obtain ⟨ms, hms, hperm⟩ := Json.readAll_perm hy hall
    obtain ⟨read', hread', hperm'⟩ := Json.readAll_perm hx.symm
      (Json.readAll_cons_eq_some_iff.mpr ⟨_, ms, hread, hms, rfl⟩)
    exact ⟨read', hread', ((from_null_iff hkey (hnone hms)).mpr (hfrom.perm hperm)).perm hperm'⟩

theorem eq_none_of_maybe {α : Type} {R : Value → α → Prop} (hR : ∀ a, ¬ R .null a)
    {read : List (String × Value)} (hread : x.readAll = some read) (habsent : x.Absent key)
    {a : Option α} (h : Maybe R (valuesOf key read) a) : a = none := by
  generalize hvs : valuesOf key read = vs at h
  cases h with
  | missing => rfl
  | null => rfl
  | @given v a h =>
    have hv : v ∈ valuesOf key read := hvs ▸ List.mem_singleton_self v
    obtain ⟨e, he, hkey, hgiven⟩ := Json.exists_entry hread hv
    rw [(habsent e he hkey).2, (Json.takes_null _).given_eq] at hgiven
    cases hgiven
    exact absurd h (hR a)

/-- A request without something reads as one that does not ask for it, and without a speed as one
for real time. -/
structure Reads (x : ObjectText) (r : Request) : Prop where
  command : x.Absent "playbackCommand" → r.command = none
  seek : x.Absent "seekTime" → r.seek = none
  requestId : x.Absent "requestId" → r.requestId = none
  speed : x.Lacks "playbackSpeed" → r.speed = Binary64.ofNat 1

theorem reads_of_parse {r : Request} (h : wire.parse x.text = .ok (.control r)) : Reads x r := by
  obtain ⟨read, hread, hfrom⟩ := parse_eq_ok_iff.mp h
  cases hfrom with
  | control _ hr =>
    have hcommand : ∀ c, ¬ Command.Given .null c := nofun
    refine ⟨fun h => eq_none_of_maybe hcommand hread h hr.command,
      fun h => eq_none_of_maybe nofun hread h hr.seek,
      fun h => eq_none_of_maybe nofun hread h hr.requestId, fun h => ?_⟩
    have hspeed := hr.speed
    rw [Json.valuesOf_eq_nil hread h] at hspeed
    exact hspeed.eq_defaultSpeed

end Absence

section Refusals

variable {x : ObjectText} {m : ClientMessage} {e : Entry}

theorem From.named {ms : List (String × Value)} (h : From ms m) :
    valuesOf "op" ms = [.text (wire.variant m)] := by
  cases h <;> assumption

/-- A message that is decoded is of the variant that an entry names. -/
theorem exists_spells_of_parse (h : wire.parse x.text = .ok m) :
    ∃ e ∈ x.entries, e.Spells "op" (wire.variant m) := by
  obtain ⟨read, hread, hfrom⟩ := parse_eq_ok_iff.mp h
  refine exists_spells (fun e he => x.isValue_of_mem he) hread ?_
  rw [hfrom.named]
  exact List.mem_singleton_self _

/-- Nor does another entry name another variant. -/
theorem variant_eq_of_spells (h : wire.parse x.text = .ok m) (he : e ∈ x.entries) {op : String}
    (hop : e.Spells "op" op) : op = wire.variant m := by
  obtain ⟨read, hread, hfrom⟩ := parse_eq_ok_iff.mp h
  obtain ⟨hkey, ps, hvalue, hps⟩ := hop
  obtain ⟨v, hv, hgiven⟩ := Json.exists_value hread he hkey
  rw [hvalue, (Json.takes_text _ ps).given_eq, hps] at hgiven
  cases hgiven
  rw [hfrom.named, List.mem_singleton] at hv
  injection hv

/-- The ids of a message that is decoded are under their key, each as a word. -/
theorem exists_ids_of_parse (h : wire.parse x.text = .ok m)
    (hm : wire.variant m ∈ ["subscribe", "unsubscribe"]) :
    ∃ read ids, x.readAll = some read ∧ valuesOf "channelIds" read = [idsValue ids] := by
  obtain ⟨read, hread, hfrom⟩ := parse_eq_ok_iff.mp h
  cases hfrom with
  | subscribe _ hids => exact ⟨read, _, hread, hids⟩
  | unsubscribe _ hids => exact ⟨read, _, hread, hids⟩
  | control _ _ => simp [wire] at hm

theorem isBelow_of_readAs {bound k : Nat} {cs : List Char} (hk : k < bound)
    (h : Json.ReadAs cs (.ofNat k)) : Json.IsBelow bound cs := by
  obtain ⟨n, hcs, hreads⟩ := h.word_inv
  exact ⟨n, hcs, hreads.below hk⟩

/-- Each item of a list that is read as ids is a word. -/
theorem isBelow_of_ids {cs : List Char} {is : List Item} (hlist : Json.IsListOf cs is)
    {ids : List ChannelId}
    (hgiven : Json.given (Json.Reader.value (depthLimit - 1)) cs = some (idsValue ids))
    {i : Item} (hi : i ∈ is) : Json.IsBelow UInt32.size i.value := by
  obtain ⟨⟨inside, rfl⟩, hvalues⟩ := hlist
  change Json.given (Json.Reader.value (depthLimit - 2 + 1)) _ = _ at hgiven
  rw [Json.given_listText hvalues] at hgiven
  obtain ⟨vs, hvs, heq⟩ := Option.map_eq_some_iff.mp hgiven
  obtain rfl := Value.list.inj heq
  obtain ⟨v, hv, hi'⟩ := Json.exists_mem_of_mapM hvs hi
  obtain ⟨id, -, rfl⟩ := List.mem_map.mp hv
  exact isBelow_of_readAs id.toNat_lt ((hvalues i hi).readAs hi')

/-- Why the text of an object is no message. -/
inductive Refused (x : ObjectText) : Prop where
  | op (h : ∀ e ∈ x.entries, ∀ op ∈ wire.variants, ¬ e.Spells "op" op)
  | noIds {c : Entry} {op : String} (hc : c ∈ x.entries) (hspells : c.Spells "op" op)
    (hop : op ∈ ["subscribe", "unsubscribe"]) (h : x.Lacks "channelIds")
  | id {c e : Entry} {op : String} {is : List Item} {i : Item} (hc : c ∈ x.entries)
    (hspells : c.Spells "op" op) (hop : op ∈ ["subscribe", "unsubscribe"]) (he : e ∈ x.entries)
    (hkey : e.Has "channelIds") (hlist : Json.IsListOf e.value is) (hi : i ∈ is)
    (h : ¬ Json.IsBelow UInt32.size i.value)
  | seek {e : Entry} {n : Numeral}
    (hop : ∀ c ∈ x.entries, ∀ op ∈ ["subscribe", "unsubscribe"], ¬ c.Spells "op" op)
    (he : e ∈ x.entries) (hkey : e.Has "seekTime") (hn : e.value = n.text)
    (h : ¬ n.Below UInt64.size)

theorem below_of_seek {depth : Nat} {n : Numeral} {v : Value} {vs : List Value} {t : Option Nanos}
    (hgiven : Json.given (Json.Reader.value depth) n.text = some v) (hv : v ∈ vs)
    (h : Maybe (fun v (t : Nanos) => v = .ofNat t.toNat) vs t) : n.Below UInt64.size := by
  have hreads := Json.reads_of_given hgiven
  cases h with
  | missing => cases hv
  | null =>
    obtain rfl := List.mem_singleton.mp hv
    cases hreads
  | @given v' t h =>
    obtain rfl := List.mem_singleton.mp hv
    subst h
    exact hreads.below t.toNat_lt

theorem not_parse_of_refused {x : ObjectText} (h : Refused x) (m : ClientMessage) :
    wire.parse x.text ≠ .ok m := by
  intro hm
  cases h with
  | op h =>
    obtain ⟨e, he, hspells⟩ := exists_spells_of_parse hm
    exact h e he _ (by cases m <;> simp [wire]) hspells
  | noIds hc hspells hop h =>
    rw [variant_eq_of_spells hm hc hspells] at hop
    obtain ⟨read, ids, hread, hids⟩ := exists_ids_of_parse hm hop
    rw [Json.valuesOf_eq_nil hread h] at hids
    cases hids
  | id hc hspells hop he hkey hlist hi h =>
    rw [variant_eq_of_spells hm hc hspells] at hop
    obtain ⟨read, ids, hread, hids⟩ := exists_ids_of_parse hm hop
    obtain ⟨v, hv, hgiven⟩ := Json.exists_value hread he hkey
    rw [hids, List.mem_singleton] at hv
    subst hv
    exact h (isBelow_of_ids hlist hgiven hi)
  | seek hop he hkey hn h =>
    obtain ⟨c, hc, hspells⟩ := exists_spells_of_parse hm
    obtain ⟨read, hread, hfrom⟩ := parse_eq_ok_iff.mp hm
    cases hfrom with
    | subscribe _ _ => exact hop c hc "subscribe" (by simp) hspells
    | unsubscribe _ _ => exact hop c hc "unsubscribe" (by simp) hspells
    | control _ hr =>
      obtain ⟨v, hv, hgiven⟩ := Json.exists_value hread he hkey
      rw [hn] at hgiven
      exact h (below_of_seek hgiven hv hr.seek)

end Refusals

/-- The text of an object is a message exactly if its entries are read and give one, so neither their
order matters nor entries that the variant has no field for. What may be absent may be `null`, and
reads as absent; a speed that is missing reads as real time. A text is no message without a known
variant, without ids where there have to be some, or with one that is no word, and no request for a
position that is no word. -/
theorem decoded_by_members :
    (∀ (x : ObjectText) (m : ClientMessage), wire.parse x.text = .ok m ↔
      ∃ read, x.readAll = some read ∧ From read m) ∧
    (∀ (x y : ObjectText) (common removed added : List Entry),
      x.entries.Perm (common ++ removed) → y.entries.Perm (common ++ added) →
      (∀ e ∈ removed ++ added, Extra common e) →
      (wire.parse x.text).toOption = (wire.parse y.text).toOption) ∧
    (∀ (x y : ObjectText) (common : List Entry) (e : Entry), ∀ key ∈ optionalKeys,
      x.entries.Perm (e :: common) → y.entries.Perm common →
      e.IsNull key → (∀ c ∈ common, ¬ c.Has key) →
      (wire.parse x.text).toOption = (wire.parse y.text).toOption) ∧
    (∀ (x : ObjectText) (r : Request), wire.parse x.text = .ok (.control r) → Reads x r) ∧
    ∀ x : ObjectText, Refused x → ∀ m, wire.parse x.text ≠ .ok m :=
  ⟨fun _ _ => parse_eq_ok_iff, fun _ _ _ _ _ hx hy hextra => parse_extras hx hy hextra,
    fun _ _ _ _ _ hkey hx hy hnull hcommon => parse_null hx hy hkey hnull hcommon,
    fun _ _ => reads_of_parse, fun _ => not_parse_of_refused⟩

section Samples

/-- A string as it is written without escapes. -/
def plain (s : String) : List Piece :=
  s.toList.filterMap fun c =>
    if h : c ≠ '"' ∧ c ≠ '\\' ∧ 32 ≤ c.toNat then some (.plain c h) else none

/-- Five, or its negative. -/
def five (negative : Bool) : Numeral where
  negative := negative
  whole := ['5']
  fraction := none
  exponent := none
  canonical := ⟨by simp, Or.inr ⟨'5', [], rfl, by decide⟩⟩

def opEntry : Entry := ⟨plain "op", Json.quoted (plain "playbackControlRequest")⟩
def seekEntry : Entry := ⟨plain "seekTime", (five false).text⟩
def backEntry : Entry := ⟨plain "seekTime", (five true).text⟩
def nullEntry : Entry := ⟨plain "requestId", ['n', 'u', 'l', 'l']⟩

/-- A request has no volume. -/
def volumeEntry : Entry := ⟨plain "volume", Json.listText .none [⟨.none, (five false).text, .none⟩]⟩

def sampleEntries : List Entry := [opEntry, seekEntry, backEntry, nullEntry, volumeEntry]

theorem isValue_samples : ∀ e ∈ sampleEntries, Json.IsValue e.value := by
  have hvolume : Json.IsValue volumeEntry.value := .list .none _ (by
    intro i hi
    rcases List.mem_singleton.mp hi with rfl
    exact .numeral (five false))
  simp only [sampleEntries, List.forall_mem_cons, List.not_mem_nil, false_imp_iff, implies_true,
    and_true]
  exact ⟨.text _, .numeral (five false), .numeral (five true), .null, hvolume⟩

/-- An object of some of these entries. -/
def objectOf (es : List Entry) (hes : es ⊆ sampleEntries) : ObjectText where
  before := .none
  inside := .none
  members := es.map fun e => ⟨e, .none, .none, .none, .none⟩
  behind := .none
  isValue m hm := by
    obtain ⟨e, he, rfl⟩ := List.mem_map.mp hm
    exact isValue_samples e (hes he)

/-- A request with its variant in front. -/
def opFirst : ObjectText := objectOf [opEntry, seekEntry] (by simp [sampleEntries])

/-- The same request with its variant at the end, and a volume. -/
def opLast : ObjectText := objectOf [seekEntry, volumeEntry, opEntry] (by simp [sampleEntries])

/-- The same request with an id that is `null`. -/
def withNull : ObjectText := objectOf [nullEntry, opEntry, seekEntry] (by simp [sampleEntries])

/-- A request for a position before all others. -/
def beforeAll : ObjectText := objectOf [backEntry, opEntry] (by simp [sampleEntries])

def sampleRequest : Request := ⟨none, Request.defaultSpeed, some 5, none⟩

theorem samples_decoded :
    opLast.text = "\x7b\"seekTime\":5,\"volume\":[5],\"op\":\"playbackControlRequest\"\x7d" ∧
    Extra [opEntry, seekEntry] volumeEntry ∧
    (wire.parse opFirst.text).toOption = (wire.parse opLast.text).toOption ∧
    nullEntry.IsNull "requestId" ∧
    (wire.parse withNull.text).toOption = (wire.parse opFirst.text).toOption ∧
    wire.parse opFirst.text = .ok (.control sampleRequest) ∧
    opFirst.Lacks "playbackSpeed" ∧ Reads opFirst sampleRequest ∧
    Refused beforeAll ∧ ∀ m, wire.parse beforeAll.text ≠ .ok m := by
  have hextra : Extra [opEntry, seekEntry] volumeEntry := by
    refine ⟨"volume", .list [.integer 5], rfl, by decide, fun _ _ op _ => ?_⟩
    unfold fieldKeys
    split
    · decide
    split
    · decide
    · decide
  have hnull : nullEntry.IsNull "requestId" := ⟨by decide +kernel, rfl⟩
  have hread : wire.parse opFirst.text = .ok (.control sampleRequest) :=
    Json.toOption_eq_some_iff.mp (by decide +kernel)
  have hrefused : Refused beforeAll := by
    refine .seek ?_ List.mem_cons_self (by decide +kernel) rfl fun h => absurd h.nonneg (by decide)
    intro c hc op hop hspells
    rcases List.mem_cons.mp hc with rfl | hc
    · have hnone : ¬ backEntry.Has "op" := by decide +kernel
      exact hnone hspells.1
    · rcases List.mem_singleton.mp hc with rfl
      rw [variant_eq_of_spells hread List.mem_cons_self hspells] at hop
      simp [wire] at hop
  have hlast : opLast.entries.Perm ([opEntry, seekEntry] ++ [volumeEntry]) :=
    (List.perm_append_singleton opEntry [seekEntry, volumeEntry])
  obtain ⟨-, hmembers, hnulls, hreads, hrefuses⟩ := decoded_by_members
  refine ⟨by decide +kernel, hextra, ?_, hnull, ?_, hread, ?_, hreads _ _ hread, hrefused,
    hrefuses _ hrefused⟩
  · exact hmembers opFirst opLast _ [] [volumeEntry] (.refl _) hlast (by
      intro e he
      rcases List.mem_singleton.mp he with rfl
      exact hextra)
  · exact hnulls withNull opFirst _ nullEntry "requestId" (by simp [optionalKeys])
      (.refl _) (.refl _) hnull (by decide +kernel)
  · unfold Json.ObjectText.Lacks
    decide +kernel

end Samples

end ClientMessage

end Replay
