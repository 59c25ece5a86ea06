import Replay.Proofs.Json.Tagging
import Replay.Proofs.Message.RoundTrip

/-!
What a viewer's message is decoded from.
-/

namespace Replay

open Json (Kind Maybe Represents Slot Value valuesOf)

theorem Json.Represents.text : Represents .text Value.toText fun v s => v = .text s where
  refuses_null := nofun
  sound {v w} h := by
    cases v <;> cases h
    exact ⟨nofun, rfl⟩
  complete {v s} h := by
    subst h
    exact ⟨.text s, rfl, rfl⟩

/-- A word is a whole number that fits it, and stays as it is. -/
theorem Json.word_ofValue_iff {bits : Nat} {v w : Value} :
    (Kind.word bits).ofValue v = .ok w ↔ ∃ n : Nat, n < 1 <<< bits ∧ v = .ofNat n ∧ w = v := by
  constructor
  · intro h
    cases v with
    | integer k =>
      simp only [Kind.ofValue, Kind.accept] at h
      split at h
      · rename_i hk
        cases h
        exact ⟨k.toNat, hk.2, congrArg Value.integer (Int.toNat_of_nonneg hk.1).symm, rfl⟩
      · cases h
    | _ => cases h
  · rintro ⟨n, hn, rfl, rfl⟩
    exact if_pos ⟨Int.natCast_nonneg n, by simpa using hn⟩

theorem Json.Represents.word64 :
    Represents (.word 64) (fun v => UInt64.ofNat v.toNat) fun v t => v = .ofNat t.toNat where
  refuses_null := nofun
  sound {v w} h := by
    obtain ⟨n, hn, rfl, rfl⟩ := word_ofValue_iff.mp h
    refine ⟨nofun, ?_⟩
    rw [Value.toNat_ofNat, UInt64.toNat_ofNat_of_lt' hn]
  complete {v t} h := by
    subst h
    exact ⟨_, word_ofValue_iff.mpr ⟨t.toNat, t.toNat_lt, rfl, rfl⟩, by simp⟩

namespace Command

/-- How a command is given: by its name, or as an object that gives nothing under it. -/
inductive Given : Value → Command → Prop where
  | name (c : Command) : Given (.text c.name) c
  | null (c : Command) : Given (.object [(c.name, .null)]) c
  | empty (c : Command) : Given (.object [(c.name, .object [])]) c

theorem exists_of_acceptName {s t : String} (h : Kind.acceptName ["play", "pause"] s = .ok t) :
    ∃ c : Command, s = c.name ∧ t = s := by
  rw [Kind.acceptName] at h
  split at h
  · rename_i hs
    cases h
    simp only [List.mem_cons, List.not_mem_nil, or_false] at hs
    rcases hs with rfl | rfl
    · exact ⟨.play, rfl, rfl⟩
    · exact ⟨.pause, rfl, rfl⟩
  · cases h

theorem given_of_ofValue {v w : Value} (h : (Kind.choice ["play", "pause"]).ofValue v = .ok w) :
    ∃ c : Command, w = .text c.name ∧ Given v c := by
  simp only [Kind.ofValue] at h
  unfold Kind.choiceOfValue at h
  split at h
  · rename_i s
    cases hname : Kind.acceptName ["play", "pause"] s with
    | error cause =>
      rw [hname] at h
      cases h
    | ok t =>
      rw [hname] at h
      obtain ⟨c, rfl, rfl⟩ := exists_of_acceptName hname
      cases h
      exact ⟨c, rfl, .name c⟩
  · rename_i key v
    cases hname : Kind.acceptName ["play", "pause"] key with
    | error cause =>
      rw [hname] at h
      cases h
    | ok t =>
      rw [hname, Json.ok_bind] at h
      obtain ⟨c, rfl, rfl⟩ := exists_of_acceptName hname
      split at h
      · cases h
        exact ⟨c, rfl, .null c⟩
      · cases h
        exact ⟨c, rfl, .empty c⟩
      · cases h
  · cases h
  · cases h

theorem represents :
    Represents (.choice ["play", "pause"]) (fun v => ofName v.toText) Given where
  refuses_null := nofun
  sound {v w} h := by
    obtain ⟨c, rfl, hc⟩ := given_of_ofValue h
    refine ⟨nofun, ?_⟩
    rw [Value.toText, ofName_name]
    exact hc
  complete {v c} h := by
    refine ⟨.text c.name, ?_, ofName_name c⟩
    cases h <;> cases c <;> rfl

end Command

namespace Request

/-- How a speed is given: as a number, or not at all for real time. -/
inductive SpeedGiven : List Value → Binary64 → Prop where
  | missing : SpeedGiven [] defaultSpeed
  | integer (n : Int) : SpeedGiven [.integer n] (Kind.double n)
  | number (x : Binary64) : SpeedGiven [.number x] x

theorem SpeedGiven.eq_defaultSpeed {x : Binary64} (h : SpeedGiven [] x) : x = defaultSpeed := by
  cases h
  rfl

theorem SpeedGiven.of_perm {vs vs' : List Value} {x : Binary64} (h : SpeedGiven vs x)
    (hperm : vs.Perm vs') : SpeedGiven vs' x := by
  cases h with
  | missing =>
    obtain rfl := hperm.nil_eq
    exact .missing
  | integer n =>
    obtain rfl := List.singleton_perm.mp hperm
    exact .integer n
  | number x =>
    obtain rfl := List.singleton_perm.mp hperm
    exact .number x

theorem gives_speed (key : String) {vs : List Value} {x : Binary64} :
    Slot.Gives ⟨key, false, .number⟩ (fun v => (v.toOption Value.toBinary64).getD defaultSpeed)
      vs x ↔ SpeedGiven vs x := by
  constructor
  · rintro ⟨w, hw, rfl⟩
    rcases vs with _ | ⟨v, _ | ⟨v', vs⟩⟩
    · cases hw
      exact .missing
    · have hread : Kind.number.ofValue v = .ok w := Json.toOption_eq_some_iff.mp hw
      cases v with
      | integer n =>
        cases hread
        exact .integer n
      | number y =>
        cases hread
        exact .number y
      | _ => cases hread
    · cases hw
  · rintro (_ | n | _)
    · exact ⟨.null, rfl, rfl⟩
    · exact ⟨.number (Kind.double n), rfl, rfl⟩
    · exact ⟨.number x, rfl, rfl⟩

/-- The request that members give, in whatever order. -/
@[mk_iff]
structure From (ms : List (String × Value)) (r : Request) : Prop where
  command : Maybe Command.Given (valuesOf "playbackCommand" ms) r.command
  speed : SpeedGiven (valuesOf "playbackSpeed" ms) r.speed
  seek : Maybe (fun v t => v = .ofNat t.toNat) (valuesOf "seekTime" ms) r.seek
  requestId : Maybe (fun v s => v = .text s) (valuesOf "requestId" ms) r.requestId

/-- An object is a request exactly if its members give one. -/
theorem ofValue_iff {ms : List (String × Value)} {r : Request} :
    (∃ v, wire.kind.ofValue (.object ms) = .ok v ∧ wire.ofFields v.toFields = r) ↔
      From ms r := by
  constructor
  · rintro ⟨v, hv, rfl⟩
    have hget : ∀ {key slot}, Slot.find? wire.fields key = some slot →
        slot.held (valuesOf key ms) = some (v.toFields.get key) := Json.get_of_record hv
    exact ⟨(Json.gives_optional _ Command.represents).mp ⟨_, hget rfl, rfl⟩,
      (gives_speed _).mp ⟨_, hget rfl, rfl⟩,
      (Json.gives_optional _ .word64).mp ⟨_, hget rfl, rfl⟩,
      (Json.gives_optional _ .text).mp ⟨_, hget rfl, rfl⟩⟩
  · rintro ⟨hcommand, hspeed, hseek, hid⟩
    obtain ⟨c, hc, hcommand⟩ :=
      (Json.gives_optional "playbackCommand" Command.represents).mpr hcommand
    obtain ⟨x, hx, hspeed⟩ := (gives_speed "playbackSpeed").mpr hspeed
    obtain ⟨t, ht, hseek⟩ := (Json.gives_optional "seekTime" .word64).mpr hseek
    obtain ⟨i, hi, hid⟩ := (Json.gives_optional "requestId" .text).mpr hid
    have hall : ∀ slot ∈ wire.fields, (slot.held (valuesOf slot.key ms)).isSome = true := by
      intro slot hslot
      rcases List.mem_cons.mp hslot with rfl | hslot
      · exact hc ▸ rfl
      rcases List.mem_cons.mp hslot with rfl | hslot
      · exact hx ▸ rfl
      rcases List.mem_cons.mp hslot with rfl | hslot
      · exact ht ▸ rfl
      rcases List.mem_singleton.mp hslot with rfl
      exact hi ▸ rfl
    obtain ⟨v, hv⟩ := Json.exists_record wire.title hall
    have hget : ∀ {key slot w}, Slot.find? wire.fields key = some slot →
        slot.held (valuesOf key ms) = some w → v.toFields.get key = w := fun hslot hw =>
      Option.some.inj ((Json.get_of_record hv hslot).symm.trans hw)
    refine ⟨v, hv, ?_⟩
    change Request.mk _ _ _ _ = r
    dsimp only at hspeed
    rw [hget rfl hc, hget rfl hx, hget rfl ht, hget rfl hi, hcommand, hspeed, hseek, hid]

def keys : List String := ["playbackCommand", "playbackSpeed", "seekTime", "requestId"]

/-- Only the values under the keys of the fields matter, and not their order. -/
theorem From.of_perm {ms ms' : List (String × Value)} {r : Request} (h : From ms r)
    (hkeys : ∀ key ∈ keys, (valuesOf key ms).Perm (valuesOf key ms')) : From ms' r where
  command := h.command.of_perm (hkeys _ (by simp [keys]))
  speed := h.speed.of_perm (hkeys _ (by simp [keys]))
  seek := h.seek.of_perm (hkeys _ (by simp [keys]))
  requestId := h.requestId.of_perm (hkeys _ (by simp [keys]))

theorem from_others {key : String} {ms : List (String × Value)} {r : Request} (h : key ∉ keys) :
    From (Json.others key ms) r ↔ From ms r := by
  have hothers : ∀ key' ∈ keys, valuesOf key' (Json.others key ms) = valuesOf key' ms := by
    intro key' hkey'
    have hne : key' ≠ key := by
      rintro rfl
      exact h hkey'
    exact Json.valuesOf_others hne ms
  constructor
  · intro hr
    exact hr.of_perm fun key' hkey' => hothers key' hkey' ▸ List.Perm.refl _
  · intro hr
    exact hr.of_perm fun key' hkey' => hothers key' hkey' ▸ List.Perm.refl _

end Request

namespace ClientMessage

/-- Channel ids as they are given. -/
def idsValue (ids : List ChannelId) : Value := .list (ids.map fun id => .ofNat id.toNat)

theorem word32_of_mapM {vs ws : List Value} (h : vs.mapM (Kind.word 32).ofValue = .ok ws) :
    ws = vs ∧ (vs.map fun v => UInt32.ofNat v.toNat).map (fun id => .ofNat id.toNat) = vs := by
  induction vs generalizing ws with
  | nil =>
    cases h
    exact ⟨rfl, rfl⟩
  | cons v vs ih =>
    rw [List.mapM_cons] at h
    cases hv : (Kind.word 32).ofValue v with
    | error cause =>
      rw [hv] at h
      cases h
    | ok w =>
      rw [hv, Json.ok_bind] at h
      cases hvs : vs.mapM (Kind.word 32).ofValue with
      | error cause =>
        rw [hvs] at h
        cases h
      | ok ws' =>
        rw [hvs] at h
        cases h
        obtain ⟨n, hn, rfl, rfl⟩ := Json.word_ofValue_iff.mp hv
        obtain ⟨rfl, hback⟩ := ih hvs
        refine ⟨rfl, ?_⟩
        rw [List.map_cons, List.map_cons, hback, Value.toNat_ofNat,
          UInt32.toNat_ofNat_of_lt' hn]

theorem gives_ids (key : String) {vs : List Value} {ids : List ChannelId} :
    Slot.Gives ⟨key, true, .list (.word 32)⟩ (Value.toList fun v => UInt32.ofNat v.toNat) vs ids ↔
      vs = [idsValue ids] := by
  constructor
  · rintro ⟨w, hw, rfl⟩
    rcases vs with _ | ⟨v, _ | ⟨v', vs⟩⟩
    · cases hw
    · have hread : (Kind.list (.word 32)).ofValue v = .ok w := Json.toOption_eq_some_iff.mp hw
      cases v with
      | list items =>
        change (items.mapM (Kind.word 32).ofValue >>= fun vs => .ok (.list vs)) = .ok w at hread
        cases hitems : items.mapM (Kind.word 32).ofValue with
        | error cause =>
          rw [hitems] at hread
          cases hread
        | ok ws =>
          rw [hitems] at hread
          cases hread
          obtain ⟨rfl, hback⟩ := word32_of_mapM hitems
          rw [Value.toList, idsValue, hback]
      | _ => cases hread
    · cases hw
  · rintro rfl
    have hids : (Kind.list (.word 32)).ofValue (idsValue ids) = .ok (idsValue ids) := by
      have hfits : Json.Fits (.list (.word 32)) 1 (idsValue ids) := .list (by
        intro v hv
        obtain ⟨id, -, rfl⟩ := List.mem_map.mp hv
        exact .word32 id)
      exact hfits.ofValue_eq
    refine ⟨idsValue ids, Json.toOption_eq_some_iff.mpr hids, ?_⟩
    simp [idsValue, Function.comp_def]

/-- An object gives channel ids exactly if its only member under their key does. -/
theorem ids_iff (title : String) {ms : List (String × Value)} {ids : List ChannelId} :
    (∃ v, (Kind.record title [⟨"channelIds", true, .list (.word 32)⟩]).ofValue (.object ms) =
        .ok v ∧ (v.toFields.get "channelIds").toList (fun v => UInt32.ofNat v.toNat) = ids) ↔
      valuesOf "channelIds" ms = [idsValue ids] := by
  constructor
  · rintro ⟨v, hv, rfl⟩
    exact (gives_ids _).mp ⟨_, Json.get_of_record hv rfl, rfl⟩
  · intro hids
    obtain ⟨w, hw, hids⟩ := (gives_ids "channelIds").mpr hids
    have hall : ∀ slot ∈ [Slot.mk "channelIds" true (Kind.list (.word 32))],
        (slot.held (valuesOf slot.key ms)).isSome = true := by
      intro slot hslot
      rcases List.mem_singleton.mp hslot with rfl
      exact hw ▸ rfl
    obtain ⟨v, hv⟩ := Json.exists_record title hall
    refine ⟨v, hv, ?_⟩
    rw [Option.some.inj ((Json.get_of_record hv rfl).symm.trans hw), hids]

/-- The message that members give, in whatever order. -/
@[mk_iff]
inductive From (ms : List (String × Value)) : ClientMessage → Prop where
  | subscribe {ids : List ChannelId} (hop : valuesOf "op" ms = [.text "subscribe"])
    (hids : valuesOf "channelIds" ms = [idsValue ids]) : From ms (.subscribe ids)
  | unsubscribe {ids : List ChannelId} (hop : valuesOf "op" ms = [.text "unsubscribe"])
    (hids : valuesOf "channelIds" ms = [idsValue ids]) : From ms (.unsubscribe ids)
  | control {r : Request} (hop : valuesOf "op" ms = [.text "playbackControlRequest"])
    (hr : Request.From ms r) : From ms (.control r)

theorem said_iff {ms : List (String × Value)} {m : ClientMessage} :
    (∃ variant, wire.Said ms variant m) ↔ From ms m := by
  have hothers : ∀ key, key ≠ "op" →
      valuesOf key (Json.others Json.Tagged.tag ms) = valuesOf key ms := fun key hkey =>
    Json.valuesOf_others hkey ms
  have huntagged : Json.Tagged.tag ∉ Request.keys := by decide
  constructor
  · rintro ⟨variant, hop, hknown, v, hv, rfl⟩
    rcases hknown with _ | ⟨_, _ | ⟨_, _ | ⟨_, ⟨⟩⟩⟩⟩
    · have hids := (ids_iff _).mp ⟨v, hv, rfl⟩
      rw [hothers _ (by decide)] at hids
      exact .subscribe hop hids
    · have hids := (ids_iff _).mp ⟨v, hv, rfl⟩
      rw [hothers _ (by decide)] at hids
      exact .unsubscribe hop hids
    · exact .control hop ((Request.from_others huntagged).mp (Request.ofValue_iff.mp ⟨v, hv, rfl⟩))
  · intro hm
    cases hm with
    | subscribe hop hids =>
      rw [← hothers _ (by decide)] at hids
      obtain ⟨v, hv, rfl⟩ := (ids_iff _).mpr hids
      exact ⟨_, hop, by simp [wire], v, hv, rfl⟩
    | unsubscribe hop hids =>
      rw [← hothers _ (by decide)] at hids
      obtain ⟨v, hv, rfl⟩ := (ids_iff _).mpr hids
      exact ⟨_, hop, by simp [wire], v, hv, rfl⟩
    | control hop hr =>
      obtain ⟨v, hv, rfl⟩ := Request.ofValue_iff.mpr ((Request.from_others huntagged).mpr hr)
      exact ⟨_, hop, by simp [wire], v, hv, rfl⟩

end ClientMessage

end Replay
