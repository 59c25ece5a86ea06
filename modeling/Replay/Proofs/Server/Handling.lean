import Replay.Proofs.Server.History
import Replay.Proofs.Server.Moves

/-!
How a connection handles what its viewer has sent. A frame of text or bytes is answered by one
warning at most and leaves the hub as it is, and only a request reaches the player (`handled`).
-/

namespace Replay

/-- The message in a frame, if there is one. -/
def Incoming.message? : Incoming → Option ClientMessage
  | .text t => (ClientMessage.wire.parse t).toOption
  | _ => none

/-- Whether a frame is a request to the player. -/
def Incoming.isControl (x : Incoming) : Bool :=
  match x.message? with
  | some (.control _) => true
  | _ => false

namespace Viewer

/-- The report of ids that are not advertised, if there are any. -/
def unknownReport (unknown : List ChannelId) : List Outgoing :=
  if unknown = [] then []
  else [.message (.status .warning ("Unknown channel ids: ["
    ++ String.intercalate ", " (unknown.map fun id => Nat.repr id.toNat) ++ "]"))]

variable {ℓ : Type}

/-- What has become of a viewer and of the listener after a frame. -/
structure Handled (h : Hub) (x : Incoming) (v v' : Viewer) (l l' : ℓ) : Prop where
  reply : v'.sent = v.sent ∨ ∃ text, v'.sent = v.sent ++ [.message (.status .warning text)]
  /-- The connection goes on, after it has published an answer if there is one. -/
  stays : v'.stage = .live ∨ ∃ y, v'.stage = .remembering y
  quiet : x.isControl = false → v'.stage = .live ∧ l' = l
  malformed : x.message? = none → v'.subscriptions = v.subscriptions
  /-- The advertised ids are added, and the others reported in the order of the request. -/
  subscribes : ∀ ids, x.message? = some (.subscribe ids) →
    (∀ id, id ∈ v'.subscriptions ↔ id ∈ v.subscriptions ∨ id ∈ ids ∧ h.isAdvertised id = true) ∧
    v'.sent = v.sent ++ unknownReport (ids.filter fun id => !h.isAdvertised id)

variable {h : Hub} {v : Viewer} {x : Incoming} {w : World} {l : ℓ}

theorem sent_subscribe (h : Hub) (v : Viewer) (ids : List ChannelId) :
    (v.subscribe h ids).sent =
      v.sent ++ unknownReport (ids.filter fun id => !h.isAdvertised id) := by
  unfold subscribe unknownReport
  dsimp only
  split
  · exact (List.append_nil _).symm
  · rfl

theorem handled_warning (hlive : v.stage = .live) (hx : x.message? = none) (text : String) (l : ℓ) :
    Handled h x v (v.warn text) l l where
  reply := Or.inr ⟨text, rfl⟩
  stays := Or.inl hlive
  quiet _ := ⟨hlive, rfl⟩
  malformed _ := rfl
  subscribes ids hids := by
    rw [hx] at hids
    cases hids

theorem handled_subscribe (hlive : v.stage = .live) {ids : List ChannelId}
    (hx : x.message? = some (.subscribe ids)) (l : ℓ) : Handled h x v (v.subscribe h ids) l l where
  reply := by
    rw [sent_subscribe, unknownReport]
    split
    · exact Or.inl (List.append_nil _)
    · exact Or.inr ⟨_, rfl⟩
  stays := by
    obtain ⟨replies, _, heq⟩ := subscribe_eq (h := h) (v := v) ids
    rw [heq]
    exact Or.inl hlive
  quiet _ := by
    obtain ⟨replies, _, heq⟩ := subscribe_eq (h := h) (v := v) ids
    rw [heq]
    exact ⟨hlive, rfl⟩
  malformed hnone := by
    rw [hx] at hnone
    cases hnone
  subscribes ids' hids' := by
    rw [hx] at hids'
    cases hids'
    exact ⟨mem_subscribe ids, sent_subscribe h v ids⟩

/-- A message that is no subscription is not answered. -/
theorem handled_silent {v' : Viewer} {l' : ℓ} {m : ClientMessage} (hx : x.message? = some m)
    (hm : ∀ ids, m ≠ .subscribe ids) (hsent : v'.sent = v.sent)
    (hstays : v'.stage = .live ∨ ∃ y, v'.stage = .remembering y)
    (hquiet : x.isControl = false → v'.stage = .live ∧ l' = l) : Handled h x v v' l l' where
  reply := Or.inl hsent
  stays := hstays
  quiet := hquiet
  malformed hnone := by
    rw [hx] at hnone
    cases hnone
  subscribes ids hids := by
    rw [hx] at hids
    exact absurd (Option.some.inj hids) (hm ids)

variable [Listener ℓ]

/-- All that a frame of text or bytes can do. -/
theorem handled (hlive : v.stage = .live) (hx : x ≠ .close) :
    ∃ v' l', v.receive w x h l = (h, v', l') ∧ Handled h x v v' l l' := by
  cases x with
  | close => exact absurd rfl hx
  | binary bs => exact ⟨_, _, rfl, handled_warning hlive rfl _ l⟩
  | text t =>
    cases hparse : ClientMessage.wire.parse t with
    | error e =>
      have hnone : (Incoming.text t).message? = none := by
        simp only [Incoming.message?, hparse]
        rfl
      exact ⟨v.warn ("Invalid message: " ++ e.message), l, by simp only [receive, hparse],
        handled_warning hlive hnone _ l⟩
    | ok m =>
      have hsome : (Incoming.text t).message? = some m := by
        simp only [Incoming.message?, hparse]
        rfl
      cases m with
      | subscribe ids =>
        exact ⟨v.subscribe h ids, l, by simp only [receive, hparse],
          handled_subscribe hlive hsome l⟩
      | unsubscribe ids =>
        exact ⟨v.unsubscribe ids, l, by simp only [receive, hparse],
          handled_silent hsome nofun rfl (Or.inl hlive) fun _ => ⟨hlive, rfl⟩⟩
      | control r =>
        have hcontrol : (Incoming.text t).isControl = true := by
          simp only [Incoming.isControl, hsome]
        have hquiet : ∀ {v' : Viewer} {l' : ℓ}, (Incoming.text t).isControl = false →
            v'.stage = .live ∧ l' = l := fun hno => absurd (hcontrol.symm.trans hno) nofun
        cases hanswer : Listener.answer w r l with
        | mk answer l' =>
          cases answer with
          | none =>
            exact ⟨v, l', by simp only [receive, hparse, hanswer],
              handled_silent hsome nofun rfl (Or.inl hlive) hquiet⟩
          | some y =>
            exact ⟨{ v with stage := .remembering y }, l', by simp only [receive, hparse, hanswer],
              handled_silent hsome nofun rfl (Or.inr ⟨y, rfl⟩) hquiet⟩

/-- The answer to a request depends on the listener alone. -/
theorem receive_control (w : World) (hx : x.isControl = true) (l : ℓ) :
    ∃ (answer : Option State) (l' : ℓ), ∀ (h : Hub) (v : Viewer), v.receive w x h l =
      (h, { v with stage := (answer.map Stage.remembering).getD v.stage }, l') := by
  cases x with
  | close => cases hx
  | binary bs => cases hx
  | text t =>
    cases hparse : ClientMessage.wire.parse t with
    | error e => simp [Incoming.isControl, Incoming.message?, hparse, Except.toOption] at hx
    | ok m =>
      cases m with
      | subscribe ids => simp [Incoming.isControl, Incoming.message?, hparse, Except.toOption] at hx
      | unsubscribe ids => simp [Incoming.isControl, Incoming.message?, hparse, Except.toOption] at hx
      | control r =>
        refine ⟨(Listener.answer w r l).1, (Listener.answer w r l).2, ?_⟩
        intro h v
        simp only [receive, hparse]
        split <;> rename_i hanswer <;> rw [hanswer] <;> rfl

end Viewer

end Replay
