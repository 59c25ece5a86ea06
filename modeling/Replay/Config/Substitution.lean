/-!
References to variables in a text: `${name}`, or `${name:-default}` with what stands in for a
variable that is not set. They are replaced from left to right in one pass; what is put in is not
read again.
-/

namespace Replay.Config

structure Reference where
  name : List Char
  default : Option (List Char)
  deriving DecidableEq

namespace Reference

def text (r : Reference) : List Char :=
  '$' :: '\x7b' :: r.name ++
    match r.default with
    | none => ['\x7d']
    | some d => ':' :: '-' :: d ++ ['\x7d']

def inName (c : Char) : Bool := c != '\x7d' && c != ':'

def inDefault (c : Char) : Bool := c != '\x7d'

/-- The end of a reference behind its name, and the rest. -/
def takeEnd? (name : List Char) : List Char → Option (Reference × List Char)
  | '\x7d' :: rest => some (⟨name, none⟩, rest)
  | ':' :: '-' :: cs =>
    match cs.dropWhile inDefault with
    | [] => none
    | _ :: rest => some (⟨name, some (cs.takeWhile inDefault)⟩, rest)
  | _ => none

/-- Takes a reference off the front. Its name is not empty and holds neither a colon nor a closing
brace; its default holds no closing brace. -/
def take? : List Char → Option (Reference × List Char)
  | '$' :: '\x7b' :: cs =>
    if cs.takeWhile inName = [] then none else takeEnd? (cs.takeWhile inName) (cs.dropWhile inName)
  | _ => none

theorem head_eq_of_dropWhile {c : Char} {cs rest : List Char}
    (h : cs.dropWhile inDefault = c :: rest) : c = '\x7d' := by
  induction cs with
  | nil => simp at h
  | cons d cs ih =>
    rw [List.dropWhile_cons] at h
    split at h
    · exact ih h
    · rename_i hd
      simp only [List.cons.injEq] at h
      simpa [h.1, inDefault] using hd

/-- A reference is taken as it is written. -/
theorem eq_text_append_of_takeEnd? {name cs rest : List Char} {r : Reference}
    (h : takeEnd? name cs = some (r, rest)) : '$' :: '\x7b' :: name ++ cs = r.text ++ rest := by
  unfold takeEnd? at h
  split at h
  · cases h; simp [text]
  · rename_i cs
    split at h
    · cases h
    · rename_i c rest' hd
      cases h
      have hall := List.takeWhile_append_dropWhile (p := inDefault) (l := cs)
      rw [hd, head_eq_of_dropWhile hd] at hall
      simp [text, hall]
  · cases h

theorem eq_text_append_of_take? {cs rest : List Char} {r : Reference}
    (h : take? cs = some (r, rest)) : cs = r.text ++ rest := by
  unfold take? at h
  split at h
  · split at h
    · cases h
    · rw [← eq_text_append_of_takeEnd? h]
      simp [List.takeWhile_append_dropWhile]
  · cases h

theorem length_rest_lt {cs rest : List Char} {r : Reference} (h : take? cs = some (r, rest)) :
    rest.length < cs.length := by
  rw [eq_text_append_of_take? h]
  simp only [text, List.length_append, List.length_cons]
  omega

/-- What is put in place of a reference: the value of the variable, else the default, else the
reference stays. -/
def value (lookup : String → Option String) (r : Reference) : List Char :=
  match lookup (String.ofList r.name), r.default with
  | some v, _ => v.toList
  | none, some d => d
  | none, none => r.text

end Reference

def substitute (lookup : String → Option String) (cs : List Char) : List Char :=
  match h : Reference.take? cs with
  | some (r, rest) =>
    have := Reference.length_rest_lt h
    r.value lookup ++ substitute lookup rest
  | none =>
    match cs with
    | [] => []
    | c :: cs => c :: substitute lookup cs
termination_by cs.length

end Replay.Config
