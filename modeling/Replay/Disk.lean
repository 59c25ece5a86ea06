import Replay.Recording.Compression
import Replay.Time.Nanos

/-!
Files by name. A name leads to a file, and a file that was opened stays readable when its name is
taken away; writing under a name replaces the content of its file.
-/

namespace Replay

abbrev FileId := Nat

structure Disk where
  names : List (String × FileId)
  contents : List Bytes
  /-- What the recordings on it are read with. -/
  decompressors : Recording.Decompressors

namespace Disk

def empty : Disk := ⟨[], [], fun _ => none⟩

def open? (d : Disk) (name : String) : Option FileId := (d.names.find? (·.1 == name)).map (·.2)

def content (d : Disk) (id : FileId) : Bytes := d.contents.getD id []

/-- A file as a recording. -/
def recording (d : Disk) (id : FileId) : Recording.File := ⟨d.content id, d.decompressors⟩

def read? (d : Disk) (name : String) : Option Bytes := (d.open? name).map d.content

def write (d : Disk) (name : String) (bs : Bytes) : Disk :=
  match d.open? name with
  | some id => { d with contents := d.contents.set id bs }
  | none =>
    { d with names := (name, d.contents.length) :: d.names, contents := d.contents ++ [bs] }

def remove (d : Disk) (name : String) : Disk := { d with names := d.names.filter (·.1 != name) }

theorem open?_remove_self (d : Disk) (name : String) : (d.remove name).open? name = none := by
  simp [open?, remove, List.find?_filter]

theorem open?_remove_of_ne (d : Disk) {name other : String} (h : name ≠ other) :
    (d.remove other).open? name = d.open? name := by
  simp only [open?, remove, List.find?_filter]
  congr 2
  funext n
  by_cases hn : n.1 = name <;> simp [hn, h]

end Disk

/-- What a playback sees around it: the reading of the clock, and the files. -/
structure World where
  now : Nanos
  disk : Disk

end Replay
