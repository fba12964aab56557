import ChordGrid.Fault
import ChordGrid.Text.Blank

namespace ChordGrid

open Text

def referenceC : Nat := 60

/-- A key, known by its distance from C in semitones. -/
structure Key where
  pitchClass : Fin 12
  deriving DecidableEq, Repr

namespace Key

def letters : List (Char × Nat) :=
  [('C', 0), ('D', 2), ('E', 4), ('F', 5), ('G', 7), ('A', 9), ('B', 11)]

/-- The semitones upwards, within the octave, that each accidental adds to its letter. -/
def accidentals : List (String × Nat) :=
  [("", 0), ("b", 11), ("flat", 11), ("#", 1), ("s", 1), ("sharp", 1)]

/-- The preferred names of the twelve keys, from C upwards. -/
def names : Vector String 12 := #v[
  "C", "Db", "D", "Eb", "E", "F", "Gb", "G", "Ab", "A", "Bb", "B"]

def name (key : Key) : String :=
  names[key.pitchClass]

def root (key : Key) : Nat :=
  referenceC + key.pitchClass

/-- The key so many semitones above C, octaves aside. -/
def above (semitones : Nat) : Key :=
  ⟨⟨semitones % 12, Nat.mod_lt _ (by decide)⟩⟩

def ofText? (text : List Char) : Option Key :=
  match trim text with
  | [] => none
  | letter :: accidental => do
    let natural ← letters.lookup letter.toUpper
    let shift ← accidentals.lookup (String.ofList (lower accidental))
    return above (natural + shift)

def parse (name : String) : Except Fault Key :=
  match ofText? name.toList with
  | some key => .ok key
  | none => .error (.unknown .key name)

theorem root_le (key : Key) : key.root ≤ 71 := by
  have := key.pitchClass.isLt
  unfold root referenceC
  omega

end Key

end ChordGrid
