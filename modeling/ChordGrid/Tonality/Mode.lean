import ChordGrid.Fault
import ChordGrid.Text.Blank

namespace ChordGrid

open Text

inductive Mode where
  | ionian
  | dorian
  | phrygian
  | lydian
  | mixolydian
  | aeolian
  | locrian
  deriving DecidableEq, Repr

namespace Mode

def all : List Mode :=
  [ionian, dorian, phrygian, lydian, mixolydian, aeolian, locrian]

def abbreviation : Mode → String
  | ionian => "Ion"
  | dorian => "Dor"
  | phrygian => "Phr"
  | lydian => "Lyd"
  | mixolydian => "Mix"
  | aeolian => "Aeo"
  | locrian => "Loc"

def spellings : Mode → List String
  | ionian => ["i", "ion", "ionian", "major"]
  | dorian => ["d", "dor", "dorian"]
  | phrygian => ["p", "phr", "phrygian"]
  | lydian => ["l", "lyd", "lydian"]
  | mixolydian => ["m", "mix", "mixolydian"]
  | aeolian => ["a", "aeo", "aeolian", "minor"]
  | locrian => ["o", "loc", "locrian"]

/-- The semitones from the final to each of the seven notes of the scale. -/
def intervals : Mode → Vector Nat 7
  | ionian => #v[0, 2, 4, 5, 7, 9, 11]
  | dorian => #v[0, 2, 3, 5, 7, 9, 10]
  | phrygian => #v[0, 1, 3, 5, 7, 8, 10]
  | lydian => #v[0, 2, 4, 6, 7, 9, 11]
  | mixolydian => #v[0, 2, 4, 5, 7, 9, 10]
  | aeolian => #v[0, 2, 3, 5, 7, 8, 10]
  | locrian => #v[0, 1, 3, 5, 6, 8, 10]

def interval (mode : Mode) (index : Fin 7) : Nat :=
  mode.intervals[index]

def ofText? (text : List Char) : Option Mode :=
  all.find? fun mode => mode.spellings.contains (String.ofList (lower (trim text)))

def parse (name : String) : Except Fault Mode :=
  match ofText? name.toList with
  | some mode => .ok mode
  | none => .error (.unknown .mode name)

theorem interval_le (mode : Mode) (index : Fin 7) : mode.interval index ≤ 11 := by
  cases mode <;> revert index <;> decide

theorem mem_all (mode : Mode) : mode ∈ all := by
  cases mode <;> simp [all]

end Mode

end ChordGrid
