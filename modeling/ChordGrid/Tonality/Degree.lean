import ChordGrid.Fault
import ChordGrid.Text.Blank

namespace ChordGrid

open Text

inductive Degree where
  | I
  | II
  | III
  | IV
  | V
  | VI
  | VII
  deriving DecidableEq, Repr

namespace Degree

def all : List Degree :=
  [I, II, III, IV, V, VI, VII]

def numeral : Degree → String
  | I => "I"
  | II => "II"
  | III => "III"
  | IV => "IV"
  | V => "V"
  | VI => "VI"
  | VII => "VII"

def index : Degree → Fin 7
  | I => 0
  | II => 1
  | III => 2
  | IV => 3
  | V => 4
  | VI => 5
  | VII => 6

def ofText? (text : List Char) : Option Degree :=
  all.find? fun degree => degree.numeral == String.ofList (upper (trim text))

def parse (name : String) : Except Fault Degree :=
  match ofText? name.toList with
  | some degree => .ok degree
  | none => .error (.unknown .degree name)

end Degree

end ChordGrid
