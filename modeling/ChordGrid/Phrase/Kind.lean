import ChordGrid.Fault
import ChordGrid.Text.Blank

namespace ChordGrid

open Text

inductive PhraseKind where
  | drum
  | pad
  | bass
  | seque
  deriving DecidableEq, Repr

namespace PhraseKind

def all : List PhraseKind :=
  [drum, pad, bass, seque]

def name : PhraseKind → String
  | drum => "drum"
  | pad => "pad"
  | bass => "bass"
  | seque => "seque"

def ofText? (text : List Char) : Option PhraseKind :=
  all.find? fun kind => kind.name == String.ofList (lower (trim text))

def parse (name : String) : Except Fault PhraseKind :=
  match ofText? name.toList with
  | some kind => .ok kind
  | none => .error (.unknown .phraseType name)

end PhraseKind

end ChordGrid
