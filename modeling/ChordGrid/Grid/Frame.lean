import ChordGrid.Fault
import ChordGrid.Text.Blank
import ChordGrid.Text.Pieces

namespace ChordGrid.Grid

open Text

def isFrame (c : Char) : Bool :=
  c = '[' || c = ']' || c = '|'

def cellsPerSegment : Nat := 4

/-- What stands between the frame characters, blank stretches left out. -/
def segments (text : List Char) : List (List Char) :=
  (pieces isFrame text).filter fun segment => !allBlank segment

def misfit? (text : List Char) : Option (List Char) :=
  (segments text).find? fun segment => segment.length ≠ cellsPerSegment

def cells (text : List Char) : Except Fault (List Char) :=
  match misfit? text with
  | some segment => .error (.segmentLength (String.ofList segment) segment.length)
  | none => .ok (segments text).flatten

end ChordGrid.Grid
