import ChordGrid.Grid.Frame

namespace ChordGrid.Grid

def hit? (c : Char) : Option Bool :=
  if c = 'x' then some true else if c = '-' then some false else none

/-- The hits that characters stand for; `index` is the place of the first among all cells. -/
def readHits (index : Nat) : List Char → Except Fault (List Bool)
  | [] => .ok []
  | c :: chars =>
    match hit? c with
    | none => .error (.invalidCell c index .drum)
    | some hit => (readHits (index + 1) chars).map (hit :: ·)

def percussion (text : String) : Except Fault (List Bool) := do
  let chars ← cells text.toList
  readHits 0 chars

end ChordGrid.Grid
