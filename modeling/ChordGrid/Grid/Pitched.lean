import ChordGrid.Grid.Frame
import ChordGrid.Tonality.Pitch

namespace ChordGrid

inductive Cell where
  | step (step : Step)
  | rest
  | hold
  deriving DecidableEq, Repr

namespace Cell

def symbol : Cell → Char
  | step s => Char.ofNat ('1'.toNat + s)
  | rest => '-'
  | hold => '>'

def ofSymbol? (c : Char) : Option Cell :=
  if c = '-' then some rest
  else if c = '>' then some hold
  else if h : '1'.toNat ≤ c.toNat ∧ c.toNat ≤ '7'.toNat then
    some (step ⟨c.toNat - '1'.toNat, by
      have hone : '1'.toNat = 49 := rfl
      have hseven : '7'.toNat = 55 := rfl
      omega⟩)
  else none

/-- The cells that characters stand for. `sounding` tells whether the cell before them can be
held, and `index` is the place of the first among all cells. -/
def readFrom (sounding : Bool) (index : Nat) : List Char → Except Fault (List Cell)
  | [] => .ok []
  | c :: chars =>
    match ofSymbol? c with
    | none => .error (.invalidCell c index .pitched)
    | some (step s) => (readFrom true (index + 1) chars).map (step s :: ·)
    | some rest => (readFrom false (index + 1) chars).map (rest :: ·)
    | some hold =>
      if sounding then (readFrom true (index + 1) chars).map (hold :: ·)
      else .error (.danglingSustain index)

/-- How many holds follow the cell at `index` among the first `limit` cells. -/
def holdsAfter (cells : List Cell) (index limit : Nat) : Nat :=
  (((cells.take limit).drop (index + 1)).takeWhile (· = hold)).length

theorem ofSymbol?_symbol (cell : Cell) : ofSymbol? cell.symbol = some cell := by
  cases cell with
  | step s => revert s; decide
  | rest => rfl
  | hold => rfl

end Cell

namespace Grid

def pitched (text : String) : Except Fault (List Cell) := do
  let chars ← cells text.toList
  Cell.readFrom false 0 chars

end Grid

end ChordGrid
