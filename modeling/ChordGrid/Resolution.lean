import ChordGrid.Bits
import ChordGrid.Fault

/-!
# Resolution

Every tick derives from the ticks of a quarter note. A cell is a sixteenth note, and playback
delivers in quanta of a quarter of a cell, so the base is a multiple of sixteen. A MIDI file gives
it fifteen bits.
-/

namespace ChordGrid

/-- The last tick that a position can name. -/
def lastTick : Nat := topOf 32

def beatsPerMeasure : Nat := 4

def cellsPerBeat : Nat := 4

def quantaPerCell : Nat := 4

/-- The ticks of a quarter note, in a number that splits into quanta and fits a MIDI header. -/
structure Resolution where
  ticksPerQuarter : Nat
  pos : 0 < ticksPerQuarter
  even : ticksPerQuarter % 16 = 0
  le : ticksPerQuarter ≤ 32767
  deriving DecidableEq, Repr

namespace Resolution

def ofTicks (ticks : Nat) : Except SettingsFault Resolution :=
  if h : 0 < ticks ∧ ticks % 16 = 0 then
    if hle : ticks ≤ 32767 then .ok ⟨ticks, h.1, h.2, hle⟩ else .error (.ticksTooFine ticks)
  else .error (.unevenTicks ticks)

def sixteenth (r : Resolution) : Nat :=
  r.ticksPerQuarter / cellsPerBeat

/-- The length of one step of delivery. -/
def quantum (r : Resolution) : Nat :=
  r.sixteenth / quantaPerCell

def ofBeats (r : Resolution) (count : Nat) : Nat :=
  count * r.ticksPerQuarter

def ofCells (r : Resolution) (count : Nat) : Nat :=
  count * r.sixteenth

/-- The tick where a measure begins, counting measures from zero; the last tick for a measure that
lies beyond it. -/
def startOfMeasure (r : Resolution) (count : Nat) : Nat :=
  min lastTick (min lastTick (count * beatsPerMeasure) * r.ticksPerQuarter)

theorem quantum_eq (r : Resolution) : r.quantum = r.ticksPerQuarter / 16 := by
  simp [quantum, sixteenth, cellsPerBeat, quantaPerCell, Nat.div_div_eq_div_mul]

theorem sixteenth_eq (r : Resolution) : r.sixteenth = 4 * r.quantum := by
  have := r.even
  rw [quantum_eq, sixteenth, cellsPerBeat]
  omega

theorem ticksPerQuarter_eq (r : Resolution) : r.ticksPerQuarter = 16 * r.quantum := by
  have := r.even
  rw [quantum_eq]
  omega

theorem quantum_pos (r : Resolution) : 0 < r.quantum := by
  have := r.pos
  have := r.ticksPerQuarter_eq
  omega

theorem sixteenth_pos (r : Resolution) : 0 < r.sixteenth := by
  have := r.quantum_pos
  have := r.sixteenth_eq
  omega

def standard : Resolution :=
  ⟨480, by decide, by decide, by decide⟩

instance : Inhabited Resolution := ⟨standard⟩

end Resolution

end ChordGrid
