import ChordGrid.Bits
import ChordGrid.Generator
import ChordGrid.Grid.Percussion
import ChordGrid.Grid.Pitched
import ChordGrid.Phrase.Kind
import ChordGrid.Sweep
import ChordGrid.Timeline

/-!
# What a phrase plays

The notes that each kind of phrase makes of one occurrence of a pattern. Grid cells beyond the end
of the pattern are left out, as are notes that would start outside the ticks of a song. Notes are
pushed onto a list as they are made, and a fault leaves those that were pushed before it.
-/

namespace ChordGrid

structure Note where
  tick : Nat
  pitch : Nat
  gate : Nat
  velocity : Nat
  deriving DecidableEq, Repr

/-- Pushes the note of a thing, if it can be made. -/
def Note.push {α ε : Type} (make : α → Except ε Note) (thing : α) (notes : Array Note) :
    Except ε Unit × Array Note :=
  match make thing with
  | .error failure => (.error failure, notes)
  | .ok note => (.ok (), notes.push note)

structure PercussionLine where
  key : Nat
  hits : List Bool
  deriving DecidableEq, Repr

/-- One voice with pitch. The pickup ends where the pattern starts, the tail starts where it
ends. -/
structure PitchedLine where
  cells : List Cell
  interval : Int
  pickup : List Cell
  tail : List Cell
  deriving DecidableEq, Repr

structure Placement where
  position : Nat
  tonality : Tonality
  pattern : Pattern
  resolution : Resolution
  velocity : Nat
  deriving DecidableEq, Repr

namespace Placement

/-- The tick of a cell counted from an origin, unless it lies outside the ticks of a song. -/
def cellTick (place : Placement) (origin : Int) (index : Nat) : Option Nat :=
  let tick := origin + (place.resolution.sixteenth * index : Nat)
  if 0 ≤ tick ∧ tick ≤ lastTick then some tick.toNat else none

end Placement

def widestPitch : Int := topOf 31

/-- A pitch moved by an interval, if it stays inside the MIDI range. -/
def shiftedPitch (root : Nat) (interval : Int) : Except Fault Nat :=
  if root + interval > widestPitch then .error (.pitchOutOfRange root)
  else midiPitch (root + interval)

namespace PercussionLine

def attacks (line : PercussionLine) (place : Placement) : List Nat :=
  (line.hits.take place.pattern.cellCount).zipIdx.filterMap fun (hit, index) =>
    if hit then place.cellTick place.position index else none

def note (line : PercussionLine) (place : Placement) (tick : Nat) : Note :=
  ⟨tick, line.key, place.resolution.sixteenth, place.velocity⟩

/-- Pushes the hits of a line. None of them can fail. -/
def push (place : Placement) (line : PercussionLine) (notes : Array Note) :
    Except Fault Unit × Array Note :=
  pass (Note.push fun tick => .ok (line.note place tick)) (line.attacks place) notes

end PercussionLine

/-- A grid at its place: the tick it starts at, how many of its cells count, and the chord under
each of them. -/
structure Strip where
  cells : List Cell
  origin : Int
  limit : Nat
  chord : Nat → Span

namespace Strip

def attacks (strip : Strip) (place : Placement) : List (Step × Nat × Nat) :=
  (strip.cells.take strip.limit).zipIdx.filterMap fun (cell, index) =>
    match cell with
    | .step step => (place.cellTick strip.origin index).map fun tick => (step, index, tick)
    | _ => none

/-- The note of one step: it lasts for its own cell and the holds after it. -/
def note (strip : Strip) (place : Placement) (interval : Int) (attack : Step × Nat × Nat) :
    Except Fault Note := do
  let (step, index, tick) := attack
  let pitch ← shiftedPitch (place.tonality.pitch (strip.chord index) step) interval
  let gate := place.resolution.ofCells (Cell.holdsAfter strip.cells index strip.limit + 1)
  return ⟨tick, pitch, gate, place.velocity⟩

/-- Pushes the notes of the steps, cell by cell. -/
def push (place : Placement) (interval : Int) (strip : Strip) (notes : Array Note) :
    Except Fault Unit × Array Note :=
  pass (Note.push (strip.note place interval)) (strip.attacks place) notes

end Strip

namespace PitchedLine

/-- The pickup, under the first chord. -/
def pickupStrip (line : PitchedLine) (place : Placement) : Strip :=
  { cells := line.pickup
    origin := place.position - (place.resolution.ofCells line.pickup.length : Nat)
    limit := line.pickup.length
    chord := fun _ => place.pattern.opening }

/-- The grid of the pattern itself, each cell under the chord of its beat. -/
def mainStrip (line : PitchedLine) (place : Placement) : Strip :=
  { cells := line.cells
    origin := place.position
    limit := place.pattern.cellCount
    chord := place.pattern.spanOfCell }

/-- The tail, under the last chord. -/
def tailStrip (line : PitchedLine) (place : Placement) : Strip :=
  { cells := line.tail
    origin := place.position + (place.resolution.ofCells place.pattern.cellCount : Nat)
    limit := line.tail.length
    chord := fun _ => place.pattern.closing }

def strips (line : PitchedLine) (place : Placement) : List Strip :=
  [line.pickupStrip place, line.mainStrip place, line.tailStrip place]

def push (place : Placement) (line : PitchedLine) (notes : Array Note) :
    Except Fault Unit × Array Note :=
  pass (Strip.push place line.interval) (line.strips place) notes

end PitchedLine

namespace Generator

def slots (place : Placement) : List (Nat × Nat) :=
  (List.range place.pattern.cellCount).filterMap fun index =>
    (place.cellTick place.position index).map fun tick => (index, tick)

/-- The note of a drawn step: one quantum long, under the chord of its cell. -/
def slotNote (place : Placement) (slot : (Nat × Nat) × Step) : Except Fault Note := do
  let ((index, tick), step) := slot
  let pitch ← midiPitch (place.tonality.pitch (place.pattern.spanOfCell index) step)
  return ⟨tick, pitch, place.resolution.quantum, place.velocity⟩

/-- Draws a step for a slot and pushes its note. The draw stays drawn if the note cannot be made. -/
def pushSlot (place : Placement) (slot : Nat × Nat) (state : Array Note × Generator) :
    Except Fault Unit × Array Note × Generator :=
  match state.2.step? with
  | none => (.error .endlessDraw, state)
  | some (step, after) =>
    let (outcome, notes) := Note.push (slotNote place) (slot, step) state.1
    (outcome, notes, after)

/-- Pushes a note on a drawn step for every cell of a pattern. -/
def push (place : Placement) (g : Generator) (notes : Array Note) :
    Except Fault Unit × Array Note × Generator :=
  pass (pushSlot place) (slots place) (notes, g)

end Generator

inductive Content where
  | drum (lines : List PercussionLine)
  | pad (lines : List PitchedLine)
  | bass (line : PitchedLine)
  | seque (generator : Generator)
  deriving DecidableEq, Repr

namespace Content

def kind : Content → PhraseKind
  | drum _ => .drum
  | pad _ => .pad
  | bass _ => .bass
  | seque _ => .seque

/-- Pushes the notes for a placement, voice by voice, and gives the content for the next one: only
draws change it. -/
def push (content : Content) (place : Placement) (notes : Array Note) :
    Except Fault Unit × Array Note × Content :=
  match content with
  | drum lines =>
    let (outcome, notes) := pass (PercussionLine.push place) lines notes
    (outcome, notes, content)
  | pad lines =>
    let (outcome, notes) := pass (PitchedLine.push place) lines notes
    (outcome, notes, content)
  | bass line =>
    let (outcome, notes) := line.push place notes
    (outcome, notes, content)
  | seque g =>
    let (outcome, notes, after) := g.push place notes
    (outcome, notes, seque after)

end Content

end ChordGrid
