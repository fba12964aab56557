import ChordGrid.Phrase.Content

namespace ChordGrid

structure Phrase where
  name : String
  content : Content
  resolution : Resolution
  velocity : Nat
  /-- The notes of all occurrences so far. -/
  notes : List Note
  deriving DecidableEq, Repr

namespace Phrase

def fresh (name : String) (content : Content) (resolution : Resolution) (velocity : Nat) :
    Phrase :=
  { name, content, resolution, velocity, notes := [] }

def kind (phrase : Phrase) : PhraseKind :=
  phrase.content.kind

/-- Notes in the order of their ticks; those of one tick keep their order. -/
def inTime (notes : List Note) : List Note :=
  notes.mergeSort fun a b => a.tick ≤ b.tick

def placement (phrase : Phrase) (position : Nat) (tonality : Tonality) (pattern : Pattern) :
    Placement :=
  { position, tonality, pattern
    resolution := phrase.resolution
    velocity := phrase.velocity }

/-- Puts the notes from a place on in the order of their ticks. -/
def sortFrom (place : Nat) (notes : List Note) : List Note :=
  notes.take place ++ inTime (notes.drop place)

/-- The notes that one occurrence of a pattern adds, and the phrase after it. A pattern of another
name adds none, and after a fault the notes are cut back to those before it. -/
def play (phrase : Phrase) (position : Nat) (tonality : Tonality) (pattern : Pattern) :
    Except Fault (List Note) × Phrase :=
  if phrase.name ≠ pattern.name then (.ok [], phrase)
  else
    let before := phrase.notes.length
    let (outcome, notes, content) :=
      phrase.content.push (phrase.placement position tonality pattern) phrase.notes.toArray
    match outcome with
    | .error fault => (.error fault, { phrase with content, notes := notes.toList.take before })
    | .ok () =>
      let notes := sortFrom before notes.toList
      (.ok (notes.drop before), { phrase with content, notes })

end Phrase

end ChordGrid
