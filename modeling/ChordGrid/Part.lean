import ChordGrid.GeneralMidi
import ChordGrid.Message
import ChordGrid.Phrase.Basic
import ChordGrid.Sweep

namespace ChordGrid

inductive Program where
  | instrument (number : Nat)
  | drumKit (number : Nat)
  deriving DecidableEq, Repr

namespace Program

def number : Program → Nat
  | instrument number => number
  | drumKit number => number

/-- The program of a name: a drum kit on the drum channel, an instrument on any other. -/
def named (channel : Nat) (name : String) : Except Fault Program :=
  if channel = drumChannel then (GeneralMidi.drumKit name).map drumKit
  else (GeneralMidi.instrument name).map instrument

end Program

inductive BuildMode where
  | playback
  /-- Starts from tick zero, whatever tick it is asked for. -/
  | wholeSong
  deriving DecidableEq, Repr

def BuildMode.start : BuildMode → Nat → Nat
  | playback, tick => tick
  | wholeSong, _ => 0

structure Part where
  channel : Nat
  program : Program
  kind : PhraseKind
  phrases : List Phrase
  deriving DecidableEq, Repr

namespace Part

def new (channel : Nat) (program : Program) (kind : PhraseKind) : Except Fault Part :=
  if channel < channelCount then .ok { channel, program, kind, phrases := [] }
  else .error (.channelOutOfRange channel)

/-- Takes up the phrases of the part's own kind. -/
def takeUp (part : Part) (phrases : List Phrase) : Part :=
  { part with phrases := part.phrases ++ phrases.filter fun phrase => phrase.kind = part.kind }

def strike (channel : Nat) (note : Note) : List Timed :=
  [⟨note.tick, .noteOn channel note.pitch note.velocity⟩,
    ⟨note.tick + note.gate, .noteOff channel note.pitch⟩]

/-- Every phrase on one occurrence, in the order of the phrases. -/
def playOccurrence (channel : Nat) (tonality : Tonality) (occurrence : Occurrence)
    (phrases : List Phrase) : Except Fault (List Timed) × List Phrase :=
  let (notes, after) :=
    sweep (fun phrase => phrase.play occurrence.start tonality occurrence.pattern) phrases
  (notes.map fun lists => lists.flatten.flatMap (strike channel), after)

def playOccurrences (channel : Nat) (tonality : Tonality) :
    List Occurrence → List Phrase → Except Fault (List Timed) × List Phrase
  | [], phrases => (.ok [], phrases)
  | occurrence :: rest, phrases =>
    match playOccurrence channel tonality occurrence phrases with
    | (.error fault, after) => (.error fault, after)
    | (.ok made, after) =>
      let (more, after) := playOccurrences channel tonality rest after
      (more.map (made ++ ·), after)

/-- The messages of a part in the order they are made, and the part after it. A part without
phrases is silent and selects nothing. -/
def build (part : Part) (timeline : Timeline) (tick : Nat) (mode : BuildMode) :
    Except Fault (List Timed) × Part :=
  if part.phrases.isEmpty then (.ok [], part)
  else
    let start := mode.start tick
    let select : Timed := ⟨start, .program part.channel part.program.number⟩
    let (played, phrases) := playOccurrences part.channel timeline.tonality
      (timeline.startingFrom start) part.phrases
    (played.map (select :: ·), { part with phrases })

end Part

end ChordGrid
