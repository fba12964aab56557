import ChordGrid.Arrangement
import ChordGrid.Bits
import ChordGrid.Settings
import ChordGrid.Score.Basic

namespace ChordGrid

def requireEach (phrase : String) (field : VoiceField) (voices entries : Nat) :
    Except Fault Unit :=
  if entries = voices then .ok () else .error (.voiceCount phrase field voices entries)

/-- The grids of a list with one entry for each voice; without a list every grid is empty. -/
def gridOfEach (phrase : String) (field : VoiceField) (voices : Nat) :
    Option (List String) → Except Fault (List (List Cell))
  | none => .ok (List.replicate voices [])
  | some grids => do
    requireEach phrase field voices grids.length
    grids.mapM Grid.pitched

def gridOrEmpty : Option String → Except Fault (List Cell)
  | none => .ok []
  | some text => Grid.pitched text

def bassInterval : Int := -24

/-- The semitones of so many octaves, if 32 bits hold them. -/
def octaveInterval (octave : Int) : Except Fault Int :=
  if fitsSigned 32 (octave * 12) then .ok (octave * 12)
  else .error (.octaveOutOfRange octave)

namespace PhraseEntry

def voices (entry : PhraseEntry) : VoiceEntry :=
  entry.data.getD {}

/-- The grids of the voices. A lone grid counts as one voice. -/
def grids? (entry : PhraseEntry) : Option (List String) :=
  entry.voices.note <|> entry.note.map fun grid => [grid]

def grids (entry : PhraseEntry) : Except Fault (List String) :=
  match entry.grids? with
  | some grids => .ok grids
  | none => .error (.missingGrid entry.name entry.kind)

def drumLines (entry : PhraseEntry) : Except Fault (List PercussionLine) := do
  let grids ← entry.grids
  let sounds := entry.voices.inst.getD []
  requireEach entry.name .inst grids.length sounds.length
  (grids.zip sounds).mapM fun (grid, sound) => do
    let key ← GeneralMidi.percussion sound
    let hits ← Grid.percussion grid
    return ⟨key, hits⟩

/-- The voice of a pad: its octave is looked at before its grid. -/
def padLine (voice : (String × Int) × (List Cell × List Cell)) : Except Fault PitchedLine := do
  let ((grid, octave), (pickup, tail)) := voice
  let interval ← octaveInterval octave
  let cells ← Grid.pitched grid
  return { cells, interval, pickup, tail }

def padLines (entry : PhraseEntry) : Except Fault (List PitchedLine) := do
  let grids ← entry.grids
  let octaves := entry.voices.oct.getD (List.replicate grids.length 0)
  requireEach entry.name .oct grids.length octaves.length
  let pickups ← gridOfEach entry.name .pre grids.length entry.voices.pre
  let tails ← gridOfEach entry.name .post grids.length entry.voices.post
  ((grids.zip octaves).zip (pickups.zip tails)).mapM padLine

def bassLine (entry : PhraseEntry) : Except Fault PitchedLine := do
  let grid ← match entry.note with
    | some grid => .ok grid
    | none => .error (.missingGrid entry.name entry.kind)
  let cells ← Grid.pitched grid
  let pickup ← gridOrEmpty entry.pre
  let tail ← gridOrEmpty entry.post
  return { cells, interval := bassInterval, pickup, tail }

def content (entry : PhraseEntry) (seed : UInt64) : PhraseKind → Except Fault Content
  | .drum => entry.drumLines.map .drum
  | .pad => entry.padLines.map .pad
  | .bass => entry.bassLine.map .bass
  | .seque => .ok (.seque (Generator.ofSeed seed))

def compile (entry : PhraseEntry) (r : Resolution) (velocity : Nat) (seed : UInt64) :
    Except Fault Phrase := do
  let kind ← PhraseKind.parse entry.kind
  let content ← entry.content seed kind
  return Phrase.fresh entry.name content r velocity

end PhraseEntry

namespace PartEntry

def compile (entry : PartEntry) (phrases : List Phrase) : Except Fault Part := do
  let kind ← PhraseKind.parse entry.kind
  let program ← Program.named entry.channel entry.inst
  let part ← Part.new entry.channel program kind
  return part.takeUp phrases

end PartEntry

namespace FaderEntry

def compile (entry : FaderEntry) : Except Fault Fader :=
  Fader.parse entry.kind entry.volume entry.pan entry.mute

end FaderEntry

namespace Score

/-- The phrases, each seeded by its place in the list. -/
def compilePhrases (score : Score) (settings : Settings) (r : Resolution) :
    Except Fault (List Phrase) :=
  score.phrases.zipIdx.mapM fun (entry, index) =>
    entry.compile r settings.velocity (settings.seed.getD 0 + UInt64.ofNat index)

/-- The arrangement of a score, with phrases that have played nothing yet. -/
def compile (score : Score) (settings : Settings) : Except Fault Arrangement := do
  let r ← settings.resolution
  let key ← Key.parse score.song.key
  let mode ← Mode.parse score.song.mode
  let patterns ← score.patterns.mapM fun entry => Pattern.parse entry.name entry.data
  let timeline ← Timeline.arrange ⟨key, mode⟩ r patterns score.song.order
  let phrases ← score.compilePhrases settings r
  let parts ← score.parts.mapM fun entry => entry.compile phrases
  let faders ← score.faders.mapM FaderEntry.compile
  return { timeline, parts, faders, tempo := score.song.tempo.getD settings.tempo }

end Score

/-- A compiled song as it is played: its roll with the tempo and the length. -/
structure Edition where
  roll : Roll
  tempo : Nat
  length : Nat
  deriving DecidableEq, Repr

/-- The edition of a score, built from tick zero. -/
def Edition.compile (score : Score) (settings : Settings) : Except Fault Edition := do
  let arrangement ← score.compile settings
  let roll ← (arrangement.build 0 .playback).1
  return { roll, tempo := arrangement.tempo, length := arrangement.timeline.length }

end ChordGrid
