import ChordGrid.Fault
import ChordGrid.Text.Blank
import ChordGrid.Text.Numeral

namespace ChordGrid.GeneralMidi

open Text

/-- The instruments, in the order of their program numbers. -/
def instruments : List String := [
  "Acoustic Grand Piano", "Bright Acoustic Piano", "Electric Grand Piano", "Honky-tonk Piano",
  "Electric Piano 1", "Electric Piano 2", "Harpsichord", "Clavi", "Celesta", "Glockenspiel",
  "Music Box", "Vibraphone", "Marimba", "Xylophone", "Tubular Bells", "Dulcimer", "Drawbar Organ",
  "Percussive Organ", "Rock Organ", "Church Organ", "Reed Organ", "Accordion", "Harmonica",
  "Tango Accordion", "Acoustic Guitar (nylon)", "Acoustic Guitar (steel)", "Electric Guitar (jazz)",
  "Electric Guitar (clean)", "Electric Guitar (muted)", "Overdriven Guitar", "Distortion Guitar",
  "Guitar harmonics", "Acoustic Bass", "Electric Bass (finger)", "Electric Bass (pick)",
  "Fretless Bass", "Slap Bass 1", "Slap Bass 2", "Synth Bass 1", "Synth Bass 2", "Violin", "Viola",
  "Cello", "Contrabass", "Tremolo Strings", "Pizzicato Strings", "Orchestral Harp", "Timpani",
  "String Ensemble 1", "String Ensemble 2", "SynthStrings 1", "SynthStrings 2", "Choir Aahs",
  "Voice Oohs", "Synth Voice", "Orchestra Hit", "Trumpet", "Trombone", "Tuba", "Muted Trumpet",
  "French Horn", "Brass Section", "SynthBrass 1", "SynthBrass 2", "Soprano Sax", "Alto Sax",
  "Tenor Sax", "Baritone Sax", "Oboe", "English Horn", "Bassoon", "Clarinet", "Piccolo", "Flute",
  "Recorder", "Pan Flute", "Blown Bottle", "Shakuhachi", "Whistle", "Ocarina", "Lead 1 (square)",
  "Lead 2 (sawtooth)", "Lead 3 (calliope)", "Lead 4 (chiff)", "Lead 5 (charang)", "Lead 6 (voice)",
  "Lead 7 (fifths)", "Lead 8 (bass + lead)", "Pad 1 (new age)", "Pad 2 (warm)", "Pad 3 (polysynth)",
  "Pad 4 (choir)", "Pad 5 (bowed)", "Pad 6 (metallic)", "Pad 7 (halo)", "Pad 8 (sweep)",
  "FX 1 (rain)", "FX 2 (soundtrack)", "FX 3 (crystal)", "FX 4 (atmosphere)", "FX 5 (brightness)",
  "FX 6 (goblins)", "FX 7 (echoes)", "FX 8 (sci-fi)", "Sitar", "Banjo", "Shamisen", "Koto",
  "Kalimba", "Bag pipe", "Fiddle", "Shanai", "Tinkle Bell", "Agogo", "Steel Drums", "Woodblock",
  "Taiko Drum", "Melodic Tom", "Synth Drum", "Reverse Cymbal", "Guitar Fret Noise", "Breath Noise",
  "Seashore", "Bird Tweet", "Telephone Ring", "Helicopter", "Applause", "Gunshot"]

def drumKits : List (String × Nat) := [
  ("Standard", 0), ("Room", 8), ("Power", 16), ("Electronic", 24), ("Analog", 25), ("Jazz", 32),
  ("Brush", 40), ("Orchestra", 48), ("SFX", 56)]

def firstPercussionKey : Nat := 35

/-- The percussion sounds, in the order of their keys. -/
def percussionSounds : List String := [
  "Acoustic Bass Drum", "Bass Drum 1", "Side Stick", "Acoustic Snare", "Hand Clap",
  "Electric Snare", "Low Floor Tom", "Closed Hi Hat", "High Floor Tom", "Pedal Hi Hat", "Low Tom",
  "Open Hi Hat", "Low Mid Tom", "Hi Mid Tom", "Crash Cymbal 1", "High Tom", "Ride Cymbal 1",
  "Chinese Cymbal", "Ride Bell", "Tambourine", "Splash Cymbal", "Cowbell", "Crash Cymbal 2",
  "Vibraslap", "Ride Cymbal 2", "Hi Bongo", "Low Bongo", "Mute Hi Conga", "Open Hi Conga",
  "Low Conga", "High Timbale", "Low Timbale", "High Agogo", "Low Agogo", "Cabasa", "Maracas",
  "Short Whistle", "Long Whistle", "Short Guiro", "Long Guiro", "Claves", "Hi Wood Block",
  "Low Wood Block", "Mute Cuica", "Open Cuica", "Mute Triangle", "Open Triangle"]

/-- What counts of a name: its ASCII letters and digits, in lower case. -/
def core (name : List Char) : List Char :=
  lower (name.filter Char.isAlphanum)

def number? (name : List Char) : Option Nat :=
  numeralUpTo? 127 (trim name)

def placeOf? (names : List String) (name : List Char) : Option Nat :=
  names.findIdx? fun candidate => core candidate.toList = core name

def kitWord : List Char := ['k', 'i', 't']

def kitCore (name : List Char) : List Char :=
  let wanted := core name
  if kitWord.isSuffixOf wanted then wanted.dropLast.dropLast.dropLast else wanted

def instrument? (name : List Char) : Option Nat :=
  number? name <|> placeOf? instruments name

def drumKit? (name : List Char) : Option Nat :=
  number? name <|>
    (drumKits.find? fun kit => core kit.1.toList = kitCore name).map Prod.snd

def percussion? (name : List Char) : Option Nat :=
  number? name <|> (placeOf? percussionSounds name).map (firstPercussionKey + ·)

def instrument (name : String) : Except Fault Nat :=
  match instrument? name.toList with
  | some program => .ok program
  | none => .error (.unknown .instrument name)

def drumKit (name : String) : Except Fault Nat :=
  match drumKit? name.toList with
  | some program => .ok program
  | none => .error (.unknown .drumKit name)

def percussion (name : String) : Except Fault Nat :=
  match percussion? name.toList with
  | some key => .ok key
  | none => .error (.unknown .percussion name)

example : instruments.length = 128 := rfl

example : percussionSounds.length = 47 := rfl

end ChordGrid.GeneralMidi
