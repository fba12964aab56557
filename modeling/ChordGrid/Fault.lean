namespace ChordGrid

inductive GridKind where
  | pitched
  | drum
  deriving DecidableEq, Repr

inductive Noun where
  | key
  | mode
  | degree
  | phraseType
  | percussion
  | instrument
  | drumKit
  | pan
  deriving DecidableEq, Repr

inductive VoiceField where
  | inst
  | oct
  | pre
  | post
  deriving DecidableEq, Repr

inductive Level where
  | pan
  | volume
  deriving DecidableEq, Repr

inductive SettingsFault where
  | unevenTicks (ticks : Nat)
  | ticksTooFine (ticks : Nat)
  | velocity (value : Nat)
  | controller (value : Nat)
  | noTempo
  deriving DecidableEq, Repr

/-- Where a document stands: a directory, empty for text that is not in a file, and a name in it. -/
structure Place where
  directory : String
  file : String
  deriving DecidableEq, Repr

inductive Fault where
  | segmentLength (segment : String) (length : Nat)
  | invalidCell (cell : Char) (index : Nat) (grid : GridKind)
  | danglingSustain (index : Nat)
  | beatCount (measure : String) (count : Nat)
  | blankDownbeat (measure : String)
  | unsupportedSplit (measure : String) (split : List Nat)
  | unbalancedBrackets (text : String)
  | emptyPattern (name : String)
  | voiceCount (phrase : String) (field : VoiceField) (voices entries : Nat)
  | missingGrid (phrase kind : String)
  | unknown (noun : Noun) (name : String)
  | unknownPattern (name : String)
  | stepOutOfRange (step : Nat)
  | pitchOutOfRange (pitch : Int)
  | octaveOutOfRange (octave : Int)
  | channelOutOfRange (channel : Nat)
  | levelOutOfRange (level : Level) (value : Nat)
  | settings (reason : SettingsFault)
  | unreadable (place : Place)
  | malformed (place : Place)
  | unwritable (place : Place)
  | aborted (text : String)
  | playing
  | endlessDraw
  deriving DecidableEq, Repr

def GridKind.word : GridKind → String
  | .pitched => "pitched"
  | .drum => "drum"

def Noun.word : Noun → String
  | .key => "key"
  | .mode => "mode"
  | .degree => "degree"
  | .phraseType => "phrase type"
  | .percussion => "percussion"
  | .instrument => "instrument"
  | .drumKit => "drum kit"
  | .pan => "pan"

def VoiceField.word : VoiceField → String
  | .inst => "inst"
  | .oct => "oct"
  | .pre => "pre"
  | .post => "post"

def Level.word : Level → String
  | .pan => "pan"
  | .volume => "volume"

def SettingsFault.message : SettingsFault → String
  | .unevenTicks ticks => s!"ticks_per_quarter {ticks} must be a positive multiple of 16"
  | .ticksTooFine ticks => s!"ticks_per_quarter {ticks} does not fit a MIDI header"
  | .velocity value => s!"velocity {value} is outside 0-127"
  | .controller value => s!"controller {value} is outside 0-127"
  | .noTempo => "tempo_bpm must be positive"

def Place.path (place : Place) : String :=
  if place.directory.isEmpty then place.file else place.directory ++ "/" ++ place.file

/-- A split of a measure as it is written in a message: the lengths joined by plus signs. -/
def splitText (split : List Nat) : String :=
  "+".intercalate (split.map toString)

/-- The wording of a fault, where `showPlace` writes the place of a document. -/
def Fault.wording (showPlace : Place → String) : Fault → String
  | .segmentLength segment length => s!"beat segment '{segment}' has {length} cells, expected 4"
  | .invalidCell cell index grid => s!"invalid cell '{cell}' at index {index} in {grid.word} grid"
  | .danglingSustain index => s!"sustain at cell {index} does not follow a pitched cell"
  | .beatCount measure count => s!"measure '{measure}' has {count} beats, expected 4"
  | .blankDownbeat measure => s!"measure '{measure}' starts with a blank beat"
  | .unsupportedSplit measure split =>
    s!"measure '{measure}' splits its beats as {splitText split}, which is not supported"
  | .unbalancedBrackets text => s!"unbalanced brackets in '{text}'"
  | .emptyPattern name => s!"pattern '{name}' has no measures"
  | .voiceCount phrase field voices entries =>
    s!"phrase '{phrase}' has {entries} '{field.word}' entries for {voices} voices"
  | .missingGrid phrase kind => s!"phrase '{phrase}' of type {kind} has no note grid"
  | .unknown noun name => s!"unknown {noun.word} '{name}'"
  | .unknownPattern name => s!"song refers to unknown pattern '{name}'"
  | .stepOutOfRange step => s!"scale step {step} is outside 1-7"
  | .pitchOutOfRange pitch => s!"resolved pitch {pitch} is outside the MIDI range 0-127"
  | .octaveOutOfRange octave => s!"octave offset {octave} is too large"
  | .channelOutOfRange channel => s!"MIDI channel {channel} is outside 0-15"
  | .levelOutOfRange level value => s!"{level.word} {value} is outside 0-127"
  | .settings reason => s!"invalid configuration: {reason.message}"
  | .unreadable place => s!"cannot read {showPlace place}"
  | .malformed place => s!"invalid JSON in {showPlace place}"
  | .unwritable place => s!"cannot write MIDI file {showPlace place}"
  | .aborted text => s!"rebuild aborted: {text}"
  | .playing => "cannot export while playback is running"
  | .endlessDraw => "the generator accepts no draw"

def Fault.message : Fault → String :=
  Fault.wording Place.path

/-- The text of a fault with documents shown by their names alone. -/
def Fault.brief : Fault → String :=
  Fault.wording Place.file

end ChordGrid
