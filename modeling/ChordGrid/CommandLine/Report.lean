import ChordGrid.CommandLine.Usage
import ChordGrid.MidiFile.Encode
import ChordGrid.Score.Directory
import ChordGrid.Playhead

namespace ChordGrid

namespace Playhead

/-- The number of quanta after which an edition has ended, wherever it was started. -/
def quantaOf (playhead : Playhead) (valid : Live.Publication) : Nat :=
  match valid.edition.roll.finalTick? with
  | some last => last / playhead.resolution.quantum + 1
  | none => 0

def performance (playhead : Playhead) (valid : Live.Publication) (settings : Settings)
    (tick : Nat) : List Timed :=
  let (setup, started) := playhead.start valid tick
  let (deliveries, ended) := started.run valid (started.quantaOf valid)
  setup ++ deliveries.flatMap Delivery.sent ++ ended.silence settings

end Playhead

namespace CommandLine

/-- What a job comes to. The lines are printed once the file is written. -/
structure Report where
  lines : List String := []
  played : List Timed := []
  file : Option (String × List UInt8) := none

def partLine (part : Part) : String :=
  let channel := padRight 2 (toString part.channel)
  let kind := padRight 5 part.kind.name
  let program := padLeft 3 (toString part.program.number)
  s!"  ch{channel} {kind} program {program}, {part.phrases.length} phrase(s)"

def checkLines (name : String) (arrangement : Arrangement) (roll : Roll) : List String :=
  let timeline := arrangement.timeline
  let tonality := timeline.tonality
  [s!"Song: {name}", s!"Key: {tonality.key.name} {tonality.mode.abbreviation}",
    s!"Tempo: {arrangement.tempo} BPM", s!"Pattern instances: {timeline.occurrences.length}",
    s!"Length: {timeline.length} ticks"] ++
  arrangement.parts.map partLine ++ [s!"Messages: {roll.size}"]

def check (score : Score) (settings : Settings) : Except Fault Report := do
  let arrangement ← score.compile settings
  let roll ← (arrangement.build 0 .wholeSong).1
  return { lines := checkLines score.song.name arrangement roll }

def exportTo (output : String) (score : Score) (settings : Settings) : Except Fault Report := do
  let r ← settings.resolution
  let desk ← Live.Desk.load score settings
  let playhead ← Playhead.atRest settings
  let stream ← playhead.exported desk.valid
  match MidiFile.encode? stream desk.valid.edition.tempo r with
  | some bytes =>
    return {
      lines := [s!"Wrote {stream.length} messages to {output}"]
      file := some (output, bytes) }
  | none => throw (.unwritable ⟨"", output⟩)

def play (fromMeasure : Nat) (score : Score) (settings : Settings) : Except Fault Report := do
  let desk ← Live.Desk.load score settings
  let playhead ← Playhead.atRest settings
  let start := playhead.resolution.startOfMeasure fromMeasure
  return { played := playhead.performance desk.valid settings start }

namespace Invocation

/-- The settings of an invocation. A seed on the command line wins over one in the settings, and
without either the clock gives one. -/
def settings (invocation : Invocation) (config : Option (Directory × String)) (clock : UInt64) :
    Except Fault Settings := do
  let settings ← match config with
    | some (directory, file) => Settings.load directory file
    | none => .ok {}
  return { settings with seed := invocation.seed <|> settings.seed <|> some clock }

def perform (invocation : Invocation) (settings : Settings) (song : Directory) :
    Except Fault Report := do
  let score ← Score.load song
  match invocation.job with
  | .check _ => check score settings
  | .export _ output => exportTo output score settings
  | .play _ fromMeasure _ => play fromMeasure score settings

end Invocation

end CommandLine

end ChordGrid
