import ChordGrid.CommandLine.Arguments

namespace ChordGrid.CommandLine

def Verb.about : Verb → String
  | .check => "Compile a song directory and report what it produces"
  | .export => "Export a song directory to a Standard MIDI File"
  | .play => "Play a song directory against the log output"

def helpAbout : String := "Print this message or the help of the given subcommand(s)"

def Flag.usage : Flag → String × String
  | .config => ("      --config <CONFIG>", "Engine configuration file (JSON)")
  | .seed =>
    ("      --seed <SEED>", "Seed for generative phrases (default: from config, else the clock)")
  | .verbose => ("  -v, --verbose...", "More logging (repeatable)")
  | .quiet => ("  -q, --quiet", "Errors only")
  | .help => ("  -h, --help", "Print help")
  | .output => ("  -o, --output <OUTPUT>", "Output MIDI file [default: output.mid]")
  | .fromMeasure =>
    ("      --from-measure <FROM_MEASURE>", "Measure to start from (0-based) [default: 0]")
  | .noWatch => ("      --no-watch", "Do not rebuild when the directory changes")

def Verb.helpOrder : Verb → List Flag
  | .check => Flag.general
  | .export => [.config, .output, .seed, .verbose, .quiet, .help]
  | .play => [.config, .fromMeasure, .noWatch, .seed, .verbose, .quiet, .help]

def padRight (width : Nat) (text : String) : String :=
  text ++ String.ofList (List.replicate (width - text.length) ' ')

def padLeft (width : Nat) (text : String) : String :=
  String.ofList (List.replicate (width - text.length) ' ') ++ text

def columns (entries : List (String × String)) : List String :=
  let width := (entries.map fun entry => entry.1.length).foldl max 0
  entries.map fun entry => padRight (width + 2) entry.1 ++ entry.2

def optionLines (topic : Topic) : List String :=
  match topic with
  | .program => columns (Flag.general.map Flag.usage)
  | .verb verb => columns (verb.helpOrder.map Flag.usage)
  | .help => []

def helpLines (program : String) (topic : Topic) : List String :=
  match topic with
  | .program =>
    ["Compile chord and rhythm grids to MIDI", "", s!"Usage: {program} [OPTIONS] <COMMAND>", "",
      "Commands:"] ++
    columns ((Verb.all.map fun verb => ("  " ++ verb.word, verb.about)) ++
      [("  help", helpAbout)]) ++
    ["", "Options:"] ++ optionLines topic
  | .verb verb =>
    [verb.about, "", s!"Usage: {program} {verb.word} [OPTIONS] <DIR>", "", "Arguments:",
      "  <DIR>  Song directory", "", "Options:"] ++ optionLines topic
  | .help =>
    [helpAbout, "", s!"Usage: {program} help [COMMAND]...", "", "Arguments:",
      "  [COMMAND]...  Print help for the subcommand(s)"]

end ChordGrid.CommandLine
