import ChordGrid.CommandLine.Report
import ChordGrid.Live.Calls

namespace ChordGrid.CommandLine

def entryAt? (path : String) : IO (Option Entry) := do
  try
    return some (.file (← IO.FS.readBinFile path))
  catch
    | .noFileOrDirectory _ _ _ => return none
    | _ => return some .folder

def readDirectory (name : String) (files : List String) : IO Directory := do
  let found ← files.filterMapM fun file => do
    return (← entryAt? (name ++ "/" ++ file)).map (file, ·)
  return ⟨name, found⟩

/-- The file at a path, as the only one of a directory without a name. -/
def readConfig (path : String) : IO (Directory × String) := do
  let found ← entryAt? path
  return (⟨"", (found.map (path, ·)).toList⟩, path)

def fail (fault : Fault) : IO UInt32 := do
  IO.eprintln s!"Error: {fault.message}"
  return 1

def quantumTime (desk : Live.Desk) : Nat :=
  60000 / max desk.valid.edition.tempo 1 / (beatsPerMeasure * quantaPerCell)

def log (quiet : Bool) (stream : List Timed) : IO Unit := do
  unless quiet do
    for timed in stream do IO.println timed.text

def sameFiles (a b : Directory) : Bool :=
  let bytes (entry : String × Entry) : String × Option (List UInt8) :=
    match entry.2 with
    | .file content => (entry.1, some content.toList)
    | .folder => (entry.1, none)
  a.entries.map bytes == b.entries.map bytes

def loadOf (directory : Directory) : Live.Load :=
  match Score.load directory with
  | .ok score => .score score
  | .error fault => .failure fault

/-- Plays on until the end, one quantum at a time. A directory that is watched and has changed is
taken in before the next quantum. -/
partial def playOn (quiet watch : Bool) (desk : Live.Desk) (song : Directory)
    (playhead : Playhead) (due : Nat) : IO Unit := do
  if playhead.hasEnded desk.valid then
    log quiet (playhead.silence desk.settings)
  else
    let now ← if watch then readDirectory song.name scoreFiles else pure song
    let desk := if sameFiles now song then desk else desk.request (loadOf now)
    let (delivery, playhead) := playhead.advance desk.valid
    log quiet delivery.sent
    let due := due + quantumTime desk
    let time ← IO.monoMsNow
    IO.sleep (due - time).toUInt32
    playOn quiet watch desk now playhead due

def playLive (invocation : Invocation) (settings : Settings) (song : Directory)
    (fromMeasure : Nat) (watch : Bool) : IO UInt32 := do
  let ready : Except Fault (Live.Desk × Playhead) := do
    let score ← Score.load song
    return (← Live.Desk.load score settings, ← Playhead.atRest settings)
  match ready with
  | .error fault => fail fault
  | .ok (desk, playhead) =>
    let (setup, playhead) :=
      playhead.start desk.valid (playhead.resolution.startOfMeasure fromMeasure)
    log invocation.quiet setup
    playOn invocation.quiet watch desk song playhead (← IO.monoMsNow)
    return 0

def deliverReport (report : Report) : IO UInt32 := do
  if let some (path, bytes) := report.file then
    try
      IO.FS.writeBinFile path ⟨bytes.toArray⟩
    catch _ =>
      return ← fail (.unwritable ⟨"", path⟩)
  for line in report.lines do IO.println line
  return 0

def carryOut (invocation : Invocation) : IO UInt32 := do
  let config ← invocation.config.mapM readConfig
  let clock := UInt64.ofNat (← IO.monoNanosNow)
  match invocation.settings config clock with
  | .error fault => fail fault
  | .ok settings =>
    let song ← readDirectory invocation.job.directory scoreFiles
    match invocation.job with
    | .play _ fromMeasure watch => playLive invocation settings song fromMeasure watch
    | _ =>
      match invocation.perform settings song with
      | .error fault => fail fault
      | .ok report => deliverReport report

/-- Carries out a command line. The status is 1 for a fault and 2 for unusable arguments. -/
def run (args : List String) : IO UInt32 := do
  match Invocation.parse args with
  | .ok invocation => carryOut invocation
  | .error (.askedForHelp topic) =>
    for line in helpLines "chordgrid" topic do IO.println line
    return 0
  | .error .unusable =>
    IO.eprintln "error: unusable arguments; try --help"
    return 2

end ChordGrid.CommandLine

def main (args : List String) : IO UInt32 :=
  ChordGrid.CommandLine.run args
