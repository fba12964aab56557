import ChordGrid.Score.Document

namespace ChordGrid

inductive Entry where
  | file (content : ByteArray)
  | folder

structure Directory where
  name : String
  entries : List (String × Entry)

namespace Directory

def entry? (directory : Directory) (file : String) : Option Entry :=
  directory.entries.lookup file

def place (directory : Directory) (file : String) : Place :=
  ⟨directory.name, file⟩

def text (directory : Directory) (file : String) : Except Fault String :=
  match directory.entry? file with
  | some (.file content) =>
    match String.fromUTF8? content with
    | some text => .ok text
    | none => .error (.unreadable (directory.place file))
  | _ => .error (.unreadable (directory.place file))

def document {α : Type} (directory : Directory) (file : String) (read : Json → Option α) :
    Except Fault α := do
  let text ← directory.text file
  match (Json.ofText? text).bind read with
  | some found => .ok found
  | none => .error (.malformed (directory.place file))

end Directory

def songFile : String := "song.json"

def patternFile : String := "pattern.json"

def phraseFile : String := "phrase.json"

def playerFile : String := "player.json"

def mixerFile : String := "mixer.json"

def scoreFiles : List String :=
  [songFile, patternFile, phraseFile, playerFile, mixerFile]

/-- The faders of a directory: none without a mixer. -/
def Directory.faders (directory : Directory) : Except Fault (List FaderEntry) :=
  match directory.entry? mixerFile with
  | none => .ok []
  | some _ => directory.document mixerFile (Json.onlyField? "mixer" Json.mixerFaders?)

def Score.load (directory : Directory) : Except Fault Score := do
  let song ← directory.document songFile (Json.onlyField? "song" SongEntry.ofJson?)
  let patterns ← directory.document patternFile
    (Json.onlyField? "pattern" (Json.list? PatternEntry.ofJson?))
  let phrases ← directory.document phraseFile
    (Json.onlyField? "phrase" (Json.list? PhraseEntry.ofJson?))
  let parts ← directory.document playerFile
    (Json.onlyField? "player" (Json.list? PartEntry.ofJson?))
  let faders ← directory.faders
  return { song, patterns, phrases, parts, faders }

def Settings.ofText (text : String) : Except Fault Settings :=
  match (Json.ofText? text).bind Settings.ofJson? with
  | some settings => .ok settings
  | none => .error (.malformed ⟨"", "config"⟩)

def Settings.load (directory : Directory) (file : String) : Except Fault Settings := do
  let settings ← directory.document file Settings.ofJson?
  settings.check
  return settings

end ChordGrid
