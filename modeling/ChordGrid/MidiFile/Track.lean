import ChordGrid.Message
import ChordGrid.MidiFile.Bytes

namespace ChordGrid.MidiFile

inductive Event where
  | tempo (microseconds : Nat)
  | trackName (name : String)
  | message (message : Message)
  | endOfTrack
  deriving DecidableEq, Repr

/-- An event and the ticks since the one before it. -/
structure TrackEvent where
  delta : Nat
  event : Event
  deriving DecidableEq, Repr

/-- The status byte of a message: its type above its channel. -/
def status : Message → UInt8
  | .noteOff channel _ => UInt8.ofNat (0x80 + channel)
  | .noteOn channel _ _ => UInt8.ofNat (0x90 + channel)
  | .control channel _ _ => UInt8.ofNat (0xB0 + channel)
  | .program channel _ => UInt8.ofNat (0xC0 + channel)

def dataByte (n : Nat) : UInt8 :=
  UInt8.ofNat (n % 128)

/-- The data bytes of a message. A release has velocity zero. -/
def dataBytes : Message → List UInt8
  | .noteOff _ pitch => [dataByte pitch, 0]
  | .noteOn _ pitch velocity => [dataByte pitch, dataByte velocity]
  | .control _ controller value => [dataByte controller, dataByte value]
  | .program _ number => [dataByte number]

def metaMark : UInt8 := 0xFF

def nameMark : UInt8 := 0x03

def endMark : UInt8 := 0x2F

def tempoMark : UInt8 := 0x51

/-- The bytes of an event after the status `running`, and the status that is running then. -/
def eventBytes (running : Option UInt8) : Event → List UInt8 × Option UInt8
  | .tempo microseconds =>
    (metaMark :: tempoMark :: quantity 3 ++ fixed 3 microseconds, none)
  | .trackName name =>
    (metaMark :: nameMark :: quantity name.utf8ByteSize ++ name.toUTF8.toList, none)
  | .endOfTrack => (metaMark :: endMark :: quantity 0, none)
  | .message message =>
    if running = some (status message) then (dataBytes message, running)
    else (status message :: dataBytes message, some (status message))

/-- The bytes of events, the time before each of them cut to 28 bits. -/
def eventsBytes (running : Option UInt8) : List TrackEvent → List UInt8
  | [] => []
  | e :: rest =>
    let (bytes, running) := eventBytes running e.event
    quantity (e.delta % 0x10000000) ++ bytes ++ eventsBytes running rest

/-- A chunk: four letters, the length of what follows, and that. -/
def chunk (letters : String) (bytes : List UInt8) : List UInt8 :=
  letters.toUTF8.toList ++ fixed 4 bytes.length ++ bytes

def trackBytes (events : List TrackEvent) : List UInt8 :=
  chunk "MTrk" (eventsBytes none events)

end ChordGrid.MidiFile
