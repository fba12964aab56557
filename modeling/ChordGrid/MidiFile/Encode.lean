import ChordGrid.MidiFile.Track
import ChordGrid.Resolution

namespace ChordGrid.MidiFile

/-- The length of a quarter note, where no tempo counts as one beat per minute. -/
def microsecondsPerQuarter (tempo : Nat) : Nat :=
  60000000 / max tempo 1

def tempoTrack (tempo : Nat) : List TrackEvent :=
  [⟨0, .tempo (microsecondsPerQuarter tempo % 0x1000000)⟩, ⟨0, .endOfTrack⟩]

def channelName (channel : Nat) : String :=
  if channel = drumChannel then "Drums" else s!"Channel {channel + 1}"

/-- Messages with the ticks since the latest one before them. `latest` is the highest tick so far,
and a message behind it follows at once. -/
def deltas (latest : Nat) : List Timed → List TrackEvent
  | [] => []
  | timed :: rest =>
    ⟨timed.tick - latest, .message timed.message⟩ :: deltas (max latest timed.tick) rest

def onChannel (stream : List Timed) (channel : Nat) : List Timed :=
  stream.filter fun timed => timed.message.channel = channel

def channelTrack (stream : List Timed) (channel : Nat) : List TrackEvent :=
  ⟨0, .trackName (channelName channel)⟩ :: deltas 0 (onChannel stream channel) ++
    [⟨0, .endOfTrack⟩]

def channels (stream : List Timed) : List Nat :=
  (List.range channelCount).filter fun channel =>
    stream.any fun timed => timed.message.channel = channel

def tracks (stream : List Timed) (tempo : Nat) : List (List TrackEvent) :=
  tempoTrack tempo :: (channels stream).map (channelTrack stream)

def header (trackCount : Nat) (r : Resolution) : List UInt8 :=
  chunk "MThd" (fixed 2 1 ++ fixed 2 trackCount ++ fixed 2 r.ticksPerQuarter)

/-- The bytes of a stream as a file; none if it uses a channel that does not exist. -/
def encode? (stream : List Timed) (tempo : Nat) (r : Resolution) : Option (List UInt8) :=
  if stream.all fun timed => timed.message.channel < channelCount then
    let made := tracks stream tempo
    some (header made.length r ++ made.flatMap trackBytes)
  else none

end ChordGrid.MidiFile
