import ChordGrid.MidiFile.Bytes

/-!
# Reading MIDI files

A reader of the standard format, which knows nothing of how files are written here: chunks with
their lengths, times of variable length, channel messages of every kind with running status, system
exclusive and meta events. A track ends with its end mark and with its chunk at once. Times are
added up, so that each event is read at its own tick.
-/

namespace ChordGrid.MidiFile

/-- What a channel message says, whatever its channel. -/
inductive Voice where
  | noteOff (key velocity : Nat)
  | noteOn (key velocity : Nat)
  | keyPressure (key pressure : Nat)
  | control (controller value : Nat)
  | program (number : Nat)
  | channelPressure (pressure : Nat)
  | pitchBend (low high : Nat)
  deriving DecidableEq, Repr

inductive Reading where
  | voice (channel : Nat) (voice : Voice)
  | tempo (microseconds : Nat)
  | trackName (letters : List UInt8)
  | endOfTrack
  | other (mark : UInt8) (body : List UInt8)
  | exclusive (body : List UInt8)
  deriving DecidableEq, Repr

structure ReadEvent where
  tick : Nat
  event : Reading
  deriving DecidableEq, Repr

structure Contents where
  format : Nat
  ticksPerQuarter : Nat
  tracks : List (List ReadEvent)
  deriving DecidableEq, Repr

/-! ### Numbers -/

/-- The number of some bytes, the highest first. -/
def number (bytes : List UInt8) : Nat :=
  bytes.foldl (fun n byte => 256 * n + byte.toNat) 0

def take? (count : Nat) (bytes : List UInt8) : Option (List UInt8 × List UInt8) :=
  if count ≤ bytes.length then some (bytes.take count, bytes.drop count) else none

/-- A quantity of variable length that goes on from `n`, in at most so many bytes. -/
def readQuantity? (n : Nat) : Nat → List UInt8 → Option (Nat × List UInt8)
  | 0, _ => none
  | _ + 1, [] => none
  | most + 1, byte :: rest =>
    if byte.toNat < 128 then some (128 * n + byte.toNat, rest)
    else readQuantity? (128 * n + byte.toNat % 128) most rest

def longestQuantity : Nat := 4

/-! ### Events -/

def readOne? (voice : Nat → Voice) : List UInt8 → Option (Voice × List UInt8)
  | a :: rest => if a.toNat < 128 then some (voice a.toNat, rest) else none
  | [] => none

def readTwo? (voice : Nat → Nat → Voice) : List UInt8 → Option (Voice × List UInt8)
  | a :: b :: rest =>
    if a.toNat < 128 ∧ b.toNat < 128 then some (voice a.toNat b.toNat, rest) else none
  | _ => none

/-- The data bytes that follow a status byte. -/
def readVoice? (status : Nat) (bytes : List UInt8) : Option (Voice × List UInt8) :=
  match status / 16 with
  | 0x8 => readTwo? .noteOff bytes
  | 0x9 => readTwo? .noteOn bytes
  | 0xA => readTwo? .keyPressure bytes
  | 0xB => readTwo? .control bytes
  | 0xC => readOne? .program bytes
  | 0xD => readOne? .channelPressure bytes
  | 0xE => readTwo? .pitchBend bytes
  | _ => none

/-- A body after its length. -/
def readBody? (bytes : List UInt8) : Option (List UInt8 × List UInt8) := do
  let (length, rest) ← readQuantity? 0 longestQuantity bytes
  take? length rest

def Reading.ofMeta (mark : UInt8) (body : List UInt8) : Reading :=
  if mark = 0x2F ∧ body = [] then .endOfTrack
  else if mark = 0x51 ∧ body.length = 3 then .tempo (number body)
  else if mark = 0x03 then .trackName body
  else .other mark body

def readMeta? : List UInt8 → Option (Reading × List UInt8)
  | [] => none
  | mark :: bytes => do
    let (body, rest) ← readBody? bytes
    return (.ofMeta mark body, rest)

/-- A channel message, and its status as the one that is running then. -/
def readMessage? (status : UInt8) (bytes : List UInt8) :
    Option ((Reading × Option UInt8) × List UInt8) := do
  let (voice, rest) ← readVoice? status.toNat bytes
  return ((.voice (status.toNat % 16) voice, some status), rest)

/-- An event after the status `running`, and the status that is running then. A data byte where an
event begins means that the running status is left out. -/
def readEvent? (running : Option UInt8) :
    List UInt8 → Option ((Reading × Option UInt8) × List UInt8)
  | [] => none
  | byte :: rest =>
    if byte.toNat < 0x80 then do
      let status ← running
      readMessage? status (byte :: rest)
    else if byte.toNat < 0xF0 then readMessage? byte rest
    else if byte.toNat = 0xFF then do
      let (event, rest) ← readMeta? rest
      return ((event, none), rest)
    else if byte.toNat = 0xF0 ∨ byte.toNat = 0xF7 then do
      let (body, rest) ← readBody? rest
      return ((.exclusive body, none), rest)
    else none

/-- The events up to the end of a track, where `now` is the tick of the one before them. -/
def readEvents? (running : Option UInt8) (now : Nat) (bytes : List UInt8) :
    Option (List ReadEvent) := do
  let (delta, rest) ← readQuantity? 0 longestQuantity bytes
  let ((event, running), rest) ← readEvent? running rest
  if event = .endOfTrack then
    if rest = [] then some [⟨now + delta, .endOfTrack⟩] else none
  else if rest.length < bytes.length then
    (readEvents? running (now + delta) rest).map (⟨now + delta, event⟩ :: ·)
  else none
termination_by bytes.length

/-! ### Files -/

def headerLetters : List UInt8 := [0x4D, 0x54, 0x68, 0x64]

def trackLetters : List UInt8 := [0x4D, 0x54, 0x72, 0x6B]

/-- The body of a chunk of some letters, and what comes after it. -/
def readChunk? (letters bytes : List UInt8) : Option (List UInt8 × List UInt8) := do
  let (found, rest) ← take? 4 bytes
  let (length, rest) ← take? 4 rest
  if found = letters then take? (number length) rest else none

def readTracks? : Nat → List UInt8 → Option (List (List ReadEvent) × List UInt8)
  | 0, bytes => some ([], bytes)
  | count + 1, bytes => do
    let (body, rest) ← readChunk? trackLetters bytes
    let track ← readEvents? none 0 body
    let (tracks, rest) ← readTracks? count rest
    return (track :: tracks, rest)

/-- A file whose time counts in parts of a quarter note, and the bytes after it. -/
def readFile? (bytes : List UInt8) : Option (Contents × List UInt8) := do
  let (header, rest) ← readChunk? headerLetters bytes
  let (format, header) ← take? 2 header
  let (count, header) ← take? 2 header
  let (division, _) ← take? 2 header
  if number division < 0x8000 then
    let (tracks, rest) ← readTracks? (number count) rest
    return (⟨number format, number division, tracks⟩, rest)
  else none

end ChordGrid.MidiFile
