namespace ChordGrid

inductive Message where
  | noteOn (channel pitch velocity : Nat)
  | noteOff (channel pitch : Nat)
  | control (channel controller value : Nat)
  | program (channel number : Nat)
  deriving DecidableEq, Repr

def channelCount : Nat := 16

/-- The channel that General MIDI keeps for percussion. -/
def drumChannel : Nat := 9

def volumeController : Nat := 7

def panController : Nat := 10

namespace Message

def channel : Message → Nat
  | noteOn channel _ _ => channel
  | noteOff channel _ => channel
  | control channel _ _ => channel
  | program channel _ => channel

/-- The order within a tick: setup, then releases, then attacks. A key that is released and struck
at once is released first. -/
def rank : Message → Nat
  | control _ _ _ => 0
  | program _ _ => 0
  | noteOff _ _ => 1
  | noteOn _ _ _ => 2

/-- Whether a message sets a channel up and sounds nothing. -/
def isSetup (message : Message) : Bool :=
  message.rank = 0

def isNoteOf (channel pitch : Nat) : Message → Bool
  | noteOn c p _ => c = channel && p = pitch
  | noteOff c p => c = channel && p = pitch
  | _ => false

def text : Message → String
  | noteOn channel pitch velocity => s!"ch{channel} note-on {pitch} vel {velocity}"
  | noteOff channel pitch => s!"ch{channel} note-off {pitch}"
  | control channel controller value => s!"ch{channel} cc{controller}={value}"
  | program channel number => s!"ch{channel} program {number}"

end Message

structure Timed where
  tick : Nat
  message : Message
  deriving DecidableEq, Repr

namespace Timed

def text (timed : Timed) : String :=
  s!"tick={timed.tick} {timed.message.text}"

end Timed

end ChordGrid
