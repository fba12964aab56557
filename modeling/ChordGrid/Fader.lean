import ChordGrid.Bits
import ChordGrid.Part
import ChordGrid.Text.Numeral

namespace ChordGrid

open Text

inductive Pan where
  | left
  | center
  | right
  | dial (value : Nat)
  deriving DecidableEq, Repr

namespace Pan

def value : Pan → Nat
  | left => 0
  | center => 64
  | right => 127
  | dial value => value

def names : List (String × Pan) :=
  [("left", left), ("l", left), ("center", center), ("centre", center), ("c", center),
    ("right", right), ("r", right)]

/-- The pan of a name or a number, blank ends and ASCII case ignored. -/
def parse (name : String) : Except Fault Pan :=
  let wanted := lower (trim name.toList)
  match names.lookup (String.ofList wanted) with
  | some pan => .ok pan
  | none =>
    match numeralUpTo? (topOf 32) wanted with
    | some value => if value ≤ 127 then .ok (.dial value) else .error (.levelOutOfRange .pan value)
    | none => .error (.unknown .pan name)

end Pan

structure Fader where
  kind : PhraseKind
  volume : Nat
  pan : Pan
  mute : Bool
  deriving DecidableEq, Repr

namespace Fader

def new (kind : PhraseKind) (volume : Nat) (pan : Pan) (mute : Bool) : Except Fault Fader :=
  if volume ≤ 127 then .ok { kind, volume, pan, mute }
  else .error (.levelOutOfRange .volume volume)

/-- The fader of names as they are written: the kind is read first, then the pan. -/
def parse (kind : String) (volume : Nat) (pan : String) (mute : Bool) : Except Fault Fader := do
  let kind ← PhraseKind.parse kind
  let pan ← Pan.parse pan
  new kind volume pan mute

/-- The messages that set a channel. A muted fader turns the volume to zero. -/
def messages (fader : Fader) (channel : Nat) : List Message :=
  [.control channel volumeController (if fader.mute then 0 else fader.volume),
    .control channel panController fader.pan.value]

end Fader

/-- What every fader sends to every part of its kind, all at tick zero. -/
def mixdown (faders : List Fader) (parts : List Part) : List Timed :=
  faders.flatMap fun fader =>
    (parts.filter fun part => part.kind = fader.kind).flatMap fun part =>
      (fader.messages part.channel).map (Timed.mk 0)

end ChordGrid
