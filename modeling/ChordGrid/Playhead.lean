import ChordGrid.Live.Desk

/-!
# The playhead

The playhead plays the edition that is valid at the moment, one quantum at a time, so an edition
published in between is heard from the next quantum on. It remembers the keys it has left sounding
and releases those that a new edition does not release itself. A start in mid-song first sends the
setup that comes before it.
-/

namespace ChordGrid

open Live

structure KeyOn where
  channel : Nat
  pitch : Nat
  deriving DecidableEq, Repr

namespace KeyOn

def before (a b : KeyOn) : Bool :=
  a.channel < b.channel || (a.channel = b.channel && a.pitch < b.pitch)

def insert (key : KeyOn) : List KeyOn → List KeyOn
  | [] => [key]
  | other :: rest =>
    if key = other then other :: rest
    else if before key other then key :: other :: rest
    else other :: insert key rest

def after (sounding : List KeyOn) : Message → List KeyOn
  | .noteOn channel pitch _ => insert ⟨channel, pitch⟩ sounding
  | .noteOff channel pitch => sounding.filter (· ≠ ⟨channel, pitch⟩)
  | _ => sounding

/-- Whether a roll releases a key before it strikes it again, from a tick on. -/
def isReleasedBy (roll : Roll) (tick : Nat) (key : KeyOn) : Bool :=
  match roll.nextNote? tick key.channel key.pitch with
  | some (.noteOff _ _) => true
  | _ => false

end KeyOn

structure Playhead where
  resolution : Resolution
  position : Nat
  playing : Bool
  /-- The serial of the publication that the last quantum was played from. -/
  seen : Option Nat
  /-- The keys struck and not released, in order. -/
  sounding : List KeyOn
  deriving DecidableEq, Repr

/-- What one quantum sends: the releases of keys that a new edition has dropped, then what the
edition holds. -/
structure Delivery where
  released : List Timed
  dispatched : List Timed
  deriving DecidableEq, Repr

namespace Delivery

def sent (delivery : Delivery) : List Timed :=
  delivery.released ++ delivery.dispatched

/-- The number that an advance answers: what the edition held for the quantum. -/
def count (delivery : Delivery) : Nat :=
  delivery.dispatched.length

def nothing : Delivery :=
  ⟨[], []⟩

end Delivery

namespace Playhead

def atRest (settings : Settings) : Except Fault Playhead := do
  let resolution ← settings.resolution
  return { resolution, position := 0, playing := false, seen := none, sounding := [] }

/-- Begins to play at the start of the quantum that holds a tick: what is sent, and the playhead
after it. -/
def start (playhead : Playhead) (valid : Publication) (tick : Nat) : List Timed × Playhead :=
  let position := tick - tick % playhead.resolution.quantum
  ((valid.edition.roll.setupUpTo position).map (Timed.mk position),
    { playhead with position, playing := true, seen := some valid.serial, sounding := [] })

/-- The sounding keys that a publication drops. There are none unless it is not the one that the
last quantum was played from. -/
def orphans (playhead : Playhead) (valid : Publication) : List KeyOn :=
  match playhead.seen with
  | none => []
  | some serial =>
    if serial = valid.serial then []
    else playhead.sounding.filter fun key =>
      !key.isReleasedBy valid.edition.roll playhead.position

def nextPosition (playhead : Playhead) : Nat :=
  min lastTick (playhead.position + playhead.resolution.quantum)

/-- Plays one quantum. A playhead at rest sends nothing. -/
def advance (playhead : Playhead) (valid : Publication) : Delivery × Playhead :=
  if playhead.playing then
    let dropped := playhead.orphans valid
    let released := dropped.map fun key =>
      (⟨playhead.position, .noteOff key.channel key.pitch⟩ : Timed)
    let dispatched := valid.edition.roll.window playhead.position playhead.nextPosition
    let kept := playhead.sounding.filter (· ∉ dropped)
    (⟨released, dispatched⟩,
      { playhead with
        position := playhead.nextPosition
        seen := some valid.serial
        sounding := (dispatched.map Timed.message).foldl KeyOn.after kept })
  else (.nothing, playhead)

/-- Whether the cursor has passed every message of the edition. -/
def hasEnded (playhead : Playhead) (valid : Publication) : Bool :=
  match valid.edition.roll.finalTick? with
  | some last => last < playhead.position
  | none => true

/-- Plays quanta until the end, or until there is no way to get there, but at most so many. -/
def run (playhead : Playhead) (valid : Publication) : Nat → List Delivery × Playhead
  | 0 => ([], playhead)
  | count + 1 =>
    if playhead.hasEnded valid || !playhead.playing then ([], playhead)
    else
      let (delivery, after) := playhead.advance valid
      let (deliveries, last) := after.run valid count
      (delivery :: deliveries, last)

def silence (playhead : Playhead) (settings : Settings) : List Timed :=
  (List.range channelCount).map fun channel =>
    ⟨playhead.position, .control channel settings.silenceController 0⟩

/-- The whole edition as one stream, refused while it is playing. -/
def exported (playhead : Playhead) (valid : Publication) : Except Fault (List Timed) :=
  if playhead.playing then .error .playing
  else .ok (valid.edition.roll.exported playhead.resolution.quantum)

end Playhead

end ChordGrid
