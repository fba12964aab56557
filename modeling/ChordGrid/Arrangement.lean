import ChordGrid.Fader
import ChordGrid.Roll

namespace ChordGrid

structure Arrangement where
  timeline : Timeline
  parts : List Part
  faders : List Fader
  /-- In beats per minute. -/
  tempo : Nat
  deriving DecidableEq, Repr

namespace Arrangement

/-- The messages of a build in the order they are made: the mixer first, then part after part. -/
def messages (arrangement : Arrangement) (tick : Nat) (mode : BuildMode) :
    Except Fault (List Timed) × Arrangement :=
  let (made, parts) :=
    sweep (fun part => part.build arrangement.timeline tick mode) arrangement.parts
  (made.map fun lists => mixdown arrangement.faders arrangement.parts ++ lists.flatten,
    { arrangement with parts })

/-- The roll of a build, and the arrangement with the notes and draws of the build behind it. -/
def build (arrangement : Arrangement) (tick : Nat) (mode : BuildMode) :
    Except Fault Roll × Arrangement :=
  let (made, after) := arrangement.messages tick mode
  (made.map Roll.ofMessages, after)

end Arrangement

end ChordGrid
