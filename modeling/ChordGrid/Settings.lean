import ChordGrid.Resolution

namespace ChordGrid

structure Settings where
  ticksPerQuarter : Nat := 480
  /-- In beats per minute, for songs that give no tempo of their own. -/
  tempo : Nat := 120
  velocity : Nat := 127
  seed : Option UInt64 := none
  silenceController : Nat := 123
  deriving DecidableEq, Repr

namespace Settings

def resolution (settings : Settings) : Except Fault Resolution :=
  (Resolution.ofTicks settings.ticksPerQuarter).mapError .settings

/-- Refuses settings that no song can be played with; the resolution is looked at first. -/
def check (settings : Settings) : Except Fault Unit := do
  let _ ← settings.resolution
  if settings.velocity > 127 then throw (.settings (.velocity settings.velocity))
  if settings.silenceController > 127 then
    throw (.settings (.controller settings.silenceController))
  if settings.tempo = 0 then throw (.settings .noTempo)

end Settings

end ChordGrid
