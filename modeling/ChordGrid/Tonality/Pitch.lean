import ChordGrid.Tonality.Degree
import ChordGrid.Tonality.Key
import ChordGrid.Tonality.Mode

/-!
# Pitches

A chord stands on a degree of the song's scale, and a step counts scale notes up from its root.
Under the song's own mode the steps go on along the song's scale; a mode given for one span alone
keeps the root and measures the steps above it by its own intervals.
-/

namespace ChordGrid

structure Tonality where
  key : Key
  mode : Mode
  deriving DecidableEq, Repr

/-- The steps 1 to 7 above a chord root, counted from zero. -/
abbrev Step := Fin 7

namespace Step

def ofNumber (number : Nat) : Except Fault Step :=
  if h : 1 ≤ number ∧ number ≤ 7 then .ok ⟨number - 1, by omega⟩
  else .error (.stepOutOfRange number)

end Step

namespace Tonality

/-- The pitch of the scale note at an index that may run over into higher octaves. -/
def scalePitch (tonality : Tonality) (index : Nat) : Nat :=
  tonality.key.root + tonality.mode.interval ⟨index % 7, Nat.mod_lt _ (by decide)⟩ +
    12 * (index / 7)

/-- The pitch of a step above a degree, along the song's own scale. -/
def diatonicPitch (tonality : Tonality) (degree : Degree) (step : Step) : Nat :=
  tonality.scalePitch (degree.index + step)

/-- The pitch of a step above a degree whose chord borrows another mode. -/
def borrowedPitch (tonality : Tonality) (degree : Degree) (mode : Mode) (step : Step) : Nat :=
  tonality.scalePitch degree.index + mode.interval step

theorem scalePitch_le (tonality : Tonality) {index : Nat} (h : index ≤ 13) :
    tonality.scalePitch index ≤ 94 := by
  have hroot := tonality.key.root_le
  have hinterval := tonality.mode.interval_le ⟨index % 7, Nat.mod_lt _ (by decide)⟩
  unfold scalePitch
  omega

theorem diatonicPitch_le (tonality : Tonality) (degree : Degree) (step : Step) :
    tonality.diatonicPitch degree step ≤ 94 :=
  tonality.scalePitch_le (by omega)

theorem borrowedPitch_le (tonality : Tonality) (degree : Degree) (mode : Mode) (step : Step) :
    tonality.borrowedPitch degree mode step ≤ 93 := by
  have hroot := tonality.key.root_le
  have hdegree := tonality.mode.interval_le ⟨degree.index % 7, Nat.mod_lt _ (by decide)⟩
  have hstep := mode.interval_le step
  unfold borrowedPitch scalePitch
  omega

end Tonality

def midiPitch (pitch : Int) : Except Fault Nat :=
  if 0 ≤ pitch ∧ pitch ≤ 127 then .ok pitch.toNat else .error (.pitchOutOfRange pitch)

theorem midiPitch_of_le {pitch : Nat} (h : pitch ≤ 127) : midiPitch pitch = .ok pitch := by
  rw [midiPitch, if_pos ⟨by omega, by omega⟩]
  rfl

end ChordGrid
