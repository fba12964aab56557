import ChordGrid.Text.Pieces
import ChordGrid.Tonality.Pitch

namespace ChordGrid

open Text

structure Span where
  beats : Nat
  degree : Degree
  /-- The mode that replaces the song's mode under this chord alone. -/
  mode : Option Mode
  deriving DecidableEq, Repr

namespace Span

def parse (beats : Nat) (token : List Char) : Except Fault Span :=
  match splitFirst ':' token with
  | none => do
    let degree ← Degree.parse (String.ofList token)
    return ⟨beats, degree, none⟩
  | some (chord, borrowed) => do
    let degree ← Degree.parse (String.ofList chord)
    let mode ← Mode.parse (String.ofList borrowed)
    return ⟨beats, degree, some mode⟩

/-- The span that holds a beat of a run of spans; `before` stands after the last of them. -/
def holding (before : Span) : List Span → Nat → Span
  | [], _ => before
  | span :: rest, beat => if beat < span.beats then span else holding span rest (beat - span.beats)

end Span

/-- The pitch of a step above the chord of a span. A mode that the song has anyway changes
nothing. -/
def Tonality.pitch (tonality : Tonality) (span : Span) (step : Step) : Nat :=
  match span.mode with
  | some mode =>
    if mode = tonality.mode then tonality.diatonicPitch span.degree step
    else tonality.borrowedPitch span.degree mode step
  | none => tonality.diatonicPitch span.degree step

theorem Tonality.pitch_le (tonality : Tonality) (span : Span) (step : Step) :
    tonality.pitch span step ≤ 94 := by
  have hdiatonic := tonality.diatonicPitch_le span.degree step
  unfold pitch
  split
  · next mode _ =>
    have hborrowed := tonality.borrowedPitch_le span.degree mode step
    split <;> omega
  · exact hdiatonic

end ChordGrid
