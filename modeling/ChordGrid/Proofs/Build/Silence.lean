import ChordGrid.Proofs.Build.Calling
import ChordGrid.Proofs.Build.Compiling
import ChordGrid.Proofs.Build.Drawing

/-!
# Phrases that are never called

A phrase whose name is not in the order of a song plays nothing, so one more such phrase in a score
adds no note. It does move the phrases behind it in the list, and a generated phrase is seeded by
its place there.
-/

namespace ChordGrid

/-! ### Other seeds -/

namespace PhraseEntry

end PhraseEntry

namespace Score

variable {score : Score} {settings : Settings} {r : Resolution} {entry : PhraseEntry}
  {seed : UInt64} {phrase : Phrase}

end Score

/-! ### A generated phrase over a bass -/

/-- One measure of the tonic in C, from tick zero. -/
def tonicMeasure : Placement where
  position := 0
  tonality := ⟨.above 0, .ionian⟩
  pattern := ⟨"a", ⟨⟨4, .I, none⟩, []⟩, []⟩
  resolution := .standard
  velocity := 127

def drawn : Score where
  song := { name := "", tempo := none, key := "C", mode := "Ion", order := ["a"] }
  patterns := [⟨"a", "I| | | "⟩]
  phrases :=
    [{ kind := "seque", name := "a" }, { kind := "bass", name := "a", note := some "1---" }]
  parts := [⟨"seque", 0, "0"⟩, ⟨"bass", 1, "32"⟩]
  faders := []

end ChordGrid
