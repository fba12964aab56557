import ChordGrid.Proofs.Build.Sheets
import ChordGrid.Proofs.Roll.Reading

namespace ChordGrid

namespace Timeline

variable {r : Resolution} {start : Nat} {patterns : List Pattern}

theorem le_start_of_mem_place {occurrence : Occurrence}
    (h : occurrence ∈ place r start patterns) : start ≤ occurrence.start := by
  induction patterns generalizing start with
  | nil => cases h
  | cons pattern rest ih =>
      cases h with
      | head => exact Nat.le_refl start
      | tail _ hrest => exact Nat.le_trans (Nat.le_add_right start _) (ih hrest)

theorem pairwise_place (r : Resolution) (start : Nat) (patterns : List Pattern) :
    (place r start patterns).Pairwise fun a b => a.start ≤ b.start := by
  induction patterns generalizing start with
  | nil => exact .nil
  | cons pattern rest ih =>
      apply List.Pairwise.cons
      · intro occurrence hoccurrence
        exact Nat.le_trans (Nat.le_add_right start _) (le_start_of_mem_place hoccurrence)
      · exact ih _

def startingBefore (timeline : Timeline) (tick : Nat) : List Occurrence :=
  timeline.occurrences.filter fun occurrence => occurrence.start < tick

theorem startingBefore_append_startingFrom (tonality : Tonality) (r : Resolution)
    (patterns : List Pattern) (tick : Nat) :
    (ofPatterns tonality r patterns).startingBefore tick
        ++ (ofPatterns tonality r patterns).startingFrom tick
      = (ofPatterns tonality r patterns).occurrences :=
  filter_lt_append_filter_le Occurrence.start (pairwise_place r 0 patterns) tick

end Timeline

namespace Part

/-- How parts come about: each is made without phrases, takes phrases up and is built, in any
order. -/
inductive IsAssembled : Part → Prop
  | new {channel : Nat} {program : Program} {kind : PhraseKind} {part : Part}
      (h : Part.new channel program kind = .ok part) : IsAssembled part
  | takeUp {part : Part} (h : IsAssembled part) (phrases : List Phrase) :
      IsAssembled (part.takeUp phrases)
  | build {part : Part} (h : IsAssembled part) (timeline : Timeline) (tick : Nat)
      (mode : BuildMode) : IsAssembled (part.build timeline tick mode).2

theorem IsAssembled.kind_eq {part : Part} (h : part.IsAssembled) :
    ∀ phrase ∈ part.phrases, phrase.kind = part.kind := by
  induction h with
  | new h =>
      unfold Part.new at h
      split at h
      · cases h
        exact fun _ hphrase => absurd hphrase List.not_mem_nil
      · cases h
  | takeUp h phrases ih =>
      intro phrase hphrase
      cases List.mem_append.mp hphrase with
      | inl hheld => exact ih phrase hheld
      | inr htaken => exact of_decide_eq_true (List.mem_filter.mp htaken).2
  | @build part h timeline tick mode ih =>
      intro phrase hphrase
      have hsheets := SameSheets.build part timeline tick mode
      obtain ⟨held, hheld, hsheet⟩ := exists_of_mem_right hsheets.phrases hphrase
      rw [← hsheets.kind, ← hsheet.kind]
      exact ih held hheld

end Part

/-! ### A bass with an upbeat -/

def oneMeasure : Pattern :=
  ⟨"a", ⟨⟨4, .I, none⟩, []⟩, []⟩

def twoMeasures : Timeline :=
  .ofPatterns ⟨.above 0, .ionian⟩ .standard [oneMeasure, oneMeasure]

/-- The tonic on the first beat, and the fifth a sixteenth before it. -/
def bassWithUpbeat : Part where
  channel := 1
  program := .instrument 38
  kind := .bass
  phrases :=
    [.fresh "a" (.bass ⟨[.step Degree.I.index, .rest, .rest, .rest], -24, [], []⟩) .standard 127,
      .fresh "a" (.bass ⟨[], -24, [.rest, .rest, .rest, .step Degree.V.index], []⟩) .standard 127]

end ChordGrid
