import ChordGrid.Proofs.Harmony.Continuation
import ChordGrid.Proofs.Pitch.Layout

namespace ChordGrid

/-! ### Lookup -/

namespace Span

variable {before rest more after : List Span} {span other fallback fallback' : Span} {beat : Nat}

theorem holding_append_of_lt (hbeat : beat < (before.map Span.beats).sum) :
    holding fallback (before ++ rest) beat = holding fallback' (before ++ more) beat := by
  induction before generalizing fallback fallback' beat with
  | nil => exact absurd hbeat (Nat.not_lt_zero beat)
  | cons first before ih =>
      rw [List.map_cons, List.sum_cons] at hbeat
      rw [List.cons_append, List.cons_append, holding, holding]
      split
      · rfl
      · exact ih (by omega)

theorem holding_append_of_le (hbeat : (before.map Span.beats).sum ≤ beat) :
    holding fallback (before ++ span :: after) beat
      = holding span (span :: after) (beat - (before.map Span.beats).sum) := by
  induction before generalizing fallback beat with
  | nil =>
      rw [List.nil_append, holding, holding]
      rfl
  | cons first before ih =>
      rw [List.map_cons, List.sum_cons] at hbeat
      rw [List.cons_append, holding, if_neg (by omega), ih (by omega), List.map_cons,
        List.sum_cons, Nat.sub_sub]

/-- **A span is looked up from its own beats only.** Where spans fill the beats, one of them may be
exchanged for another of its length, and every beat outside of it sounds what it did before. -/
theorem holding_of_outside (hbeats : other.beats = span.beats)
    (hfilled : beat < ((before ++ span :: after).map Span.beats).sum)
    (houtside : ¬ ((before.map Span.beats).sum ≤ beat
      ∧ beat < (before.map Span.beats).sum + span.beats)) :
    holding fallback' (before ++ other :: after) beat
      = holding fallback (before ++ span :: after) beat := by
  by_cases hbefore : beat < (before.map Span.beats).sum
  · exact holding_append_of_lt hbefore
  · rw [List.map_append, List.sum_append, List.map_cons, List.sum_cons] at hfilled
    rw [holding_append_of_le (by omega), holding_append_of_le (by omega), holding, holding, hbeats,
      if_neg (by omega), if_neg (by omega)]
    have hlater := @holding_append_of_lt after [] [] other span
      (beat - (before.map Span.beats).sum - span.beats) (by omega)
    rwa [List.append_nil] at hlater

theorem holding_exchanged (hbeats : other.beats = span.beats) :
    holding fallback' (before ++ other :: after) beat
        = holding fallback (before ++ span :: after) beat
      ∨ holding fallback' (before ++ other :: after) beat = other
        ∧ holding fallback (before ++ span :: after) beat = span := by
  by_cases hbefore : beat < (before.map Span.beats).sum
  · exact .inl (holding_append_of_lt hbefore)
  · rw [holding_append_of_le (by omega), holding_append_of_le (by omega), holding, holding, hbeats]
    split
    · exact .inr ⟨rfl, rfl⟩
    · cases after with
      | nil => exact .inr ⟨rfl, rfl⟩
      | cons next after =>
          rw [holding, holding]
          exact .inl rfl

end Span

/-- Under the modes that they mean, the song's own unless they borrow one, two chords on one degree
have the same pitches. -/
theorem Tonality.pitch_of_sameMode {tonality : Tonality} {span : Span} {mode : Option Mode}
    (hmode : mode.getD tonality.mode = span.mode.getD tonality.mode) (step : Step) :
    tonality.pitch { span with mode } step = tonality.pitch span step := by
  rw [pitch_eq_ite, pitch_eq_ite, hmode]

namespace Pattern

/-! ### Patterns that differ in one mode -/

/-- The spans fill the beats, and each takes some. -/
structure IsFilled (pattern : Pattern) : Prop where
  sum_beats : (pattern.spans.map Span.beats).sum = pattern.beatCount
  beats_pos : ∀ span ∈ pattern.spans, 0 < span.beats

theorem isFilled_of_parse {name text : String} {pattern : Pattern}
    (hparse : parse name text = .ok pattern) : pattern.IsFilled := by
  obtain ⟨grid, hgrid, hmeasures⟩ := exists_reads_of_parse hparse
  have hreads : Span.Reads grid.flatten pattern.spans := reads_flatten hmeasures
  refine ⟨?_, hreads.beats_pos⟩
  rw [hreads.sum_beats, length_flatten_of_four (length_of_isBarred hgrid), beatCount,
    ← hmeasures.length_eq, Nat.mul_comm]
  rfl

/-- Patterns that differ at most in the mode of one span, which stands between some others. -/
structure DiffersInMode (before : List Span) (span : Span) (after : List Span) (mode : Option Mode)
    (pattern varied : Pattern) : Prop where
  name : varied.name = pattern.name
  length : varied.measures.length = pattern.measures.length
  spans : pattern.spans = before ++ span :: after
  varied_spans : varied.spans = before ++ { span with mode } :: after

variable {before after : List Span} {span : Span} {mode : Option Mode} {pattern varied : Pattern}

theorem head?_spans (pattern : Pattern) : pattern.spans.head? = some pattern.opening :=
  rfl

namespace DiffersInMode

variable (h : DiffersInMode before span after mode pattern varied)

include h

theorem beatCount : varied.beatCount = pattern.beatCount := by
  rw [Pattern.beatCount, h.length, ← Pattern.beatCount]

theorem cellCount : varied.cellCount = pattern.cellCount := by
  rw [Pattern.cellCount, h.beatCount, ← Pattern.cellCount]

theorem opening_eq (hbefore : before ≠ []) : varied.opening = pattern.opening := by
  have hvaried := varied.head?_spans
  have hpattern := pattern.head?_spans
  rw [h.varied_spans, List.head?_append_of_ne_nil _ hbefore] at hvaried
  rw [h.spans, List.head?_append_of_ne_nil _ hbefore] at hpattern
  exact Option.some.inj (hvaried.symm.trans hpattern)

theorem opening_exchanged : varied.opening = pattern.opening
    ∨ varied.opening = { span with mode } ∧ pattern.opening = span := by
  by_cases hbefore : before = []
  · subst hbefore
    have hvaried := varied.head?_spans
    have hpattern := pattern.head?_spans
    rw [h.varied_spans] at hvaried
    rw [h.spans] at hpattern
    exact .inr ⟨(Option.some.inj hvaried).symm, (Option.some.inj hpattern).symm⟩
  · exact .inl (h.opening_eq hbefore)

theorem spanAt_exchanged (beat : Nat) : varied.spanAt beat = pattern.spanAt beat
    ∨ varied.spanAt beat = { span with mode } ∧ pattern.spanAt beat = span := by
  rw [spanAt, spanAt, h.spans, h.varied_spans]
  exact Span.holding_exchanged rfl

theorem spanAt_eq (hfilled : pattern.IsFilled) {beat : Nat} (hbeat : beat < pattern.beatCount)
    (houtside : ¬ ((before.map Span.beats).sum ≤ beat
      ∧ beat < (before.map Span.beats).sum + span.beats)) :
    varied.spanAt beat = pattern.spanAt beat := by
  rw [spanAt, spanAt, h.spans, h.varied_spans]
  refine Span.holding_of_outside rfl ?_ houtside
  rwa [← h.spans, hfilled.sum_beats]

theorem closing_eq (hfilled : pattern.IsFilled) (hafter : after ≠ []) :
    varied.closing = pattern.closing := by
  have hsum := hfilled.sum_beats
  rw [h.spans, List.map_append, List.sum_append, List.map_cons, List.sum_cons] at hsum
  obtain ⟨next, rest, rfl⟩ := List.exists_cons_of_ne_nil hafter
  have hpos : 0 < next.beats := hfilled.beats_pos next (by simp [h.spans])
  rw [List.map_cons, List.sum_cons] at hsum
  rw [closing, closing, h.beatCount]
  exact h.spanAt_eq hfilled (by omega) (by omega)

theorem chordOf_exchanged (cell : Nat) (stave : Stave) :
    varied.chordOf cell stave = pattern.chordOf cell stave
      ∨ varied.chordOf cell stave = { span with mode } ∧ pattern.chordOf cell stave = span := by
  cases stave with
  | pickup => exact h.opening_exchanged
  | main => exact h.spanAt_exchanged _
  | tail =>
      rw [chordOf, chordOf, closing, closing, h.beatCount]
      exact h.spanAt_exchanged _

theorem pitch_chordOf {tonality : Tonality}
    (hmode : mode.getD tonality.mode = span.mode.getD tonality.mode) (cell : Nat) (stave : Stave)
    (step : Step) :
    tonality.pitch (varied.chordOf cell stave) step
      = tonality.pitch (pattern.chordOf cell stave) step := by
  obtain hsame | ⟨hvaried, hpattern⟩ := h.chordOf_exchanged cell stave
  · rw [hsame]
  · rw [hvaried, hpattern, Tonality.pitch_of_sameMode hmode]

end DiffersInMode

end Pattern

/-! ### What hears a span -/

namespace Sound

/-- The sound is counted from the chord of a span: its cell lies in the beats of the span, or it
leads in to the first span, or it goes on after the last. -/
def IsUnder (before : List Span) (span : Span) (after : List Span) (sound : Sound) : Prop :=
  match sound.stave with
  | .pickup => before = []
  | .main => (before.map Span.beats).sum ≤ sound.cell / cellsPerBeat
    ∧ sound.cell / cellsPerBeat < (before.map Span.beats).sum + span.beats
  | .tail => after = []

variable {before after : List Span} {span : Span} {mode : Option Mode} {pattern varied : Pattern}
  {sound : Sound} {tonality : Tonality}

theorem chord_eq_of_not_isUnder (h : pattern.DiffersInMode before span after mode varied)
    (hfilled : pattern.IsFilled)
    (hcell : sound.stave = .main → sound.cell < pattern.cellCount)
    (hunder : ¬ sound.IsUnder before span after) : sound.chord varied = sound.chord pattern := by
  rw [IsUnder] at hunder
  rw [chord, chord]
  cases hstave : sound.stave with
  | pickup =>
      rw [hstave] at hunder
      exact h.opening_eq hunder
  | main =>
      rw [hstave] at hunder
      have hcell := hcell hstave
      rw [Pattern.cellCount] at hcell
      exact h.spanAt_eq hfilled (Nat.div_lt_of_lt_mul (Nat.mul_comm _ _ ▸ hcell)) hunder
  | tail =>
      rw [hstave] at hunder
      exact h.closing_eq hfilled hunder

theorem pitch_congr
    (hsteps : ∀ step, tonality.pitch (sound.chord varied) step
      = tonality.pitch (sound.chord pattern) step) :
    sound.pitch tonality varied = sound.pitch tonality pattern := by
  rw [pitch, pitch]
  cases sound.tone with
  | key percussion => rfl
  | step step interval => simp only [hsteps]

end Sound

namespace Phrase

variable {before after : List Span} {span : Span} {mode : Option Mode} {pattern varied : Pattern}
  {tonality : Tonality}

/-- A phrase plays patterns of one name and length alike, and fails alike, if every cell has the
same pitches in them. -/
theorem play_eq_of_pitch_eq (hname : varied.name = pattern.name)
    (hcount : varied.cellCount = pattern.cellCount)
    (hpitch : ∀ cell stave step, tonality.pitch (varied.chordOf cell stave) step
      = tonality.pitch (pattern.chordOf cell stave) step)
    (phrase : Phrase) (position : Nat) :
    phrase.play position tonality varied = phrase.play position tonality pattern := by
  have hcells : (phrase.placement position tonality varied).SameCells
      (phrase.placement position tonality pattern) := ⟨rfl, rfl, hcount⟩
  have hnote : Sound.note (phrase.placement position tonality varied)
      = Sound.note (phrase.placement position tonality pattern) := by
    funext sound
    rw [Sound.note, Sound.note]
    exact congrArg _ (Sound.pitch_congr fun step => hpitch sound.cell sound.stave step)
  have hnotes : phrase.content.notes (phrase.placement position tonality varied)
      = phrase.content.notes (phrase.placement position tonality pattern) := by
    refine Prod.ext ?_ (hcells.snd_notes phrase.content)
    rw [Content.fst_notes_eq, Content.fst_notes_eq, hcells.sounds, hnote]
  rw [play_eq, play_eq, hname, hnotes]

/-- **A borrowed mode is heard under its own span only.** Take a phrase in two patterns that differ
in the mode of one span. If it can be played in both, it lays out the same sounds, and the notes
agree place by place in tick, length and velocity. Only a step under that span may have another
pitch. If the two modes mean the same, such as the song's own mode and none, nothing differs. -/
theorem borrowed_mode_heard_under_span {name text : String}
    (hparse : Pattern.parse name text = .ok pattern)
    (hvaried : pattern.DiffersInMode before span after mode varied) {phrase : Phrase}
    {position : Nat} {notes others : List Note}
    (hnotes : (phrase.play position tonality pattern).1 = .ok notes)
    (hothers : (phrase.play position tonality varied).1 = .ok others) :
    ∃ sounds, phrase.sounds position tonality pattern = .ok sounds
      ∧ notes.length = sounds.length ∧ others.length = sounds.length
      ∧ (∀ (place : Nat) (sound : Sound) (note other : Note), sounds[place]? = some sound →
        notes[place]? = some note → others[place]? = some other →
        sound.note (phrase.placement position tonality pattern) = .ok note
          ∧ sound.note (phrase.placement position tonality varied) = .ok other
          ∧ other.tick = note.tick ∧ other.gate = note.gate ∧ other.velocity = note.velocity
          ∧ (other.pitch ≠ note.pitch →
            sound.tone.isKey = false ∧ sound.IsUnder before span after))
      ∧ (mode.getD tonality.mode = span.mode.getD tonality.mode →
        phrase.play position tonality varied = phrase.play position tonality pattern) := by
  have hfilled := Pattern.isFilled_of_parse hparse
  obtain ⟨sounds, hsounds, hresolved⟩ := exists_sounds_of_play hnotes
  obtain ⟨same, hsame, hvariedNotes⟩ := exists_sounds_of_play hothers
  rw [← (SameState.refl phrase).sounds_eq hvaried.name.symm hvaried.cellCount.symm position
    tonality tonality, hsounds] at hsame
  cases hsame
  obtain ⟨hlength, hnote⟩ := List.forall₂_iff_zip.mp hresolved
  obtain ⟨hlength', hother⟩ := List.forall₂_iff_zip.mp hvariedNotes
  refine ⟨sounds, hsounds, hlength.symm, hlength'.symm, ?_, ?_⟩
  · intro place sound note other hsound hplace hplace'
    have hmade := hnote (List.mem_of_getElem? (List.getElem?_zip_eq_some.mpr ⟨hsound, hplace⟩))
    have hmade' := hother (List.mem_of_getElem? (List.getElem?_zip_eq_some.mpr ⟨hsound, hplace'⟩))
    obtain ⟨htick, hgate, hvelocity⟩ := Sound.note_agree hmade hmade' rfl
    refine ⟨hmade, hmade', htick, hgate, hvelocity, ?_⟩
    intro hne
    have hpitch := (Sound.note_eq_ok_iff.mp hmade).1
    have hpitch' := (Sound.note_eq_ok_iff.mp hmade').1
    have hsuits := suits_of_mem_sounds hsounds sound (List.mem_of_getElem? hsound)
    refine ⟨?_, ?_⟩
    · -- A percussion key is its own pitch.
      cases htone : sound.tone with
      | key percussion =>
          rw [Sound.pitch, htone] at hpitch hpitch'
          exact absurd (Except.ok.inj (hpitch'.symm.trans hpitch)) hne
      | step step interval => rfl
    · by_contra hunder
      have hchord := Sound.chord_eq_of_not_isUnder hvaried hfilled hsuits.cell_lt hunder
      have hsamePitch : sound.pitch tonality varied = sound.pitch tonality pattern :=
        Sound.pitch_congr fun step => by rw [hchord]
      exact hne (Except.ok.inj (hpitch'.symm.trans (hsamePitch.trans hpitch)))
  · intro hmode
    exact play_eq_of_pitch_eq hvaried.name hvaried.cellCount (hvaried.pitch_chordOf hmode) phrase
      position

/-- Two chords of two beats, the second in some mode. -/
def twoChords (mode : Option Mode) : Pattern :=
  ⟨"a", ⟨⟨2, .I, none⟩, [⟨2, .V, mode⟩]⟩, []⟩

def third : Cell :=
  .step ⟨2, by decide⟩

/-- A bass that plays the third in every grid, in its own on both chords. -/
def thirds : Phrase :=
  .fresh "a" (.bass
    { cells := third :: List.replicate 7 .rest ++ [third]
      interval := 0
      pickup := [third]
      tail := [third] }) .standard 127

/-- The thirds in C, with the one above the second chord at some pitch. -/
def thirdsInC (pitch : Nat) : List Note :=
  [⟨360, 64, 120, 127⟩, ⟨480, 64, 120, 127⟩, ⟨1440, pitch, 120, 127⟩, ⟨2400, pitch, 120, 127⟩]

theorem play_thirds {mode : Option Mode} {pitch : Nat}
    (hmade : (thirds.content.notes (thirds.placement 480 ⟨⟨0⟩, .ionian⟩ (twoChords mode))).1
      = .ok (thirdsInC pitch)) :
    (thirds.play 480 ⟨⟨0⟩, .ionian⟩ (twoChords mode)).1 = .ok (thirdsInC pitch) := by
  have hname : ¬ thirds.name ≠ (twoChords mode).name := not_not.mpr rfl
  have hsorted : inTime (thirdsInC pitch) = thirdsInC pitch := by
    apply List.mergeSort_of_pairwise
    simp [thirdsInC]
  rw [fst_play, if_neg hname, hmade]
  exact congrArg Except.ok hsorted

/-- Under the Dorian mode the third of the second chord is a minor one, and so is that of the
tail. -/
theorem borrowed_mode_heard_under_second_chord :
    Pattern.parse "a" "I| |V| " = .ok (twoChords none)
      ∧ Pattern.parse "a" "I| |V:dor| " = .ok (twoChords (some .dorian))
      ∧ (thirds.play 480 ⟨⟨0⟩, .ionian⟩ (twoChords none)).1 = .ok (thirdsInC 71)
      ∧ (thirds.play 480 ⟨⟨0⟩, .ionian⟩ (twoChords (some .dorian))).1 = .ok (thirdsInC 70)
      ∧ ∃ sounds, thirds.sounds 480 ⟨⟨0⟩, .ionian⟩ (twoChords none) = .ok sounds
        ∧ ∀ (place : Nat) (sound : Sound) (note other : Note), sounds[place]? = some sound →
          (thirdsInC 71)[place]? = some note → (thirdsInC 70)[place]? = some other →
          other.pitch ≠ note.pitch → sound.IsUnder [⟨2, .I, none⟩] ⟨2, .V, none⟩ [] := by
  have hparse : Pattern.parse "a" "I| |V| " = .ok (twoChords none) := by decide +kernel
  have hvaried : (twoChords none).DiffersInMode [⟨2, .I, none⟩] ⟨2, .V, none⟩ [] (some .dorian)
      (twoChords (some .dorian)) := ⟨rfl, rfl, rfl, rfl⟩
  have hnotes : (thirds.play 480 ⟨⟨0⟩, .ionian⟩ (twoChords none)).1 = .ok (thirdsInC 71) :=
    play_thirds (eq_ok_of_toOption (by decide +kernel))
  have hothers : (thirds.play 480 ⟨⟨0⟩, .ionian⟩ (twoChords (some .dorian))).1
      = .ok (thirdsInC 70) := play_thirds (eq_ok_of_toOption (by decide +kernel))
  obtain ⟨sounds, hsounds, -, -, hplaces, -⟩ :=
    borrowed_mode_heard_under_span hparse hvaried hnotes hothers
  refine ⟨hparse, by decide +kernel, hnotes, hothers, sounds, hsounds, ?_⟩
  intro place sound note other hsound hnote hother hne
  obtain ⟨-, -, -, -, -, hunder⟩ := hplaces place sound note other hsound hnote hother
  exact (hunder hne).2

end Phrase

end ChordGrid
