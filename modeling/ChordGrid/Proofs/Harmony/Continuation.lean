import ChordGrid.Proofs.Harmony.Grammar

/-!
# Held chords

A beat sounds the last chord written at or before it. The lookup adds up the lengths of the spans of
all measures, so this follows the spans through the beats they were read from. A measure begins with
a chord, which is why nothing is held over a bar line.
-/

namespace ChordGrid

open Text

/-! ### The chord of a beat -/

/-- The last beat with a chord of its own, up to a beat. -/
def IsLastChord (beats : List (List Char)) (beat place : Nat) (chord : List Char) : Prop :=
  place ≤ beat ∧ beats[place]? = some chord ∧ Span.isChord chord = true
    ∧ ∀ later, place < later → later ≤ beat → ∀ other ∈ beats[later]?, Span.isChord other = false

section LastChord

variable {beats : List (List Char)} {chord : List Char} {beat place : Nat}

theorem IsLastChord.append (hlast : IsLastChord beats beat place chord)
    (before : List (List Char)) :
    IsLastChord (before ++ beats) (before.length + beat) (before.length + place) chord := by
  obtain ⟨hle, hplace, hchord, hheld⟩ := hlast
  refine ⟨by omega, ?_, hchord, ?_⟩
  · rw [List.getElem?_append_right (by omega), Nat.add_sub_cancel_left, hplace]
  · intro later hafter hupTo other hother
    rw [List.getElem?_append_right (by omega)] at hother
    exact hheld (later - before.length) (by omega) (by omega) other hother

theorem isLastChord_of_held {held : List (List Char)} (hchord : Span.isChord chord = true)
    (hheld : ∀ other ∈ held, allBlank other = true) (hbeat : beat ≤ held.length) :
    IsLastChord (chord :: (held ++ beats)) beat 0 chord := by
  refine ⟨Nat.zero_le beat, rfl, hchord, ?_⟩
  intro later hafter hupTo other hother
  obtain ⟨index, rfl⟩ := Nat.exists_eq_add_one.mpr hafter
  rw [List.getElem?_cons_succ, List.getElem?_append_left (by omega)] at hother
  rw [Span.isChord, hheld other (List.mem_of_getElem? hother)]
  rfl

theorem IsLastChord.le_of_isChord {own : Nat} {other : List Char}
    (hlast : IsLastChord beats beat place chord) (howner : own ≤ beat)
    (hown : beats[own]? = some other) (hother : Span.isChord other = true) : own ≤ place := by
  by_contra hafter
  have hblank := hlast.2.2.2 own (by omega) howner other hown
  rw [hother] at hblank
  cases hblank

end LastChord

/-! ### Lookup -/

namespace Span

variable {beats : List (List Char)} {spans : List Span} {before : Span} {beat : Nat}

theorem Reads.beats_pos (hreads : Reads beats spans) : ∀ span ∈ spans, 0 < span.beats := by
  induction hreads with
  | nil => exact fun span hspan => absurd hspan List.not_mem_nil
  | cons held _ _ _ ih =>
      intro span hspan
      obtain rfl | hspan := List.mem_cons.mp hspan
      · exact Nat.succ_pos held.length
      · exact ih span hspan

theorem Reads.exists_isLastChord (hreads : Reads beats spans) (hbeat : beat < beats.length) :
    ∃ place chord, IsLastChord beats beat place chord
      ∧ Notates chord (holding before spans beat).degree (holding before spans beat).mode := by
  induction hreads generalizing before beat with
  | nil => exact absurd hbeat (Nat.not_lt_zero beat)
  | @cons chord beats degree mode spans held hchord hheld hrest ih =>
      by_cases hfirst : beat < held.length + 1
      · have hown : isChord chord = true := by
          simp [isChord, not_allBlank_of_notates hchord]
        rw [holding, if_pos hfirst]
        exact ⟨0, chord, isLastChord_of_held hown hheld (by omega), hchord⟩
      · rw [List.length_cons, List.length_append] at hbeat
        obtain ⟨place, other, hlast, hnotates⟩ :=
          @ih ⟨held.length + 1, degree, mode⟩ (beat - (held.length + 1)) (by omega)
        have hwhole := hlast.append (chord :: held)
        rw [List.length_cons, Nat.add_sub_cancel' (by omega)] at hwhole
        rw [holding, if_neg hfirst]
        exact ⟨_, other, hwhole, hnotates⟩

theorem holding_concat {front : List Span} {last : Span}
    (hbeat : (front.map Span.beats).sum ≤ beat) : holding before (front ++ [last]) beat = last := by
  induction front generalizing before beat with
  | nil =>
      rw [List.nil_append, holding]
      split <;> rfl
  | cons span front ih =>
      rw [List.map_cons, List.sum_cons] at hbeat
      rw [List.cons_append, holding, if_neg (by omega)]
      exact ih (by omega)

theorem Reads.holding_of_length_le (hreads : Reads beats spans) {last : Span}
    (hlast : spans.getLast? = some last) (hbeat : beats.length ≤ beat + 1) :
    holding before spans beat = last := by
  obtain ⟨front, rfl⟩ := List.getLast?_eq_some_iff.mp hlast
  have hsum := hreads.sum_beats
  have hpos := hreads.beats_pos last (List.mem_append_right front List.mem_cons_self)
  rw [List.map_append, List.sum_append, List.map_singleton, List.sum_singleton] at hsum
  exact holding_concat (by omega)

end Span

/-! ### Patterns -/

namespace Pattern

variable {grid : List (List (List Char))}

theorem reads_flatten {measures : List Measure}
    (hreads : List.Forall₂ (fun beats measure => Span.Reads beats measure.spans) grid measures) :
    Span.Reads grid.flatten (measures.flatMap Measure.spans) := by
  induction hreads with
  | nil => exact .nil
  | cons hfirst _ ih =>
      rw [List.flatten_cons, List.flatMap_cons]
      exact hfirst.append ih

theorem length_flatten_of_four (hlength : ∀ beats ∈ grid, beats.length = 4) :
    grid.flatten.length = 4 * grid.length := by
  rw [List.length_flatten, List.eq_replicate_of_mem (a := 4) (l := grid.map List.length) (by simpa),
    List.sum_replicate_nat, List.length_map, Nat.mul_comm]

theorem exists_downbeat (hlength : ∀ beats ∈ grid, beats.length = 4)
    (hfirst : ∀ beats ∈ grid, ∀ chord ∈ beats.head?, Span.isChord chord = true) {index : Nat}
    (hindex : index < grid.length) :
    ∃ chord, grid.flatten[4 * index]? = some chord ∧ Span.isChord chord = true := by
  induction grid generalizing index with
  | nil => exact absurd hindex (Nat.not_lt_zero index)
  | cons beats grid ih =>
      have hfour := hlength beats List.mem_cons_self
      rw [List.flatten_cons]
      cases index with
      | zero =>
          obtain ⟨chord, rest, rfl⟩ := List.exists_cons_of_length_pos (by omega : 0 < beats.length)
          exact ⟨chord, rfl, hfirst _ List.mem_cons_self chord rfl⟩
      | succ index =>
          rw [List.getElem?_append_right (by omega), hfour,
            show 4 * (index + 1) - 4 = 4 * index by omega]
          exact ih (fun other hother => hlength other (List.mem_cons_of_mem _ hother))
            (fun other hother => hfirst other (List.mem_cons_of_mem _ hother))
            (Nat.lt_of_succ_lt_succ hindex)

/-- **Blank beats go on with the chord before them.** The text of a pattern has one division into
beats. Each beat sounds the last chord written up to it, which stands in the same measure, and every
beat past the end sounds the last chord of all. The spans are those of the chords in their order,
the first of them opening and the last closing the pattern, and those of each measure fill its
beats. -/
theorem spanAt_notates_last_chord {name text : String} {pattern : Pattern}
    (hparse : parse name text = .ok pattern) :
    ∃ grid, IsBarred text.toList grid ∧ (∀ other, IsBarred text.toList other → other = grid)
      ∧ grid.flatten.length = pattern.beatCount
      ∧ (∀ beat < pattern.beatCount, ∃ place chord, IsLastChord grid.flatten beat place chord
        ∧ place / beatsPerMeasure = beat / beatsPerMeasure
        ∧ Span.Notates chord (pattern.spanAt beat).degree (pattern.spanAt beat).mode)
      ∧ (∀ beat, pattern.beatCount ≤ beat → pattern.spanAt beat = pattern.closing)
      ∧ List.Forall₂ (fun chord span => Span.Notates chord span.degree span.mode)
        (grid.flatten.filter Span.isChord) pattern.spans
      ∧ pattern.spans.head? = some pattern.opening
      ∧ pattern.spans.getLast? = some pattern.closing
      ∧ ∀ measure ∈ pattern.measures, (measure.spans.map Span.beats).sum = beatsPerMeasure := by
  obtain ⟨grid, hgrid, hmeasures⟩ := exists_reads_of_parse hparse
  have hlength := length_of_isBarred hgrid
  have hreads : Span.Reads grid.flatten pattern.spans := reads_flatten hmeasures
  have hcount : pattern.beatCount = 4 * grid.length := by
    rw [beatCount, ← hmeasures.length_eq, Nat.mul_comm]
    rfl
  have hflat : grid.flatten.length = pattern.beatCount := by
    rw [length_flatten_of_four hlength, hcount]
  have hchords : ∀ beats ∈ grid, ∀ chord ∈ beats.head?, Span.isChord chord = true := by
    intro beats hbeats chord hchord
    obtain ⟨measure, -, hmeasure⟩ := exists_of_mem_right hmeasures.flip hbeats
    obtain ⟨rest, rfl⟩ := List.head?_eq_some_iff.mp hchord
    rw [Span.isChord, Bool.not_eq_true', Bool.eq_false_iff]
    exact hmeasure.not_allBlank
  obtain ⟨last, hlast⟩ : ∃ last, pattern.spans.getLast? = some last :=
    Option.isSome_iff_exists.mp (by simp [spans, measures, Measure.spans])
  have hclosing : ∀ beat, pattern.beatCount ≤ beat + 1 → pattern.spanAt beat = last :=
    fun beat hbeat => hreads.holding_of_length_le hlast (by omega)
  refine ⟨grid, hgrid, fun other => hgrid.unique, hflat, ?_, ?_, hreads.forall₂, rfl, ?_, ?_⟩
  · intro beat hbeat
    obtain ⟨place, chord, hplace, hnotates⟩ := hreads.exists_isLastChord (hflat ▸ hbeat)
    refine ⟨place, chord, hplace, ?_, hnotates⟩
    -- The chord on the first beat of the measure keeps the last chord from being an earlier one.
    obtain ⟨downbeat, hdownbeat, hown⟩ :=
      exists_downbeat hlength hchords (show beat / 4 < grid.length by omega)
    have hfrom := hplace.le_of_isChord (Nat.mul_div_le beat 4) hdownbeat hown
    have hupTo := hplace.1
    change place / 4 = beat / 4
    omega
  · intro beat hbeat
    rw [hclosing beat (by omega), closing, hclosing _ (by omega)]
  · rw [hlast, closing, hclosing _ (by omega)]
  · intro measure hmeasure
    obtain ⟨beats, hbeats, hfill⟩ := exists_of_mem_right hmeasures hmeasure
    exact hfill.sum_beats.trans (hlength beats hbeats)

/-- Two measures of two chords, the second chord borrowed. -/
def cadence : Pattern :=
  ⟨"cadence", ⟨⟨3, .I, none⟩, [⟨1, .V, some .mixolydian⟩]⟩, [⟨⟨2, .IV, none⟩, [⟨2, .I, none⟩]⟩]⟩

theorem spanAt_notates_last_chord_of_cadence :
    parse "cadence" "[I | | |V:mix] [iv| |I| | ]" = .ok cadence
      ∧ ∃ grid, IsBarred "[I | | |V:mix] [iv| |I| | ]".toList grid
        ∧ ∃ place chord, IsLastChord grid.flatten 7 place chord ∧ place / beatsPerMeasure = 1
          ∧ Span.Notates chord .I none := by
  have hparse : parse "cadence" "[I | | |V:mix] [iv| |I| | ]" = .ok cadence := by
    decide +kernel
  obtain ⟨grid, hgrid, -, -, hbeats, -⟩ := spanAt_notates_last_chord hparse
  obtain ⟨place, chord, hlast, hplace, hnotates⟩ := hbeats 7 (by decide)
  exact ⟨hparse, grid, hgrid, place, chord, hlast, hplace, hnotates⟩

end Pattern

end ChordGrid
