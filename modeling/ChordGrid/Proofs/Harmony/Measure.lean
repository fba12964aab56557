import ChordGrid.Harmony.Measure
import ChordGrid.Proofs.Harmony.Chord
import Mathlib.Algebra.GroupWithZero.Nat

/-!
# Reading a measure

A chord is held through the blank beats after it, so beats read as spans: each chord with the blanks
up to the next chord. The parser folds from the front, where a blank beat lengthens a run that has
been begun, and comes to the same spans. A measure is accepted exactly if it has four beats between
its bars, its chords stand on supported beats, and each of them notates one.
-/

namespace ChordGrid

open Text

/-! ### Beats that read as spans -/

namespace Span

/-- A chord and the blank beats that hold it make a span. -/
inductive Reads : List (List Char) → List Span → Prop
  | nil : Reads [] []
  | cons {chord : List Char} {beats : List (List Char)} {degree : Degree} {mode : Option Mode}
      {spans : List Span} (held : List (List Char)) :
      Notates chord degree mode → (∀ beat ∈ held, allBlank beat = true) → Reads beats spans →
      Reads (chord :: (held ++ beats)) (⟨held.length + 1, degree, mode⟩ :: spans)

theorem not_allBlank_of_notates {token : List Char} {degree : Degree} {mode : Option Mode}
    (hnotates : Notates token degree mode) : ¬ allBlank token = true := by
  intro hblank
  have hnone : ¬ Notates (trim token) degree mode := by
    rw [trim, trimStart_eq_nil_iff.mpr hblank]
    intro hempty
    cases mode with
    | none =>
        have hlower := (spells_iff Degree.isBlank_of_mem_numeral).mp hempty
        revert hlower
        cases degree <;> decide
    | some mode =>
        obtain ⟨chord, borrowed, htoken, -, -⟩ := hempty
        exact List.append_ne_nil_of_right_ne_nil _ (List.cons_ne_nil _ _) htoken.symm
  exact hnone (notates_trim.mpr hnotates)

variable {chord beat : List Char} {beats : List (List Char)} {spans : List Span}

theorem Reads.not_allBlank (hreads : Reads (beat :: beats) spans) : ¬ allBlank beat = true := by
  cases hreads with
  | cons _ hchord _ _ => exact not_allBlank_of_notates hchord

theorem Reads.ne_nil (hreads : Reads (beat :: beats) spans) : spans ≠ [] := by
  rintro rfl
  cases hreads

theorem reads_singleton_iff :
    Reads [chord] spans
      ↔ ∃ degree mode, Notates chord degree mode ∧ spans = [⟨1, degree, mode⟩] := by
  constructor
  · intro hreads
    generalize hbeats : [chord] = beats at hreads
    cases hreads with
    | nil => cases hbeats
    | @cons _ rest degree mode more held hchord hheld hrest =>
        obtain ⟨rfl, hnil⟩ := List.cons.inj hbeats
        obtain ⟨rfl, rfl⟩ := List.append_eq_nil_iff.mp hnil.symm
        cases hrest
        exact ⟨degree, mode, hchord, rfl⟩
  · rintro ⟨degree, mode, hchord, rfl⟩
    exact .cons [] hchord (fun _ hmem => absurd hmem List.not_mem_nil) .nil

theorem reads_cons_blank_iff (hblank : allBlank beat = true) :
    Reads (chord :: beat :: beats) spans
      ↔ ∃ span more, Reads (chord :: beats) (span :: more)
        ∧ spans = { span with beats := span.beats + 1 } :: more := by
  constructor
  · intro hreads
    generalize hbeats : chord :: beat :: beats = whole at hreads
    cases hreads with
    | nil => cases hbeats
    | @cons _ rest degree mode more held hchord hheld hrest =>
        obtain ⟨rfl, hrest'⟩ := List.cons.inj hbeats
        cases held with
        | nil =>
            rw [List.nil_append] at hrest'
            exact absurd hblank (hrest' ▸ hrest).not_allBlank
        | cons first held =>
            obtain ⟨rfl, rfl⟩ := List.cons.inj hrest'
            exact ⟨⟨held.length + 1, degree, mode⟩, more,
              .cons held hchord (fun other hother => hheld other (List.mem_cons_of_mem _ hother))
                hrest, rfl⟩
  · rintro ⟨span, more, hreads, rfl⟩
    generalize hbeats : chord :: beats = whole at hreads
    cases hreads with
    | @cons _ rest degree mode _ held hchord hheld hrest =>
        obtain ⟨rfl, rfl⟩ := List.cons.inj hbeats
        refine Reads.cons (beat :: held) hchord ?_ hrest
        intro other hother
        obtain rfl | hother := List.mem_cons.mp hother
        · exact hblank
        · exact hheld other hother

theorem reads_cons_chord_iff (hbeat : ¬ allBlank beat = true) :
    Reads (chord :: beat :: beats) spans
      ↔ ∃ degree mode more, Notates chord degree mode ∧ Reads (beat :: beats) more
        ∧ spans = ⟨1, degree, mode⟩ :: more := by
  constructor
  · intro hreads
    generalize hbeats : chord :: beat :: beats = whole at hreads
    cases hreads with
    | nil => cases hbeats
    | @cons _ rest degree mode more held hchord hheld hrest =>
        obtain ⟨rfl, hrest'⟩ := List.cons.inj hbeats
        cases held with
        | nil => exact ⟨degree, mode, more, hchord, hrest' ▸ hrest, rfl⟩
        | cons first held =>
            obtain ⟨rfl, -⟩ := List.cons.inj hrest'
            exact absurd (hheld beat List.mem_cons_self) hbeat
  · rintro ⟨degree, mode, more, hchord, hreads, rfl⟩
    exact .cons [] hchord (fun _ hmem => absurd hmem List.not_mem_nil) hreads

def isChord (beat : List Char) : Bool :=
  !allBlank beat

theorem exists_reads {degree : Degree} {mode : Option Mode} (hchord : Notates chord degree mode)
    (hbeats : ∀ beat ∈ beats, isChord beat = true → ∃ degree mode, Notates beat degree mode) :
    ∃ spans, Reads (chord :: beats) spans := by
  induction beats generalizing chord degree mode with
  | nil => exact ⟨_, reads_singleton_iff.mpr ⟨degree, mode, hchord, rfl⟩⟩
  | cons beat beats ih =>
      have hmore : ∀ other ∈ beats, isChord other = true → ∃ degree mode,
          Notates other degree mode :=
        fun other hother => hbeats other (List.mem_cons_of_mem _ hother)
      by_cases hblank : allBlank beat = true
      · obtain ⟨spans, hreads⟩ := ih hchord hmore
        obtain ⟨span, more, rfl⟩ := List.exists_cons_of_ne_nil hreads.ne_nil
        exact ⟨_, (reads_cons_blank_iff hblank).mpr ⟨span, more, hreads, rfl⟩⟩
      · obtain ⟨own, borrowed, hbeat⟩ :=
          hbeats beat List.mem_cons_self (by rw [isChord, Bool.eq_false_iff.mpr hblank]; rfl)
        obtain ⟨spans, hreads⟩ := ih hbeat hmore
        exact ⟨_, (reads_cons_chord_iff hblank).mpr ⟨degree, mode, spans, hchord, hreads, rfl⟩⟩

theorem Reads.append {more : List (List Char)} {others : List Span} (hreads : Reads beats spans)
    (hmore : Reads more others) : Reads (beats ++ more) (spans ++ others) := by
  induction hreads with
  | nil => exact hmore
  | cons held hchord hheld _ ih =>
      rw [List.cons_append, List.append_assoc, List.cons_append]
      exact .cons held hchord hheld ih

theorem Reads.sum_beats (hreads : Reads beats spans) :
    (spans.map Span.beats).sum = beats.length := by
  induction hreads with
  | nil => rfl
  | cons held _ _ _ ih =>
      rw [List.map_cons, List.sum_cons, ih, List.length_cons, List.length_append]
      change held.length + 1 + _ = _
      omega

theorem Reads.forall₂ (hreads : Reads beats spans) :
    List.Forall₂ (fun chord span => Notates chord span.degree span.mode) (beats.filter isChord)
      spans := by
  induction hreads with
  | nil => exact .nil
  | cons held hchord hheld _ ih =>
      have hnone : held.filter isChord = [] := by
        rw [List.filter_eq_nil_iff]
        intro beat hbeat
        simp [isChord, hheld beat hbeat]
      have hfirst := Bool.eq_false_iff.mpr (not_allBlank_of_notates hchord)
      rw [List.filter_cons_of_pos (by simp [isChord, hfirst]), List.filter_append, hnone,
        List.nil_append]
      exact .cons hchord ih

end Span

/-! ### Folding -/

namespace Measure

variable {body chord : List Char} {beats others : List (List Char)} {spans : List Span}

/-- The runs that the beats after a chord fold into, the chord's own run among them. -/
def folded (chord : List Char) (others : List (List Char)) : List Run :=
  (runs (trim chord) (others.map trim)).1 :: (runs (trim chord) (others.map trim)).2

theorem forall₂_folded_iff :
    List.Forall₂ (fun run span => Span.parse run.2 run.1 = .ok span) (folded chord others) spans
      ↔ Span.Reads (chord :: others) spans := by
  induction others generalizing chord spans with
  | nil =>
      simp only [folded, runs, List.map_nil, List.forall₂_cons_left_iff, List.forall₂_nil_left_iff,
        Span.parse_eq_ok_iff, Span.notates_trim, Span.reads_singleton_iff]
      constructor
      · rintro ⟨⟨length, degree, mode⟩, _, ⟨rfl, hnotates⟩, rfl, rfl⟩
        exact ⟨degree, mode, hnotates, rfl⟩
      · rintro ⟨degree, mode, hnotates, rfl⟩
        exact ⟨_, [], ⟨rfl, hnotates⟩, rfl, rfl⟩
  | cons beat others ih =>
      by_cases hblank : allBlank beat = true
      · obtain ⟨run, more, hrun⟩ : ∃ run more, folded chord others = run :: more := ⟨_, _, rfl⟩
        have hfold : folded chord (beat :: others) = (run.1, run.2 + 1) :: more := by
          obtain ⟨rfl, rfl⟩ := List.cons.inj hrun
          simp [folded, runs, isEmpty_trim, hblank]
        rw [hfold, Span.reads_cons_blank_iff hblank]
        simp only [← ih, hrun, List.forall₂_cons_left_iff, Span.parse_eq_ok_iff]
        constructor
        · rintro ⟨⟨_, degree, mode⟩, rest, ⟨rfl, hnotates⟩, hrest, rfl⟩
          exact ⟨⟨run.2, degree, mode⟩, rest,
            ⟨⟨run.2, degree, mode⟩, rest, ⟨rfl, hnotates⟩, hrest, rfl⟩, rfl⟩
        · rintro ⟨_, _, ⟨⟨_, degree, mode⟩, rest, ⟨rfl, hnotates⟩, hrest, heq⟩, rfl⟩
          obtain ⟨rfl, rfl⟩ := List.cons.inj heq
          exact ⟨⟨run.2 + 1, degree, mode⟩, _, ⟨rfl, hnotates⟩, hrest, rfl⟩
      · have hfold : folded chord (beat :: others) = (trim chord, 1) :: folded beat others := by
          simp [folded, runs, isEmpty_trim, hblank]
        rw [hfold, Span.reads_cons_chord_iff hblank, List.forall₂_cons_left_iff]
        constructor
        · rintro ⟨⟨length, degree, mode⟩, rest, hspan, hrest, rfl⟩
          obtain ⟨rfl, hnotates⟩ := Span.parse_eq_ok_iff.mp hspan
          exact ⟨degree, mode, rest, Span.notates_trim.mp hnotates, ih.mp hrest, rfl⟩
        · rintro ⟨degree, mode, rest, hnotates, hrest, rfl⟩
          exact ⟨⟨1, degree, mode⟩, rest,
            Span.parse_eq_ok_iff.mpr ⟨rfl, Span.notates_trim.mpr hnotates⟩, ih.mpr hrest, rfl⟩

/-! ### Splits -/

/-- The beats of a measure that have a chord of their own, counted from zero. -/
def places (beats : List (List Char)) : List Nat :=
  beats.findIdxs Span.isChord

/-- Where the chords of a measure may stand. Each choice begins with the first beat. -/
def supportedPlaces : List (List Nat) :=
  [[0], [0, 3], [0, 2], [0, 1], [0, 1, 3]]

theorem not_allBlank_of_places (hplaces : places (chord :: others) ∈ supportedPlaces) :
    ¬ allBlank chord = true := by
  intro hblank
  have hdownbeat : ∀ chosen ∈ supportedPlaces, 0 ∈ chosen := by decide
  have hzero := hdownbeat _ hplaces
  rw [places, List.findIdxs_cons, if_neg (by simp [Span.isChord, hblank])] at hzero
  exact Nat.not_succ_le_zero 0 (List.ge_of_mem_findIdxs 0 hzero)

theorem split_mem_splits_iff {first second third : List Char} (hchord : ¬ allBlank chord = true) :
    (folded chord [first, second, third]).map Prod.snd ∈ splits
      ↔ places [chord, first, second, third] ∈ supportedPlaces := by
  by_cases hfirst : allBlank first = true <;> by_cases hsecond : allBlank second = true <;>
    by_cases hthird : allBlank third = true <;>
    simp [folded, runs, isEmpty_trim, splits, places, supportedPlaces, Span.isChord, hchord,
      hfirst, hsecond, hthird]

/-! ### Bars -/

/-- A measure is four beats between bars; one more bar may close the last of them. -/
def IsBarred (body : List Char) (beats : List (List Char)) : Prop :=
  beats.length = 4 ∧ (body.splitOn '|' = beats
    ∨ ∃ closing, allBlank closing = true ∧ body.splitOn '|' = beats ++ [closing])

theorem IsBarred.unique (hbeats : IsBarred body beats) (hothers : IsBarred body others) :
    others = beats := by
  have htake : ∀ beats, IsBarred body beats → beats = (body.splitOn '|').take 4 := by
    rintro beats ⟨hlength, hsplit | ⟨closing, -, hsplit⟩⟩
    · rw [hsplit, ← hlength, List.take_length]
    · rw [hsplit, ← hlength, List.take_left]
  rw [htake _ hbeats, ← htake _ hothers]

theorem beats_eq_iff {tokens : List (List Char)} :
    Measure.beats body = tokens ∧ tokens.length = 4
      ↔ ∃ beats, IsBarred body beats ∧ tokens = beats.map trim := by
  have hpieces : pieces (· = '|') body = body.splitOn '|' := by
    rw [pieces_eq_splitOnP, List.splitOn_eq_splitOnP]
    rfl
  have hlast : ∀ closing : List Char, some (trim closing) = some [] ↔ allBlank closing = true := by
    intro closing
    rw [Option.some.injEq, ← List.isEmpty_iff, isEmpty_trim]
  rw [Measure.beats, hpieces]
  constructor
  · rintro ⟨rfl, hlength⟩
    split at hlength
    · next hclosed =>
        rw [if_pos hclosed]
        obtain ⟨hfive, hnone⟩ := hclosed
        obtain ⟨beats, closing, hsplit⟩ :
            ∃ beats closing, body.splitOn '|' = beats ++ [closing] := by
          obtain hnil | hconcat := List.eq_nil_or_concat' (body.splitOn '|')
          · rw [hnil] at hfive
            cases hfive
          · exact hconcat
        rw [hsplit, List.map_append, List.map_singleton, List.getLast?_concat, hlast] at hnone
        rw [hsplit, List.map_append, List.map_singleton, List.dropLast_concat] at hlength ⊢
        exact ⟨beats, ⟨by simpa using hlength, Or.inr ⟨closing, hnone, hsplit⟩⟩, rfl⟩
    · next hopen =>
        rw [if_neg hopen]
        exact ⟨body.splitOn '|', ⟨by simpa using hlength, Or.inl rfl⟩, rfl⟩
  · rintro ⟨beats, ⟨hlength, hsplit⟩, rfl⟩
    refine ⟨?_, by rw [List.length_map, hlength]⟩
    obtain hsplit | ⟨closing, hclosing, hsplit⟩ := hsplit
    · rw [hsplit, if_neg]
      rintro ⟨hfive, -⟩
      rw [List.length_map, hlength] at hfive
      cases hfive
    · rw [hsplit, List.map_append, List.map_singleton, if_pos, List.dropLast_concat]
      rw [List.getLast?_concat, hlast]
      exact ⟨by simp [hlength], hclosing⟩

/-! ### Parsing -/

theorem ofBeats_eq_ok_iff {text : String} {measure : Measure} :
    ofBeats text (trim chord) (others.map trim) = .ok measure
      ↔ (folded chord others).map Prod.snd ∈ splits
        ∧ Span.Reads (chord :: others) measure.spans := by
  obtain ⟨first, rest⟩ := measure
  rw [← forall₂_folded_iff]
  simp only [ofBeats, folded, spans, List.map_cons, List.forall₂_cons]
  by_cases hsplit : (runs (trim chord) (others.map trim)).1.2
      :: (runs (trim chord) (others.map trim)).2.map Prod.snd ∈ splits
  · rw [if_neg (not_not_intro hsplit), and_iff_right hsplit]
    simp only [bind_eq_ok_iff, mapM_eq_ok_iff, pure, Except.pure, Except.ok.injEq, Measure.mk.injEq]
    constructor
    · rintro ⟨_, hfirst, _, hrest, rfl, rfl⟩
      exact ⟨hfirst, hrest⟩
    · rintro ⟨hfirst, hrest⟩
      exact ⟨first, hfirst, rest, hrest, rfl, rfl⟩
  · rw [if_pos hsplit]
    constructor
    · intro hthrow
      cases hthrow
    · rintro ⟨hmem, -⟩
      exact absurd hmem hsplit

/-- **A measure is read** exactly if it is four beats between bars whose chords stand on supported
beats, and its spans are what the beats read as. -/
theorem parse_eq_ok_iff {measure : Measure} :
    parse body = .ok measure
      ↔ ∃ beats, IsBarred body beats ∧ places beats ∈ supportedPlaces
        ∧ Span.Reads beats measure.spans := by
  constructor
  · intro hparse
    unfold parse at hparse
    dsimp only at hparse
    split at hparse
    · cases hparse
    · next hlength =>
        obtain ⟨beats, hbarred, htokens⟩ := beats_eq_iff.mp ⟨rfl, Decidable.of_not_not hlength⟩
        obtain ⟨chord, first, second, third, rfl⟩ := List.length_eq_four.mp hbarred.1
        rw [htokens, List.map_cons] at hparse
        dsimp only at hparse
        split at hparse
        · cases hparse
        · next hchord =>
            rw [isEmpty_trim] at hchord
            obtain ⟨hsplit, hreads⟩ := ofBeats_eq_ok_iff.mp hparse
            exact ⟨_, hbarred, (split_mem_splits_iff hchord).mp hsplit, hreads⟩
  · rintro ⟨beats, hbarred, hplaces, hreads⟩
    obtain ⟨htokens, hlength⟩ := beats_eq_iff.mpr ⟨beats, hbarred, rfl⟩
    obtain ⟨chord, first, second, third, rfl⟩ := List.length_eq_four.mp hbarred.1
    have hchord := not_allBlank_of_places hplaces
    unfold parse
    rw [htokens]
    dsimp only
    rw [if_neg (show ¬ _ ≠ beatsPerMeasure from not_not_intro hlength), List.map_cons]
    dsimp only
    rw [isEmpty_trim, if_neg hchord]
    exact ofBeats_eq_ok_iff.mpr ⟨(split_mem_splits_iff hchord).mpr hplaces, hreads⟩

/-- Four beats stand between bars, their chords on supported places and each of them notated. -/
def IsWritten (body : List Char) : Prop :=
  ∃ beats, IsBarred body beats ∧ places beats ∈ supportedPlaces
    ∧ ∀ beat ∈ beats, Span.isChord beat = true → ∃ degree mode, Span.Notates beat degree mode

theorem exists_parse_iff : (∃ measure, parse body = .ok measure) ↔ IsWritten body := by
  simp only [parse_eq_ok_iff, IsWritten]
  constructor
  · rintro ⟨measure, beats, hbarred, hplaces, hreads⟩
    refine ⟨beats, hbarred, hplaces, ?_⟩
    intro beat hbeat hchord
    obtain ⟨span, -, hnotates⟩ :=
      exists_of_mem_right hreads.forall₂.flip (List.mem_filter.mpr ⟨hbeat, hchord⟩)
    exact ⟨_, _, hnotates⟩
  · rintro ⟨beats, hbarred, hplaces, hchords⟩
    obtain ⟨chord, first, second, third, rfl⟩ := List.length_eq_four.mp hbarred.1
    have hchord := not_allBlank_of_places hplaces
    obtain ⟨degree, mode, hnotates⟩ :=
      hchords chord List.mem_cons_self (by simp [Span.isChord, hchord])
    obtain ⟨spans, hreads⟩ := Span.exists_reads hnotates
      fun beat hbeat => hchords beat (List.mem_cons_of_mem _ hbeat)
    obtain ⟨opening, rest, rfl⟩ := List.exists_cons_of_ne_nil hreads.ne_nil
    exact ⟨⟨opening, rest⟩, _, hbarred, hplaces, hreads⟩

end Measure

end ChordGrid
