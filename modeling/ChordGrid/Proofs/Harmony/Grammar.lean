import ChordGrid.Harmony.Pattern
import ChordGrid.Proofs.Harmony.Measure

namespace ChordGrid

open Text

namespace Pattern

/-- A text is some bodies in brackets, with blanks before, between and after them. -/
inductive Bracketed : List Char → List (List Char) → Prop
  | blank {gap : List Char} : allBlank gap = true → Bracketed gap []
  | body {gap body rest : List Char} {bodies : List (List Char)} :
      allBlank gap = true → (∀ c ∈ body, isBracket c = false) → Bracketed rest bodies →
      Bracketed (gap ++ '[' :: (body ++ ']' :: rest)) (body :: bodies)

/-- The bodies of the measures of a text. A text without brackets is the body of one measure. -/
def Frames (text : List Char) (bodies : List (List Char)) : Prop :=
  ((∀ c ∈ text, isBracket c = false) ∧ ¬ allBlank text = true ∧ bodies = [text])
    ∨ (Bracketed text bodies ∧ bodies ≠ [])

variable {text body rest : List Char} {found : List (List Char)}

/-! ### Brackets -/

theorem Bracketed.cons_blank {c : Char} (hc : isBlank c = true) (htext : Bracketed text found) :
    Bracketed (c :: text) found := by
  have hgap : ∀ gap : List Char, allBlank gap = true → allBlank (c :: gap) = true := by
    intro gap hgap
    rw [allBlank, List.all_cons, hc, Bool.true_and]
    exact hgap
  cases htext with
  | blank hblank => exact .blank (hgap _ hblank)
  | body hblank hbody hrest =>
      rw [← List.cons_append]
      exact .body (hgap _ hblank) hbody hrest

theorem bracketed_of_bodiesOutside (hfound : bodiesOutside text = some found) :
    Bracketed text found := by
  revert text found
  suffices hboth :
      (∀ text found, bodiesOutside text = some found → Bracketed text found)
        ∧ ∀ text body found, bodiesInside text = some (body, found) →
          ∃ rest, text = body ++ ']' :: rest ∧ (∀ c ∈ body, isBracket c = false)
            ∧ Bracketed rest found by
    intro text found hfound
    exact hboth.1 text found hfound
  -- The induction is that of the scanner: outside of brackets, and inside with the body so far.
  apply bodiesOutside.mutual_induct
  case case1 =>
    intro found hfound
    cases hfound
    exact .blank rfl
  case case2 =>
    intro rest ih found hfound
    rw [bodiesOutside, if_pos rfl, Option.map_eq_some_iff] at hfound
    obtain ⟨⟨body, more⟩, hinside, rfl⟩ := hfound
    obtain ⟨after, rfl, hbody, hafter⟩ := ih body more hinside
    have hgap : allBlank [] = true := rfl
    exact .body hgap hbody hafter
  case case3 =>
    intro c rest hc hblank ih found hfound
    rw [bodiesOutside, if_neg hc, if_pos hblank] at hfound
    exact (ih found hfound).cons_blank hblank
  case case4 =>
    intro c rest hc hblank found hfound
    rw [bodiesOutside, if_neg hc, if_neg hblank] at hfound
    cases hfound
  case case5 =>
    intro body found hfound
    cases hfound
  case case6 =>
    intro rest ih body found hfound
    rw [bodiesInside, if_pos rfl, Option.map_eq_some_iff] at hfound
    obtain ⟨more, houtside, heq⟩ := hfound
    cases heq
    exact ⟨rest, rfl, fun _ hmem => absurd hmem List.not_mem_nil, ih found houtside⟩
  case case7 =>
    intro rest hne body found hfound
    rw [bodiesInside, if_neg hne, if_pos rfl] at hfound
    cases hfound
  case case8 =>
    intro c rest hclose hopen ih body found hfound
    rw [bodiesInside, if_neg hclose, if_neg hopen, Option.map_eq_some_iff] at hfound
    obtain ⟨⟨more, others⟩, hinside, heq⟩ := hfound
    cases heq
    obtain ⟨after, rfl, hmore, hafter⟩ := ih more others hinside
    refine ⟨after, rfl, ?_, hafter⟩
    intro d hd
    obtain rfl | hd := List.mem_cons.mp hd
    · simp [isBracket, hclose, hopen]
    · exact hmore d hd

theorem bodiesOutside_append {gap : List Char} (hgap : allBlank gap = true) :
    bodiesOutside (gap ++ text) = bodiesOutside text := by
  induction gap with
  | nil => rfl
  | cons c gap ih =>
      rw [allBlank, List.all_cons, Bool.and_eq_true] at hgap
      have hc : c ≠ '[' := by
        rintro rfl
        cases hgap.1
      rw [List.cons_append, bodiesOutside, if_neg hc, if_pos hgap.1]
      exact ih hgap.2

theorem bodiesInside_append (hbody : ∀ c ∈ body, isBracket c = false) :
    bodiesInside (body ++ ']' :: rest) = (bodiesOutside rest).map fun found => (body, found) := by
  induction body with
  | nil => rw [List.nil_append, bodiesInside, if_pos rfl]
  | cons c body ih =>
      have hc := hbody c List.mem_cons_self
      rw [isBracket, Bool.or_eq_false_iff, decide_eq_false_iff_not, decide_eq_false_iff_not] at hc
      rw [List.cons_append, bodiesInside, if_neg hc.2, if_neg hc.1,
        ih fun d hd => hbody d (List.mem_cons_of_mem c hd), Option.map_map]
      rfl

/-- **The scanner finds** the bodies that a text is put together of. -/
theorem bodiesOutside_eq_some_iff : bodiesOutside text = some found ↔ Bracketed text found := by
  constructor
  · exact bracketed_of_bodiesOutside
  · intro htext
    induction htext with
    | @blank gap hgap =>
        have hend : bodiesOutside (gap ++ []) = some [] := bodiesOutside_append hgap
        rwa [List.append_nil] at hend
    | body hgap hbody _ ih =>
        rw [bodiesOutside_append hgap, bodiesOutside, if_pos rfl, bodiesInside_append hbody, ih]
        rfl

theorem any_isBracket_of_bracketed (htext : Bracketed text found) (hfound : found ≠ []) :
    text.any isBracket = true := by
  cases htext with
  | blank => exact absurd rfl hfound
  | body => exact List.any_eq_true.mpr ⟨'[', by simp, rfl⟩

theorem bodies_eq_ok_iff (hfound : found ≠ []) : bodies text = .ok found ↔ Frames text found := by
  have hplain : text.any isBracket = false ↔ ∀ c ∈ text, isBracket c = false := by
    simp
  rw [bodies, Frames]
  by_cases htext : text.any isBracket = true
  · rw [if_pos htext, ← hplain, htext, ← bodiesOutside_eq_some_iff]
    cases bodiesOutside text <;> simp [hfound]
  · rw [Bool.not_eq_true] at htext
    have hnot : ¬ Bracketed text found := by
      intro hbracketed
      have hsome := any_isBracket_of_bracketed hbracketed hfound
      rw [htext] at hsome
      cases hsome
    rw [if_neg (by simp [htext]), and_iff_right (hplain.mp htext)]
    by_cases hblank : allBlank text = true
    · simp [hblank, hnot, hfound.symm]
    · simp [hblank, hnot, eq_comm]

theorem ne_nil_of_frames (hframes : Frames text found) : found ≠ [] := by
  obtain ⟨-, -, rfl⟩ | ⟨-, hfound⟩ := hframes
  · exact List.cons_ne_nil _ _
  · exact hfound

theorem Frames.unique {others : List (List Char)} (hfound : Frames text found)
    (hothers : Frames text others) : others = found := by
  have hbodies := (bodies_eq_ok_iff (ne_nil_of_frames hfound)).mpr hfound
  rw [(bodies_eq_ok_iff (ne_nil_of_frames hothers)).mpr hothers] at hbodies
  exact Except.ok.inj hbodies

/-! ### Patterns -/

theorem parse_eq_ok_iff {name text : String} {pattern : Pattern} :
    parse name text = .ok pattern
      ↔ pattern.name = name ∧ ∃ bodies, Frames text.toList bodies
        ∧ List.Forall₂ (fun body measure => Measure.parse body = .ok measure) bodies
          pattern.measures := by
  obtain ⟨title, first, rest⟩ := pattern
  simp only [parse, bind_eq_ok_iff, mapM_eq_ok_iff, measures]
  constructor
  · rintro ⟨found, hfound, measures, hmeasures, hresult⟩
    cases hmeasures with
    | nil => cases hresult
    | cons hfirst hrest =>
        cases hresult
        exact ⟨rfl, _, (bodies_eq_ok_iff (List.cons_ne_nil _ _)).mp hfound, .cons hfirst hrest⟩
  · rintro ⟨rfl, found, hframes, hmeasures⟩
    exact ⟨found, (bodies_eq_ok_iff (ne_nil_of_frames hframes)).mpr hframes, _, hmeasures, rfl⟩

/-- A text is made of measures that are each written out. -/
def IsWritten (text : List Char) : Prop :=
  ∃ bodies, Frames text bodies ∧ ∀ body ∈ bodies, Measure.IsWritten body

/-- The beats of the measures of a text. -/
def IsBarred (text : List Char) (grid : List (List (List Char))) : Prop :=
  ∃ bodies, Frames text bodies ∧ List.Forall₂ Measure.IsBarred bodies grid

theorem exists_parse_iff {name text : String} :
    (∃ pattern, parse name text = .ok pattern) ↔ IsWritten text.toList := by
  simp only [parse_eq_ok_iff, IsWritten, ← Measure.exists_parse_iff]
  constructor
  · rintro ⟨pattern, -, bodies, hframes, hmeasures⟩
    refine ⟨bodies, hframes, ?_⟩
    intro body hbody
    obtain ⟨measure, -, hmeasure⟩ := exists_of_mem_right hmeasures.flip hbody
    exact ⟨measure, hmeasure⟩
  · rintro ⟨bodies, hframes, hbodies⟩
    obtain ⟨measures, hmeasures⟩ := exists_forall₂ hbodies
    obtain ⟨body, others, rfl⟩ := List.exists_cons_of_ne_nil (ne_nil_of_frames hframes)
    cases hmeasures with
    | cons hfirst hrest => exact ⟨⟨name, _, _⟩, rfl, _, hframes, .cons hfirst hrest⟩

theorem exists_reads_of_parse {name text : String} {pattern : Pattern}
    (hparse : parse name text = .ok pattern) :
    ∃ grid, IsBarred text.toList grid ∧ List.Forall₂
      (fun beats measure => Span.Reads beats measure.spans) grid pattern.measures := by
  obtain ⟨-, bodies, hframes, hmeasures⟩ := parse_eq_ok_iff.mp hparse
  have hread : ∀ body measure, Measure.parse body = .ok measure →
      ∃ beats, Measure.IsBarred body beats ∧ Span.Reads beats measure.spans := by
    intro body measure hmeasure
    obtain ⟨beats, hbarred, -, hreads⟩ := Measure.parse_eq_ok_iff.mp hmeasure
    exact ⟨beats, hbarred, hreads⟩
  obtain ⟨grid, hbarred, hreads⟩ := exists_forall₂_and_forall₂ (hmeasures.imp hread)
  exact ⟨grid, ⟨bodies, hframes, hbarred⟩, hreads⟩

theorem IsBarred.unique {text : List Char} {grid other : List (List (List Char))}
    (hgrid : IsBarred text grid) (hother : IsBarred text other) : other = grid := by
  obtain ⟨bodies, hframes, hbodies⟩ := hgrid
  obtain ⟨_, hagain, hothers⟩ := hother
  rw [hframes.unique hagain] at hothers
  have hunique : Relator.RightUnique Measure.IsBarred :=
    fun _ _ _ hbeats hother => (hbeats.unique hother).symm
  exact hunique.forall₂ hothers hbodies

theorem length_of_isBarred {text : List Char} {grid : List (List (List Char))}
    (hgrid : IsBarred text grid) : ∀ beats ∈ grid, beats.length = 4 := by
  intro beats hbeats
  obtain ⟨bodies, -, hbodies⟩ := hgrid
  obtain ⟨body, -, hbarred⟩ := exists_of_mem_right hbodies hbeats
  exact hbarred.1

/-- **The grammar of patterns.** A text is read exactly if it is written in measures, and every
other text gives a fault. What is read has a measure of four beats for each body, and a span for
each chord in it. -/
theorem parse_accepts_iff_isWritten (name text : String) :
    ((∃ pattern, parse name text = .ok pattern) ↔ IsWritten text.toList)
      ∧ ((∃ fault, parse name text = .error fault) ↔ ¬ IsWritten text.toList)
      ∧ ∀ pattern, parse name text = .ok pattern → ∃ grid, IsBarred text.toList grid
        ∧ List.Forall₂ (fun beats measure => (measure.spans.map Span.beats).sum = 4
          ∧ List.Forall₂ (fun chord span => Span.Notates chord span.degree span.mode)
            (beats.filter Span.isChord) measure.spans) grid pattern.measures := by
  refine ⟨exists_parse_iff, ?_, ?_⟩
  · have hwritten : (∃ pattern, parse name text = .ok pattern) ↔ IsWritten text.toList :=
      exists_parse_iff
    rw [← hwritten]
    cases parse name text <;> simp
  · intro pattern hparse
    obtain ⟨grid, hgrid, hreads⟩ := exists_reads_of_parse hparse
    refine ⟨grid, hgrid, ?_⟩
    have hlength := length_of_isBarred hgrid
    have hboth := (List.forall₂_and_left grid pattern.measures).mpr ⟨hlength, hreads⟩
    refine hboth.imp ?_
    rintro beats measure ⟨hfour, hmeasure⟩
    exact ⟨hmeasure.sum_beats.trans hfour, hmeasure.forall₂⟩

end Pattern

end ChordGrid
