import ChordGrid.Proofs.Build.Compiling
import ChordGrid.Proofs.Build.Pickups
import ChordGrid.Proofs.Pitch.Layout
import ChordGrid.Proofs.Rescaling.Edition

/-!
# The extent of a song

What is written in the cells of a pattern stays inside its occurrences, however long its grid is and
however long its steps are held: neither a step nor a hold behind the last cell of the pattern
counts. A pickup ends where its occurrence starts. So nothing but tails sounds past the end of a
song, and it does so by no more than the longest of them.
-/

namespace ChordGrid

theorem Resolution.ofCells_mono (r : Resolution) {count more : Nat} (h : count ≤ more) :
    r.ofCells count ≤ r.ofCells more :=
  Nat.mul_le_mul_right r.sixteenth h

theorem Cell.add_holdsAfter_le {cells : List Cell} {index limit : Nat}
    (hindex : index < (cells.take limit).length) :
    index + (holdsAfter cells index limit + 1) ≤ (cells.take limit).length := by
  have hholds : holdsAfter cells index limit ≤ ((cells.take limit).drop (index + 1)).length :=
    (List.takeWhile_sublist _).length_le
  rw [List.length_drop] at hholds
  omega

/-! ### Sounds -/

/-- The tick where the placed pattern ends. -/
def Placement.stop (place : Placement) : Nat :=
  place.position + place.resolution.ofCells place.pattern.cellCount

namespace Sound

/-- A sound starts and ends inside the placed pattern. -/
def IsInside (place : Placement) (sound : Sound) : Prop :=
  place.position ≤ sound.tick ∧ sound.tick + sound.gate ≤ place.stop

/-- A sound of the main stave lies inside the pattern, and none is over later than a tail of so many
cells would be. -/
structure KeepsTo (place : Placement) (tail : Nat) (sound : Sound) : Prop where
  inside : sound.stave = .main → sound.IsInside place
  reach : sound.tick + sound.gate ≤ place.stop + place.resolution.ofCells tail

theorem IsInside.keepsTo {place : Placement} {sound : Sound} (h : sound.IsInside place)
    (tail : Nat) : sound.KeepsTo place tail :=
  ⟨fun _ => h, Nat.le_trans h.2 (Nat.le_add_right _ _)⟩

end Sound

section Sounds

variable {place : Placement} {tail : Nat} {sound : Sound}

theorem Sound.isInside_of_cell {index tick gate : Nat}
    (hcell : place.cellTick place.position index = some tick)
    (hindex : index < place.pattern.cellCount) (hgate : gate ≤ place.resolution.sixteenth)
    (tone : Tone) : IsInside place ⟨.main, index, tone, tick, gate⟩ := by
  have htick := (Placement.cellTick_eq_some_iff.mp hcell).1
  have hcells : place.resolution.sixteenth * index + place.resolution.sixteenth
      ≤ place.resolution.ofCells place.pattern.cellCount := by
    calc place.resolution.sixteenth * index + place.resolution.sixteenth
        = place.resolution.ofCells (index + 1) := by
          rw [Resolution.ofCells, Nat.mul_comm, Nat.succ_mul]
      _ ≤ place.resolution.ofCells place.pattern.cellCount :=
          place.resolution.ofCells_mono hindex
  unfold IsInside Placement.stop
  dsimp only
  omega

theorem PercussionLine.isInside_of_mem_sounds {line : PercussionLine}
    (hsound : sound ∈ line.sounds place) : sound.stave = .main ∧ sound.IsInside place := by
  obtain ⟨index, tick, hindex, htick, rfl⟩ := exists_of_mem_sounds hsound
  exact ⟨rfl, Sound.isInside_of_cell htick hindex (Nat.le_refl _) _⟩

theorem Generator.isInside_of_mem_sounds {g : Generator} {sounds : List Sound}
    (hsounds : g.sounds place = .ok sounds) :
    ∀ sound ∈ sounds, sound.stave = .main ∧ sound.IsInside place := by
  intro sound hsound
  obtain ⟨index, tick, step, hindex, htick, rfl⟩ := exists_of_mem_sounds hsounds hsound
  have hquantum : place.resolution.quantum ≤ place.resolution.sixteenth := by
    rw [place.resolution.sixteenth_eq]
    omega
  exact ⟨rfl, Sound.isInside_of_cell htick hindex hquantum _⟩

theorem Strip.bounds_of_mem_sounds {strip : Strip} {stave : Stave} {interval : Int}
    (hsound : sound ∈ strip.sounds place stave interval) :
    sound.stave = stave ∧ strip.origin ≤ sound.tick
      ∧ ((sound.tick + sound.gate : Nat) : Int)
        ≤ strip.origin
          + (place.resolution.ofCells (strip.cells.take strip.limit).length : Nat) := by
  obtain ⟨⟨step, index, tick⟩, hattack, rfl⟩ := List.mem_map.mp hsound
  obtain ⟨hcell, hplaced⟩ := Strip.mem_attacks_iff.mp hattack
  have htick := (Placement.cellTick_eq_some_iff.mp hplaced).1
  have hend : place.resolution.sixteenth * index
        + place.resolution.ofCells (Cell.holdsAfter strip.cells index strip.limit + 1)
      ≤ place.resolution.ofCells (strip.cells.take strip.limit).length := by
    have hindex := (List.getElem?_eq_some_iff.mp hcell).1
    have hle := place.resolution.ofCells_mono (Cell.add_holdsAfter_le hindex)
    rwa [Resolution.ofCells, Nat.add_mul, Nat.mul_comm index] at hle
  refine ⟨rfl, Placement.le_of_cellTick hplaced, ?_⟩
  dsimp only
  omega

theorem PitchedLine.keepsTo_of_mem_sounds {line : PitchedLine}
    (htail : line.tail.length ≤ tail) (hsound : sound ∈ line.sounds place) :
    sound.KeepsTo place tail := by
  have hreach := place.resolution.ofCells_mono htail
  rw [sounds, List.mem_append, List.mem_append] at hsound
  obtain (hpickup | hmain) | hafter := hsound
  · obtain ⟨hstave, -, hend⟩ := Strip.bounds_of_mem_sounds hpickup
    simp only [pickupStrip, List.take_length] at hend
    refine ⟨fun h => ?_, ?_⟩
    · rw [hstave] at h
      cases h
    · unfold Placement.stop
      omega
  · obtain ⟨-, hstart, hend⟩ := Strip.bounds_of_mem_sounds hmain
    simp only [mainStrip] at hstart hend
    have hcells := place.resolution.ofCells_mono (List.length_take_le place.pattern.cellCount
      line.cells)
    have hinside : sound.IsInside place := by
      unfold Sound.IsInside Placement.stop
      omega
    exact hinside.keepsTo tail
  · obtain ⟨hstave, -, hend⟩ := Strip.bounds_of_mem_sounds hafter
    simp only [tailStrip, List.take_length] at hend
    refine ⟨fun h => ?_, ?_⟩
    · rw [hstave] at h
      cases h
    · unfold Placement.stop
      omega

theorem Content.keepsTo_of_mem_sounds {content : Content} {sounds : List Sound}
    (htails : ∀ line ∈ content.pitchedLines, line.tail.length ≤ tail)
    (hsounds : content.sounds place = .ok sounds) : ∀ sound ∈ sounds, sound.KeepsTo place tail := by
  intro sound hsound
  cases content with
  | drum lines =>
      cases hsounds
      obtain ⟨line, -, hmem⟩ := List.mem_flatMap.mp hsound
      exact (line.isInside_of_mem_sounds hmem).2.keepsTo tail
  | pad lines =>
      cases hsounds
      obtain ⟨line, hline, hmem⟩ := List.mem_flatMap.mp hsound
      exact line.keepsTo_of_mem_sounds (htails line hline) hmem
  | bass line =>
      cases hsounds
      exact line.keepsTo_of_mem_sounds (htails line (List.mem_singleton_self line)) hsound
  | seque g => exact (g.isInside_of_mem_sounds hsounds sound hsound).2.keepsTo tail

theorem Content.stave_of_mem_sounds {content : Content} {sounds : List Sound}
    (hkind : content.kind = .drum ∨ content.kind = .seque)
    (hsounds : content.sounds place = .ok sounds) : ∀ sound ∈ sounds, sound.stave = .main := by
  intro sound hsound
  cases content with
  | drum lines =>
      cases hsounds
      obtain ⟨line, -, hmem⟩ := List.mem_flatMap.mp hsound
      exact (line.isInside_of_mem_sounds hmem).1
  | pad lines => simp [kind] at hkind
  | bass line => simp [kind] at hkind
  | seque g => exact (g.isInside_of_mem_sounds hsounds sound hsound).1

end Sounds

/-! ### Notes of an occurrence -/

/-- A note starts and ends inside an occurrence. -/
def Occurrence.Holds (r : Resolution) (occurrence : Occurrence) (note : Note) : Prop :=
  occurrence.start ≤ note.tick ∧ note.tick + note.gate ≤ occurrence.stop r

namespace Phrase

/-- Notes that a phrase plays for an occurrence, each laid out as a sound. Percussion, what is
generated, and the main grids of all voices lie inside the occurrence. Nothing is over later than a
tail of so many cells would be. -/
def KeepsTo (phrase : Phrase) (r : Resolution) (tonality : Tonality) (occurrence : Occurrence)
    (tail : Nat) (notes : List Note) : Prop :=
  ∃ played sounds, phrase.SameSheet played
    ∧ played.sounds occurrence.start tonality occurrence.pattern = .ok sounds
    ∧ List.Forall₂ (fun sound note =>
        sound.note (played.placement occurrence.start tonality occurrence.pattern) = .ok note
          ∧ (sound.stave = .main ∨ phrase.kind = .drum ∨ phrase.kind = .seque →
            occurrence.Holds r note)
          ∧ note.tick + note.gate ≤ occurrence.stop r + r.ofCells tail) sounds notes

theorem stop_placement (phrase : Phrase) (tonality : Tonality) (occurrence : Occurrence) :
    (phrase.placement occurrence.start tonality occurrence.pattern).stop
      = occurrence.stop phrase.resolution := by
  rw [Occurrence.stop, ← Resolution.ofCells_cellCount]
  rfl

variable {phrase : Phrase} {tonality : Tonality} {occurrence : Occurrence} {notes : List Note}
  {tail : Nat}

theorem MayPlay.keepsTo (hplay : phrase.MayPlay tonality occurrence notes)
    (htails : ∀ line ∈ phrase.content.pitchedLines, line.tail.length ≤ tail) :
    phrase.KeepsTo phrase.resolution tonality occurrence tail notes := by
  obtain ⟨played, hsheet, hplayed⟩ := hplay
  obtain ⟨sounds, hsounds, hnotes⟩ := exists_sounds_of_play hplayed
  rw [hsheet.content.pitchedLines_eq] at htails
  have hkeeps := forall_mem_sounds (fun _ => Content.keepsTo_of_mem_sounds htails) hsounds
  have hmain : phrase.kind = .drum ∨ phrase.kind = .seque →
      ∀ sound ∈ sounds, sound.stave = .main := by
    intro hkind
    rw [hsheet.kind] at hkind
    exact forall_mem_sounds (fun _ => Content.stave_of_mem_sounds hkind) hsounds
  refine ⟨played, sounds, hsheet, hsounds, ?_⟩
  have hall : ∀ sound ∈ sounds,
      (phrase.kind = .drum ∨ phrase.kind = .seque → sound.stave = .main) ∧
        sound.KeepsTo (played.placement occurrence.start tonality occurrence.pattern) tail :=
    fun sound hsound => ⟨fun hkind => hmain hkind sound hsound, hkeeps sound hsound⟩
  refine ((List.forall₂_and_left _ _).mpr ⟨hall, hnotes⟩).imp ?_
  intro sound note h
  obtain ⟨⟨hstave, hinside, hreach⟩, hnote⟩ := h
  obtain ⟨-, htick, hgate, -⟩ := Sound.note_eq_ok_iff.mp hnote
  rw [stop_placement] at hreach
  rw [Sound.IsInside, stop_placement] at hinside
  rw [Occurrence.Holds, htick, hgate, hsheet.resolution]
  refine ⟨hnote, ?_, hreach⟩
  intro hcase
  exact hinside (hcase.elim id hstave)

end Phrase

/-- The cells of the longest tail among all voices. -/
def longestTail (phrases : List Phrase) : Nat :=
  ((phrases.flatMap fun phrase => phrase.content.pitchedLines).map fun line =>
    line.tail.length).max?.getD 0

theorem length_le_longestTail {phrases : List Phrase} {phrase : Phrase} (hphrase : phrase ∈ phrases)
    {line : PitchedLine} (hline : line ∈ phrase.content.pitchedLines) :
    line.tail.length ≤ longestTail phrases := by
  apply List.le_max?_getD_of_mem
  exact List.mem_map_of_mem (List.mem_flatMap.mpr ⟨phrase, hphrase, hline⟩)

theorem longestTail_eq_zero {phrases : List Phrase}
    (htails : ∀ phrase ∈ phrases, ∀ line ∈ phrase.content.pitchedLines, line.tail = []) :
    longestTail phrases = 0 := by
  unfold longestTail
  cases hlongest : ((phrases.flatMap fun phrase => phrase.content.pitchedLines).map fun line =>
      line.tail.length).max? with
  | none => rfl
  | some length =>
      obtain ⟨line, hline, rfl⟩ := List.mem_map.mp (List.max?_mem hlongest)
      obtain ⟨phrase, hphrase, hmem⟩ := List.mem_flatMap.mp hline
      rw [htails phrase hphrase line hmem]
      rfl

/-! ### Songs -/

theorem Timeline.stop_le_of_mem_place {r : Resolution} {start : Nat} {patterns : List Pattern}
    {occurrence : Occurrence} (h : occurrence ∈ place r start patterns) :
    occurrence.stop r ≤ start + totalLength r patterns := by
  induction patterns generalizing start with
  | nil => cases h
  | cons pattern rest ih =>
      rw [totalLength, ← Nat.add_assoc]
      cases h with
      | head => exact Nat.le_add_right _ _
      | tail _ hrest => exact ih hrest

namespace Part

variable {part : Part} {timeline : Timeline} {r : Resolution} {tail : Nat}

/-- The notes that a part plays in a song, with a row for each occurrence and in it the notes of
each phrase, none of which has a longer tail than so many cells. -/
def KeepsTo (part : Part) (r : Resolution) (timeline : Timeline) (tail : Nat)
    (table : List (List (List Note))) : Prop :=
  List.Forall₂ (fun occurrence row =>
    List.Forall₂ (fun phrase notes => phrase.KeepsTo r timeline.tonality occurrence tail notes)
      part.phrases row) timeline.occurrences table

theorem exists_keepsTo_of_build {made : List Timed}
    (hmade : (part.build timeline 0 .playback).1 = .ok made)
    (hresolution : ∀ phrase ∈ part.phrases, phrase.resolution = r)
    (htails : ∀ phrase ∈ part.phrases, ∀ line ∈ phrase.content.pitchedLines,
      line.tail.length ≤ tail) :
    ∃ table, made = part.selection 0 ++ table.flatten.flatten.flatMap (strike part.channel)
      ∧ part.KeepsTo r timeline tail table := by
  obtain ⟨table, htable, hstruck⟩ := exists_table_of_build hmade
  rw [BuildMode.start, Timeline.startingFrom_zero] at htable
  refine ⟨table, hstruck, htable.imp ?_⟩
  intro occurrence row hrow
  refine ((List.forall₂_and_left _ _).mpr ⟨fun _ hphrase => hphrase, hrow⟩).imp ?_
  intro phrase notes h
  rw [← hresolution phrase h.1]
  exact h.2.keepsTo (htails phrase h.1)

theorem exists_note_of_mem_strikes {channel : Nat} {notes : List Note} {timed : Timed}
    (htimed : timed ∈ notes.flatMap (strike channel)) :
    ∃ note ∈ notes, timed.tick ≤ note.tick + note.gate := by
  obtain ⟨note, hnote, hstrike⟩ := List.mem_flatMap.mp htimed
  simp only [strike, List.mem_cons, List.not_mem_nil, or_false] at hstrike
  refine ⟨note, hnote, ?_⟩
  obtain rfl | rfl := hstrike
  · exact Nat.le_add_right _ _
  · exact Nat.le_refl _

theorem KeepsTo.tick_le {table : List (List (List Note))}
    (htable : part.KeepsTo r timeline tail table) {length : Nat}
    (hlength : ∀ occurrence ∈ timeline.occurrences, occurrence.stop r ≤ length) :
    ∀ timed ∈ part.selection 0 ++ table.flatten.flatten.flatMap (strike part.channel),
      timed.tick ≤ length + r.ofCells tail := by
  intro timed htimed
  obtain hselected | hplayed := List.mem_append.mp htimed
  · rw [tick_of_mem_selection hselected]
    exact Nat.zero_le _
  · obtain ⟨note, hnote, hle⟩ := exists_note_of_mem_strikes hplayed
    obtain ⟨notes, hnotes, hnote⟩ := List.mem_flatten.mp hnote
    obtain ⟨row, hrow, hnotes⟩ := List.mem_flatten.mp hnotes
    obtain ⟨occurrence, hoccurrence, hrow⟩ := exists_of_mem_right htable hrow
    obtain ⟨phrase, -, played, sounds, -, -, hsounds⟩ := exists_of_mem_right hrow hnotes
    obtain ⟨sound, -, -, -, hreach⟩ := exists_of_mem_right hsounds hnote
    calc timed.tick
        ≤ note.tick + note.gate := hle
      _ ≤ occurrence.stop r + r.ofCells tail := hreach
      _ ≤ length + r.ofCells tail := Nat.add_le_add_right (hlength occurrence hoccurrence) _

end Part

namespace Score

variable {score : Score} {settings : Settings}

/-- **Nothing sounds past the end of a song except tails.** In the edition of any score no message
comes later than the end of the song and the longest tail of a voice after it, and without tails
none comes after the end. Of the notes that its parts play for an occurrence, those of a main grid,
of percussion and of a generated line start and end inside the occurrence. -/
theorem nothing_past_end_but_tails {edition : Edition}
    (hcompile : Edition.compile score settings = .ok edition) :
    ∃ r arrangement phrases, settings.resolution = .ok r
      ∧ score.compile settings = .ok arrangement
      ∧ score.compilePhrases settings r = .ok phrases
      ∧ (arrangement.build 0 .playback).1 = .ok edition.roll
      ∧ (∀ timed ∈ edition.roll.stream,
        timed.tick ≤ edition.length + r.ofCells (longestTail phrases))
      ∧ ((∀ phrase ∈ phrases, ∀ line ∈ phrase.content.pitchedLines, line.tail = []) →
        ∀ last, edition.roll.finalTick? = some last → last ≤ edition.length)
      ∧ ∀ part ∈ arrangement.parts, ∃ table,
        (part.build arrangement.timeline 0 .playback).1
            = .ok (part.selection 0 ++ table.flatten.flatten.flatMap (Part.strike part.channel))
          ∧ part.KeepsTo r arrangement.timeline (longestTail phrases) table := by
  obtain ⟨arrangement, messages, harrangement, hmessages, rfl⟩ :=
    Edition.compile_eq_ok_iff.mp hcompile
  obtain ⟨r, key, mode, patterns, phrases, hr, -, -, -, htimeline, hphrases, hparts, -, -⟩ :=
    Score.compile_eq_ok_iff.mp harrangement
  obtain ⟨called, -, hplaced⟩ := bind_eq_ok_iff.mp htimeline
  have htaken := mem_phrases_of_compile hparts
  have htables : ∀ part ∈ arrangement.parts, ∀ made,
      (part.build arrangement.timeline 0 .playback).1 = .ok made →
        ∃ table, made
            = part.selection 0 ++ table.flatten.flatten.flatMap (Part.strike part.channel)
          ∧ part.KeepsTo r arrangement.timeline (longestTail phrases) table := by
    intro part hpart made hmade
    apply Part.exists_keepsTo_of_build hmade
    · intro phrase hphrase
      exact resolution_of_compilePhrases hphrases phrase (htaken part hpart phrase hphrase)
    · intro phrase hphrase line hline
      exact length_le_longestTail (htaken part hpart phrase hphrase) hline
  have hstops : ∀ occurrence ∈ arrangement.timeline.occurrences,
      occurrence.stop r ≤ arrangement.timeline.length := by
    rw [← Except.ok.inj hplaced]
    intro occurrence hoccurrence
    have hle := Timeline.stop_le_of_mem_place hoccurrence
    rwa [Nat.zero_add] at hle
  have hticks : ∀ timed ∈ messages,
      timed.tick ≤ arrangement.timeline.length + r.ofCells (longestTail phrases) := by
    intro timed htimed
    obtain hmixed | ⟨part, hpart, made, -, hmade, hmem⟩ :=
      Arrangement.exists_build_of_mem hmessages htimed
    · rw [tick_of_mem_mixdown hmixed]
      exact Nat.zero_le _
    · obtain ⟨table, rfl, htable⟩ := htables part hpart made hmade
      exact htable.tick_le hstops timed hmem
  refine ⟨r, arrangement, phrases, hr, harrangement, hphrases,
    map_eq_ok_iff.mpr ⟨messages, hmessages, rfl⟩, ?_, ?_, ?_⟩
  · intro timed htimed
    exact hticks timed (Roll.mem_stream_ofMessages.mp htimed)
  · intro htails last hlast
    obtain ⟨timed, htimed, rfl⟩ := Roll.exists_of_finalTick_ofMessages hlast
    have hle := hticks timed htimed
    rwa [longestTail_eq_zero htails, Resolution.ofCells, Nat.zero_mul, Nat.add_zero] at hle
  · intro part hpart
    obtain ⟨lists, hlists, -⟩ := map_eq_ok_iff.mp hmessages
    obtain ⟨made, -, hmade⟩ := exists_of_mem_left (sweep_eq_ok_iff.mp hlists) hpart
    obtain ⟨table, rfl, htable⟩ := htables part hpart made hmade
    exact ⟨table, hmade, htable⟩

end Score

/-- A bass whose last step is held over the end of its pattern and whose tail is held to its own
end, drums that go on for another beat, and a generated line. -/
def overhanging : Score where
  song := { name := "", tempo := none, key := "C", mode := "Ion", order := ["a", "a"] }
  patterns := [⟨"a", "I| | | "⟩]
  phrases :=
    [{ kind := "bass", name := "a", note := some "[1---|----|----|---1][>>>>]",
       post := some "1>>>" },
      { kind := "drum", name := "a",
        data := some { inst := some ["35"], note := some ["x---|----|----|---x|xxxx"] } },
      { kind := "seque", name := "a" }]
  parts := [⟨"bass", 0, "33"⟩, ⟨"drum", 9, "0"⟩, ⟨"seque", 1, "0"⟩]
  faders := []

/-- The song ends at tick 3840 and its last tail a beat later. -/
theorem Score.nothing_past_end_but_tails_overhanging :
    ∃ edition, Edition.compile overhanging {} = .ok edition ∧ edition.length = 3840
      ∧ ∀ timed ∈ edition.roll.stream, timed.tick ≤ 4320 := by
  have hlength : (Edition.compile overhanging {}).toOption.any
      (fun edition => edition.length = 3840) = true := by
    decide +kernel
  obtain ⟨edition, hcompile, hlength⟩ := exists_ok_of_any hlength
  have hlength := of_decide_eq_true hlength
  obtain ⟨r, arrangement, phrases, hr, -, hphrases, -, hticks, -⟩ :=
    Score.nothing_past_end_but_tails hcompile
  have hstandard : ({} : Settings).resolution = .ok .standard := by
    decide
  cases hstandard.symm.trans hr
  have hcompiled : (overhanging.compilePhrases {} .standard).toOption.any
      (fun phrases => longestTail phrases = 4) = true := by
    decide +kernel
  obtain ⟨others, hothers, htail⟩ := exists_ok_of_any hcompiled
  cases hothers.symm.trans hphrases
  rw [of_decide_eq_true htail, hlength] at hticks
  exact ⟨edition, hcompile, hlength, hticks⟩

end ChordGrid
