import ChordGrid.Proofs.Build.Sheets
import ChordGrid.Proofs.Roll.Sorting

/-!
# Sounds

A phrase plays in two steps. It lays out its sounds: each has its tick and its length, and is a
percussion key or a step above the chord of the cell it is written in. Then each sound is given a
pitch. The layout looks at the position and at the length of the pattern, and draws from the
generator, but it knows neither key nor mode nor chords. These come in with the pitches alone.
-/

namespace ChordGrid

/-- A span that borrows no mode counts as one that borrows the mode of the song. -/
theorem Tonality.pitch_eq_ite (tonality : Tonality) (span : Span) (step : Step) :
    tonality.pitch span step
      = if span.mode.getD tonality.mode = tonality.mode
        then tonality.diatonicPitch span.degree step
        else tonality.borrowedPitch span.degree (span.mode.getD tonality.mode) step := by
  rw [pitch]
  cases span.mode with
  | none => exact (if_pos rfl).symm
  | some borrowed => rfl

/-- Where a sound is written. What is generated fills the cells of the pattern itself. -/
inductive Stave where
  | pickup
  | main
  | tail
  deriving DecidableEq, Repr

/-- The chord above which the steps of a cell are counted. -/
def Pattern.chordOf (pattern : Pattern) (cell : Nat) : Stave → Span
  | .pickup => pattern.opening
  | .main => pattern.spanOfCell cell
  | .tail => pattern.closing

inductive Tone where
  | key (pitch : Nat)
  /-- A step, moved by an interval in semitones. -/
  | step (step : Step) (interval : Int)
  deriving DecidableEq, Repr

def Tone.isKey : Tone → Bool
  | key _ => true
  | step _ _ => false

/-- A note without its pitch. -/
structure Sound where
  stave : Stave
  cell : Nat
  tone : Tone
  tick : Nat
  gate : Nat
  deriving DecidableEq, Repr

namespace Sound

def chord (sound : Sound) (pattern : Pattern) : Span :=
  pattern.chordOf sound.cell sound.stave

def pitch (sound : Sound) (tonality : Tonality) (pattern : Pattern) : Except Fault Nat :=
  match sound.tone with
  | .key pitch => .ok pitch
  | .step step interval =>
    shiftedPitch (tonality.pitch (sound.chord pattern) step) interval

def note (place : Placement) (sound : Sound) : Except Fault Note :=
  (sound.pitch place.tonality place.pattern).map fun pitch =>
    ⟨sound.tick, pitch, sound.gate, place.velocity⟩

variable {sound : Sound} {place : Placement} {note : Note}

theorem note_eq_ok_iff :
    sound.note place = .ok note ↔ sound.pitch place.tonality place.pattern = .ok note.pitch
      ∧ note.tick = sound.tick ∧ note.gate = sound.gate ∧ note.velocity = place.velocity := by
  rw [Sound.note, map_eq_ok_iff]
  constructor
  · rintro ⟨pitch, hpitch, rfl⟩
    exact ⟨hpitch, rfl, rfl, rfl⟩
  · obtain ⟨tick, pitch, gate, velocity⟩ := note
    rintro ⟨hpitch, rfl, rfl, rfl⟩
    exact ⟨pitch, hpitch, rfl⟩

theorem note_agree {other : Placement} {again : Note} (hnote : sound.note place = .ok note)
    (hagain : sound.note other = .ok again) (hvelocity : other.velocity = place.velocity) :
    again.tick = note.tick ∧ again.gate = note.gate ∧ again.velocity = note.velocity := by
  obtain ⟨-, htick, hgate, hplaced⟩ := note_eq_ok_iff.mp hnote
  obtain ⟨-, htick', hgate', hplaced'⟩ := note_eq_ok_iff.mp hagain
  exact ⟨htick'.trans htick.symm, hgate'.trans hgate.symm,
    hplaced'.trans (hvelocity.trans hplaced.symm)⟩

end Sound

theorem shiftedPitch_zero (tonality : Tonality) (span : Span) (step : Step) :
    shiftedPitch (tonality.pitch span step) 0 = midiPitch (tonality.pitch span step) := by
  have hle := tonality.pitch_le span step
  have hwide : ¬ ((tonality.pitch span step : Int) + 0 > widestPitch) := by
    have hwidest : widestPitch = 2147483647 := by decide
    omega
  rw [shiftedPitch, if_neg hwide, Int.add_zero]

/-! ### Layouts -/

namespace PercussionLine

def sounds (line : PercussionLine) (place : Placement) : List Sound :=
  (line.hits.take place.pattern.cellCount).zipIdx.filterMap fun (hit, index) =>
    if hit then
      (place.cellTick place.position index).map fun tick =>
        ⟨.main, index, .key line.key, tick, place.resolution.sixteenth⟩
    else none

end PercussionLine

def Strip.sounds (strip : Strip) (place : Placement) (stave : Stave) (interval : Int) :
    List Sound :=
  (strip.attacks place).map fun (step, index, tick) =>
    ⟨stave, index, .step step interval, tick,
      place.resolution.ofCells (Cell.holdsAfter strip.cells index strip.limit + 1)⟩

def PitchedLine.sounds (line : PitchedLine) (place : Placement) : List Sound :=
  (line.pickupStrip place).sounds place .pickup line.interval
    ++ (line.mainStrip place).sounds place .main line.interval
    ++ (line.tailStrip place).sounds place .tail line.interval

namespace Generator

def sounds (g : Generator) (place : Placement) : Except Fault (List Sound) :=
  match g.steps? (slots place).length with
  | none => .error .endlessDraw
  | some (steps, _) => .ok (((slots place).zip steps).map fun ((index, tick), step) =>
      ⟨.main, index, .step step 0, tick, place.resolution.quantum⟩)

end Generator

def Content.sounds (content : Content) (place : Placement) : Except Fault (List Sound) :=
  match content with
  | drum lines => .ok (lines.flatMap (PercussionLine.sounds · place))
  | pad lines => .ok (lines.flatMap (PitchedLine.sounds · place))
  | bass line => .ok (line.sounds place)
  | seque generator => generator.sounds place

/-- The sounds of one occurrence of a pattern, in the order of their ticks. -/
def Phrase.sounds (phrase : Phrase) (position : Nat) (tonality : Tonality) (pattern : Pattern) :
    Except Fault (List Sound) :=
  if phrase.name ≠ pattern.name then .ok []
  else (phrase.content.sounds (phrase.placement position tonality pattern)).map
    (sortedBy Sound.tick)

/-! ### Notes are sounds with a pitch -/

theorem mapM_flatMap {ε α β γ : Type} (f : α → List β) (g : β → Except ε γ) (things : List α) :
    (things.flatMap f).mapM g = (things.mapM fun thing => (f thing).mapM g).map List.flatten := by
  induction things with
  | nil => rfl
  | cons thing rest ih =>
      rw [List.flatMap_cons, List.mapM_append, List.mapM_cons, ih]
      cases (f thing).mapM g with
      | error failure => rfl
      | ok first =>
          cases rest.mapM fun thing => (f thing).mapM g with
          | error failure => rfl
          | ok more => rfl

variable {place : Placement}

theorem PercussionLine.notes_eq_map_sounds (line : PercussionLine) (place : Placement) :
    line.notes place = (line.sounds place).map fun sound =>
      ⟨sound.tick, line.key, sound.gate, place.velocity⟩ := by
  rw [notes, sounds, List.map_filterMap]
  congr 1
  funext cell
  obtain ⟨hit, index⟩ := cell
  cases hit with
  | false => rfl
  | true =>
      dsimp only
      rw [if_pos rfl, if_pos rfl, Option.map_map]
      rfl

theorem PercussionLine.exists_of_mem_sounds {line : PercussionLine} {sound : Sound}
    (hsound : sound ∈ line.sounds place) :
    ∃ index tick, index < place.pattern.cellCount
      ∧ place.cellTick place.position index = some tick
      ∧ sound = ⟨.main, index, .key line.key, tick, place.resolution.sixteenth⟩ := by
  obtain ⟨⟨hit, index⟩, hmem, hsome⟩ := List.mem_filterMap.mp hsound
  have hindex : index < place.pattern.cellCount := by
    have hlength := List.snd_lt_of_mem_zipIdx hmem
    rw [Nat.add_zero, List.length_take] at hlength
    exact Nat.lt_of_lt_of_le hlength (Nat.min_le_left _ _)
  dsimp only at hsome
  split at hsome
  · obtain ⟨tick, htick, rfl⟩ := Option.map_eq_some_iff.mp hsome
    exact ⟨index, tick, hindex, htick, rfl⟩
  · cases hsome

theorem PercussionLine.tone_of_mem_sounds {line : PercussionLine} {sound : Sound}
    (hsound : sound ∈ line.sounds place) : sound.tone = .key line.key := by
  obtain ⟨index, tick, -, -, rfl⟩ := exists_of_mem_sounds hsound
  rfl

theorem PercussionLine.mapM_note (line : PercussionLine) (place : Placement) :
    (line.sounds place).mapM (Sound.note place) = .ok (line.notes place) := by
  rw [mapM_eq_ok_iff, notes_eq_map_sounds, List.forall₂_map_right_iff, List.forall₂_same]
  intro sound hsound
  rw [Sound.note, Sound.pitch, tone_of_mem_sounds hsound]
  rfl

theorem Strip.notes_eq_mapM {strip : Strip} {stave : Stave}
    (hchord : ∀ cell, strip.chord cell = place.pattern.chordOf cell stave) (interval : Int) :
    strip.notes place interval = (strip.sounds place stave interval).mapM (Sound.note place) := by
  rw [notes, sounds, List.mapM_map]
  congr 1
  funext attack
  obtain ⟨step, index, tick⟩ := attack
  change shiftedPitch (place.tonality.pitch (strip.chord index) step) interval >>= _
    = (shiftedPitch (place.tonality.pitch (place.pattern.chordOf index stave) step) interval).map _
  rw [hchord]
  cases shiftedPitch (place.tonality.pitch (place.pattern.chordOf index stave) step) interval with
  | error fault => rfl
  | ok pitch => rfl

theorem PitchedLine.notes_eq_mapM (line : PitchedLine) (place : Placement) :
    line.notes place = (line.sounds place).mapM (Sound.note place) := by
  have hpickup : (line.pickupStrip place).notes place line.interval
      = ((line.pickupStrip place).sounds place .pickup line.interval).mapM (Sound.note place) :=
    Strip.notes_eq_mapM (fun _ => rfl) _
  have hmain : (line.mainStrip place).notes place line.interval
      = ((line.mainStrip place).sounds place .main line.interval).mapM (Sound.note place) :=
    Strip.notes_eq_mapM (fun _ => rfl) _
  have htail : (line.tailStrip place).notes place line.interval
      = ((line.tailStrip place).sounds place .tail line.interval).mapM (Sound.note place) :=
    Strip.notes_eq_mapM (fun _ => rfl) _
  rw [notes, sounds, List.mapM_append, List.mapM_append, hpickup, hmain, htail]
  simp only [bind_assoc, pure_bind]

theorem Generator.exists_of_mem_sounds {g : Generator} {sounds : List Sound} {sound : Sound}
    (hsounds : g.sounds place = .ok sounds) (hsound : sound ∈ sounds) :
    ∃ index tick step, index < place.pattern.cellCount
      ∧ place.cellTick place.position index = some tick
      ∧ sound = ⟨.main, index, .step step 0, tick, place.resolution.quantum⟩ := by
  rw [Generator.sounds] at hsounds
  split at hsounds
  · cases hsounds
  · cases hsounds
    obtain ⟨⟨⟨index, tick⟩, step⟩, hmem, rfl⟩ := List.mem_map.mp hsound
    obtain ⟨cell, hcell, hsome⟩ := List.mem_filterMap.mp (List.of_mem_zip hmem).1
    obtain ⟨struck, hstruck, heq⟩ := Option.map_eq_some_iff.mp hsome
    cases heq
    exact ⟨index, tick, step, List.mem_range.mp hcell, hstruck, rfl⟩

theorem Generator.fst_notes_eq (g : Generator) (place : Placement) :
    (g.notes place).1 = g.sounds place >>= List.mapM (Sound.note place) := by
  rw [notes, sounds]
  cases g.steps? (slots place).length with
  | none => rfl
  | some drawn =>
      obtain ⟨steps, after⟩ := drawn
      change ((slots place).zip steps).mapM (slotNote place) = (List.map _ _).mapM _
      rw [List.mapM_map]
      congr 1
      funext slot
      obtain ⟨⟨index, tick⟩, step⟩ := slot
      change midiPitch (place.tonality.pitch (place.pattern.spanOfCell index) step) >>= _
        = (shiftedPitch (place.tonality.pitch (place.pattern.spanOfCell index) step) 0).map _
      rw [shiftedPitch_zero]
      cases midiPitch (place.tonality.pitch (place.pattern.spanOfCell index) step) with
      | error fault => rfl
      | ok pitch => rfl

/-- **The notes of a content** are its sounds, each with its pitch. -/
theorem Content.fst_notes_eq (content : Content) (place : Placement) :
    (content.notes place).1 = content.sounds place >>= List.mapM (Sound.note place) := by
  cases content with
  | drum lines =>
      change Except.ok (lines.flatMap (PercussionLine.notes · place))
        = (lines.flatMap (PercussionLine.sounds · place)).mapM (Sound.note place)
      rw [mapM_flatMap, eq_comm, map_eq_ok_iff]
      refine ⟨lines.map (PercussionLine.notes · place), ?_, rfl⟩
      rw [mapM_eq_ok_iff, List.forall₂_map_right_iff, List.forall₂_same]
      exact fun line _ => line.mapM_note place
  | pad lines =>
      change (lines.mapM (PitchedLine.notes · place)).map List.flatten
        = (lines.flatMap (PitchedLine.sounds · place)).mapM (Sound.note place)
      rw [mapM_flatMap]
      simp only [PitchedLine.notes_eq_mapM]
  | bass line => exact line.notes_eq_mapM place
  | seque g => exact g.fst_notes_eq place

/-- **The notes of a phrase** are its sounds, each with its pitch. -/
theorem Phrase.exists_sounds_of_play {phrase : Phrase} {position : Nat} {tonality : Tonality}
    {pattern : Pattern} {notes : List Note}
    (hnotes : (phrase.play position tonality pattern).1 = .ok notes) :
    ∃ sounds, phrase.sounds position tonality pattern = .ok sounds
      ∧ List.Forall₂ (fun sound note =>
        sound.note (phrase.placement position tonality pattern) = .ok note) sounds notes := by
  rw [fst_play] at hnotes
  rw [sounds]
  split at hnotes
  · next hname =>
      cases hnotes
      exact ⟨[], if_pos hname, .nil⟩
  · next hname =>
      obtain ⟨made, hmade, rfl⟩ := map_eq_ok_iff.mp hnotes
      rw [Content.fst_notes_eq] at hmade
      obtain ⟨sounds, hsounds, hresolved⟩ := bind_eq_ok_iff.mp hmade
      have hsorted : List.Forall₂ (fun sound note =>
          sound.note (phrase.placement position tonality pattern) = .ok note)
          (sortedBy Sound.tick sounds) (sortedBy Note.tick made) := by
        refine forall₂_sortedBy (mapM_eq_ok_iff.mp hresolved) ?_
        intro sound note hnote more other hother
        rw [(Sound.note_eq_ok_iff.mp hnote).2.1, (Sound.note_eq_ok_iff.mp hother).2.1]
      refine ⟨sortedBy Sound.tick sounds, ?_, hsorted⟩
      rw [if_neg hname, hsounds]
      rfl

/-! ### What the layout does not know -/

/-- Placements of patterns of one length at one position, in whatever tonality. -/
structure Placement.SameCells (a b : Placement) : Prop where
  position : a.position = b.position
  resolution : a.resolution = b.resolution
  cellCount : a.pattern.cellCount = b.pattern.cellCount

namespace Placement.SameCells

variable {a b : Placement} (h : a.SameCells b)

include h

theorem cellTick : a.cellTick = b.cellTick := by
  funext origin index
  rw [Placement.cellTick, Placement.cellTick, h.resolution]

theorem percussion (line : PercussionLine) : line.sounds a = line.sounds b := by
  simp only [PercussionLine.sounds, h.cellCount, h.cellTick, h.position, h.resolution]

theorem strip {strip other : Strip} (hcells : strip.cells = other.cells)
    (horigin : strip.origin = other.origin) (hlimit : strip.limit = other.limit) (stave : Stave)
    (interval : Int) : strip.sounds a stave interval = other.sounds b stave interval := by
  simp only [Strip.sounds, Strip.attacks, hcells, horigin, hlimit, h.cellTick, h.resolution]

theorem line (line : PitchedLine) : line.sounds a = line.sounds b := by
  have hpickup : (line.pickupStrip a).sounds a .pickup line.interval
      = (line.pickupStrip b).sounds b .pickup line.interval := by
    apply h.strip
    · rfl
    · simp only [PitchedLine.pickupStrip, h.position, h.resolution]
    · rfl
  have hmain : (line.mainStrip a).sounds a .main line.interval
      = (line.mainStrip b).sounds b .main line.interval := by
    apply h.strip
    · rfl
    · simp only [PitchedLine.mainStrip, h.position]
    · exact h.cellCount
  have htail : (line.tailStrip a).sounds a .tail line.interval
      = (line.tailStrip b).sounds b .tail line.interval := by
    apply h.strip
    · rfl
    · simp only [PitchedLine.tailStrip, h.position, h.resolution, h.cellCount]
    · rfl
  rw [PitchedLine.sounds, PitchedLine.sounds, hpickup, hmain, htail]

theorem slots : Generator.slots a = Generator.slots b := by
  simp only [Generator.slots, h.cellCount, h.cellTick, h.position]

theorem generator (g : Generator) : g.sounds a = g.sounds b := by
  simp only [Generator.sounds, h.slots, h.resolution]

theorem sounds (content : Content) : content.sounds a = content.sounds b := by
  cases content with
  | drum lines => simp only [Content.sounds, h.percussion]
  | pad lines => simp only [Content.sounds, h.line]
  | bass line => exact congrArg Except.ok (h.line line)
  | seque g => exact h.generator g

theorem snd_notes (content : Content) : (content.notes a).2 = (content.notes b).2 := by
  cases content with
  | seque g =>
      change Content.seque (g.notes a).2 = Content.seque (g.notes b).2
      rw [Generator.notes, Generator.notes, h.slots]
      cases g.steps? (Generator.slots b).length with
      | none => rfl
      | some drawn => rfl
  | _ => rfl

end Placement.SameCells

/-- Phrases that differ at most in the notes behind them. -/
structure Phrase.SameState (a b : Phrase) : Prop where
  name : a.name = b.name
  content : a.content = b.content
  resolution : a.resolution = b.resolution
  velocity : a.velocity = b.velocity

namespace Phrase.SameState

theorem refl (phrase : Phrase) : phrase.SameState phrase :=
  ⟨rfl, rfl, rfl, rfl⟩

variable {a b : Phrase} {pattern varied : Pattern} (h : a.SameState b)
  (hname : pattern.name = varied.name) (hcount : pattern.cellCount = varied.cellCount)

include h hcount in
theorem placement (position : Nat) (tonality other : Tonality) :
    (a.placement position tonality pattern).SameCells (b.placement position other varied) :=
  ⟨rfl, h.resolution, hcount⟩

include h hname hcount

/-- A phrase lays out its sounds alike in patterns of one length, whatever their chords and
tonalities are. -/
theorem sounds_eq (position : Nat) (tonality other : Tonality) :
    a.sounds position tonality pattern = b.sounds position other varied := by
  rw [sounds, sounds, h.name, hname, h.content, (h.placement hcount position tonality other).sounds]

theorem play (position : Nat) (tonality other : Tonality) :
    (a.play position tonality pattern).2.SameState (b.play position other varied).2 := by
  have hleft := SameSheet.play a position tonality pattern
  have hright := SameSheet.play b position other varied
  refine ⟨?_, ?_, ?_, ?_⟩
  · rw [← hleft.name, ← hright.name, h.name]
  · rw [content_play, content_play, h.name, hname, h.content,
      (h.placement hcount position tonality other).snd_notes]
  · rw [← hleft.resolution, ← hright.resolution, h.resolution]
  · rw [← hleft.velocity, ← hright.velocity, h.velocity]

end Phrase.SameState

/-- What the sounds of a phrase have in common: percussion phrases have keys and all others have
steps, and the main grid ends with the pattern. -/
structure Sound.Suits (kind : PhraseKind) (cellCount : Nat) (sound : Sound) : Prop where
  isKey : sound.tone.isKey = decide (kind = .drum)
  cell_lt : sound.stave = .main → sound.cell < cellCount

theorem PercussionLine.suits_of_mem_sounds {line : PercussionLine} {sound : Sound}
    (hsound : sound ∈ line.sounds place) : sound.Suits .drum place.pattern.cellCount := by
  obtain ⟨index, tick, hindex, -, rfl⟩ := exists_of_mem_sounds hsound
  exact ⟨rfl, fun _ => hindex⟩

theorem PitchedLine.suits_of_mem_sounds {line : PitchedLine} {sound : Sound}
    (hsound : sound ∈ line.sounds place) {kind : PhraseKind} (hkind : kind ≠ .drum) :
    sound.Suits kind place.pattern.cellCount := by
  have hkey : false = decide (kind = .drum) := (decide_eq_false hkind).symm
  rw [sounds, List.mem_append, List.mem_append] at hsound
  obtain (hpickup | hmain) | htail := hsound
  · obtain ⟨attack, -, rfl⟩ := List.mem_map.mp hpickup
    exact ⟨hkey, fun hstave => by cases hstave⟩
  · obtain ⟨⟨step, index, tick⟩, hattack, rfl⟩ := List.mem_map.mp hmain
    refine ⟨hkey, fun _ => ?_⟩
    obtain ⟨hcell, -⟩ := Strip.mem_attacks_iff.mp hattack
    obtain ⟨hindex, -⟩ := List.getElem?_eq_some_iff.mp hcell
    rw [List.length_take] at hindex
    exact Nat.lt_of_lt_of_le hindex (Nat.min_le_left _ _)
  · obtain ⟨attack, -, rfl⟩ := List.mem_map.mp htail
    exact ⟨hkey, fun hstave => by cases hstave⟩

theorem Generator.suits_of_mem_sounds {g : Generator} {sounds : List Sound}
    (hsounds : g.sounds place = .ok sounds) :
    ∀ sound ∈ sounds, sound.Suits .seque place.pattern.cellCount := by
  intro sound hsound
  obtain ⟨index, tick, step, hindex, -, rfl⟩ := exists_of_mem_sounds hsounds hsound
  exact ⟨rfl, fun _ => hindex⟩

theorem Content.suits_of_mem_sounds {content : Content} {sounds : List Sound}
    (hsounds : content.sounds place = .ok sounds) :
    ∀ sound ∈ sounds, sound.Suits content.kind place.pattern.cellCount := by
  intro sound hsound
  cases content with
  | drum lines =>
      cases hsounds
      obtain ⟨line, -, hmem⟩ := List.mem_flatMap.mp hsound
      exact line.suits_of_mem_sounds hmem
  | pad lines =>
      cases hsounds
      obtain ⟨line, -, hmem⟩ := List.mem_flatMap.mp hsound
      exact line.suits_of_mem_sounds hmem PhraseKind.noConfusion
  | bass line =>
      cases hsounds
      exact line.suits_of_mem_sounds hsound PhraseKind.noConfusion
  | seque g => exact g.suits_of_mem_sounds hsounds sound hsound

theorem Phrase.forall_mem_sounds {P : Sound → Prop} {phrase : Phrase} {position : Nat}
    {tonality : Tonality} {pattern : Pattern} {sounds : List Sound}
    (hcontent : ∀ laid,
      phrase.content.sounds (phrase.placement position tonality pattern) = .ok laid →
        ∀ sound ∈ laid, P sound)
    (hsounds : phrase.sounds position tonality pattern = .ok sounds) :
    ∀ sound ∈ sounds, P sound := by
  intro sound hsound
  rw [Phrase.sounds] at hsounds
  split at hsounds
  · cases hsounds
    cases hsound
  · obtain ⟨laid, hlaid, rfl⟩ := map_eq_ok_iff.mp hsounds
    exact hcontent laid hlaid sound (List.mem_mergeSort.mp hsound)

theorem Phrase.suits_of_mem_sounds {phrase : Phrase} {position : Nat} {tonality : Tonality}
    {pattern : Pattern} {sounds : List Sound}
    (hsounds : phrase.sounds position tonality pattern = .ok sounds) :
    ∀ sound ∈ sounds, sound.Suits phrase.kind pattern.cellCount :=
  forall_mem_sounds (fun _ => Content.suits_of_mem_sounds) hsounds

end ChordGrid
