import ChordGrid.Proofs.Guarded.Compiling
import ChordGrid.Proofs.Phrase.Pushing

namespace ChordGrid

structure LoosePlacement where
  position : Nat
  tonality : Tonality
  pattern : LoosePattern
  resolution : Resolution
  velocity : Nat
  deriving DecidableEq, Repr

def Placement.loose (place : Placement) : LoosePlacement where
  position := place.position
  tonality := place.tonality
  pattern := place.pattern.loose
  resolution := place.resolution
  velocity := place.velocity

def LoosePlacement.cellTick (place : LoosePlacement) (origin : Int) (index : Nat) : Option Nat :=
  let tick := origin + (place.resolution.sixteenth * index : Nat)
  if 0 ≤ tick ∧ tick ≤ lastTick then some tick.toNat else none

def LooseTimeline.startingFrom (timeline : LooseTimeline) (tick : Nat) : List LooseOccurrence :=
  timeline.occurrences.filter fun occurrence => tick ≤ occurrence.start

theorem Timeline.startingFrom_loose (timeline : Timeline) (tick : Nat) :
    timeline.loose.startingFrom tick = (timeline.startingFrom tick).map Occurrence.loose :=
  List.filter_map

namespace Guarded

/-! ### Notes of an occurrence -/

def percussionAttacks (place : LoosePlacement) (line : PercussionLine) : List Nat :=
  (line.hits.take place.pattern.cellCount).zipIdx.filterMap fun (hit, index) =>
    if hit then place.cellTick place.position index else none

def pushPercussion (place : LoosePlacement) (line : PercussionLine) (notes : Array Note) :
    Except Halt Unit × Array Note :=
  pass (Note.push fun tick => .ok ⟨tick, line.key, place.resolution.sixteenth, place.velocity⟩)
    (percussionAttacks place line) notes

/-- A grid at its place, with a chord to look up for each cell. -/
structure LooseStrip where
  cells : List Cell
  origin : Int
  limit : Nat
  chord : Nat → Except Halt Span

namespace LooseStrip

def attacks (strip : LooseStrip) (place : LoosePlacement) : List (Step × Nat × Nat) :=
  (strip.cells.take strip.limit).zipIdx.filterMap fun (cell, index) =>
    match cell with
    | .step step => (place.cellTick strip.origin index).map fun tick => (step, index, tick)
    | _ => none

def note (strip : LooseStrip) (place : LoosePlacement) (interval : Int)
    (attack : Step × Nat × Nat) : Except Halt Note := do
  let (step, index, tick) := attack
  let span ← strip.chord index
  let root ← pitch place.tonality span step
  let pitch ← sure (shiftedPitch root interval)
  let gate := place.resolution.ofCells (Cell.holdsAfter strip.cells index strip.limit + 1)
  return ⟨tick, pitch, gate, place.velocity⟩

def push (place : LoosePlacement) (interval : Int) (strip : LooseStrip) (notes : Array Note) :
    Except Halt Unit × Array Note :=
  pass (Note.push (strip.note place interval)) (strip.attacks place) notes

end LooseStrip

/-- Pushes the notes of a pickup. The first chord is looked up only if there are cells. -/
def pushPickup (place : LoosePlacement) (line : PitchedLine) (notes : Array Note) :
    Except Halt Unit × Array Note :=
  if line.pickup.isEmpty then (.ok (), notes)
  else
    match place.pattern.opening with
    | .error halt => (.error halt, notes)
    | .ok first =>
      LooseStrip.push place line.interval
        { cells := line.pickup
          origin := place.position - (place.resolution.ofCells line.pickup.length : Nat)
          limit := line.pickup.length
          chord := fun _ => .ok first }
        notes

def pushMain (place : LoosePlacement) (line : PitchedLine) (notes : Array Note) :
    Except Halt Unit × Array Note :=
  LooseStrip.push place line.interval
    { cells := line.cells
      origin := place.position
      limit := place.pattern.cellCount
      chord := place.pattern.spanOfCell }
    notes

/-- Pushes the notes of a tail. The last chord is looked up only if there are cells. -/
def pushTail (place : LoosePlacement) (line : PitchedLine) (notes : Array Note) :
    Except Halt Unit × Array Note :=
  if line.tail.isEmpty then (.ok (), notes)
  else
    match place.pattern.closing with
    | .error halt => (.error halt, notes)
    | .ok last =>
      LooseStrip.push place line.interval
        { cells := line.tail
          origin := place.position + (place.resolution.ofCells place.pattern.cellCount : Nat)
          limit := line.tail.length
          chord := fun _ => .ok last }
        notes

def pushPitched (place : LoosePlacement) (line : PitchedLine) (notes : Array Note) :
    Except Halt Unit × Array Note :=
  pass (fun push notes => push place line notes) [pushPickup, pushMain, pushTail] notes

def slots (place : LoosePlacement) : List (Nat × Nat) :=
  (List.range place.pattern.cellCount).filterMap fun index =>
    (place.cellTick place.position index).map fun tick => (index, tick)

def slotNote (place : LoosePlacement) (span : Span) (slot : (Nat × Nat) × Step) :
    Except Halt Note := do
  let ((_, tick), step) := slot
  let root ← pitch place.tonality span step
  let pitch ← sure (midiPitch root)
  return ⟨tick, pitch, place.resolution.quantum, place.velocity⟩

/-- Looks up the chord of a slot, then draws a step for it and pushes the note. -/
def pushSlot (place : LoosePlacement) (slot : Nat × Nat) (state : Array Note × Generator) :
    Except Halt Unit × Array Note × Generator :=
  match place.pattern.spanOfCell slot.1 with
  | .error halt => (.error halt, state)
  | .ok span =>
    match state.2.step? with
    | none => (.error (.fault .endlessDraw), state)
    | some (step, after) =>
      let (outcome, notes) := Note.push (slotNote place span) (slot, step) state.1
      (outcome, notes, after)

def pushDrawn (place : LoosePlacement) (g : Generator) (notes : Array Note) :
    Except Halt Unit × Array Note × Generator :=
  pass (pushSlot place) (slots place) (notes, g)

def pushContent (place : LoosePlacement) (content : Content) (notes : Array Note) :
    Except Halt Unit × Array Note × Content :=
  match content with
  | .drum lines =>
    let (outcome, notes) := pass (pushPercussion place) lines notes
    (outcome, notes, content)
  | .pad lines =>
    let (outcome, notes) := pass (pushPitched place) lines notes
    (outcome, notes, content)
  | .bass line =>
    let (outcome, notes) := pushPitched place line notes
    (outcome, notes, content)
  | .seque g =>
    let (outcome, notes, after) := pushDrawn place g notes
    (outcome, notes, .seque after)

/-! ### Phrases, parts and arrangements -/

/-- The notes of one occurrence, pushed onto the notes of all occurrences. Those from the old end on
are read twice, to be sorted and to be given back. -/
def play (phrase : Phrase) (tonality : Tonality) (occurrence : LooseOccurrence) :
    Except Halt (List Note) × Phrase :=
  if phrase.name ≠ occurrence.pattern.name then (.ok [], phrase)
  else
    let before := phrase.notes.length
    let (outcome, notes, content) := pushContent
      { position := occurrence.start
        tonality
        pattern := occurrence.pattern
        resolution := phrase.resolution
        velocity := phrase.velocity }
      phrase.content phrase.notes.toArray
    match outcome with
    | .error halt => (.error halt, { phrase with content, notes := notes.toList.take before })
    | .ok () =>
      match entriesFrom notes.toList before with
      | .error halt => (.error halt, { phrase with content, notes := notes.toList })
      | .ok fresh =>
        let notes := notes.toList.take before ++ Phrase.inTime fresh
        (entriesFrom notes before, { phrase with content, notes })

def playOccurrence (channel : Nat) (tonality : Tonality) (occurrence : LooseOccurrence)
    (phrases : List Phrase) : Except Halt (List Timed) × List Phrase :=
  let (notes, after) := sweep (fun phrase => play phrase tonality occurrence) phrases
  (notes.map fun lists => lists.flatten.flatMap (Part.strike channel), after)

def playOccurrences (channel : Nat) (tonality : Tonality) :
    List LooseOccurrence → List Phrase → Except Halt (List Timed) × List Phrase
  | [], phrases => (.ok [], phrases)
  | occurrence :: rest, phrases =>
    match playOccurrence channel tonality occurrence phrases with
    | (.error halt, after) => (.error halt, after)
    | (.ok made, after) =>
      let (more, after) := playOccurrences channel tonality rest after
      (more.map (made ++ ·), after)

def buildPart (timeline : LooseTimeline) (tick : Nat) (mode : BuildMode) (part : Part) :
    Except Halt (List Timed) × Part :=
  if part.phrases.isEmpty then (.ok [], part)
  else
    let start := mode.start tick
    let select : Timed := ⟨start, .program part.channel part.program.number⟩
    let (played, phrases) := playOccurrences part.channel timeline.tonality
      (timeline.startingFrom start) part.phrases
    (played.map (select :: ·), { part with phrases })

def build (arrangement : LooseArrangement) (tick : Nat) (mode : BuildMode) :
    Except Halt Roll × LooseArrangement :=
  let (made, parts) := sweep (buildPart arrangement.timeline tick mode) arrangement.parts
  (made.map fun lists =>
      Roll.ofMessages (mixdown arrangement.faders arrangement.parts ++ lists.flatten),
    { arrangement with parts })

def edition (score : Score) (settings : Settings) : Except Halt Edition := do
  let arrangement ← compile score settings
  let roll ← (build arrangement 0 .playback).1
  return { roll, tempo := arrangement.tempo, length := arrangement.timeline.length }

/-! ### Nothing slips -/

section Notes

variable (place : Placement) (notes : Array Note)

theorem push_sure {α β : Type} {make : α → Except Fault Note} {guarded : β → Except Halt Note}
    {thing : α} {other : β} (h : guarded other = sure (make thing)) :
    Note.push guarded other notes
      = (sure (Note.push make thing notes).1, (Note.push make thing notes).2) := by
  rw [Note.push, Note.push, h]
  cases make thing <;> rfl

theorem pushPercussion_eq (line : PercussionLine) :
    pushPercussion place.loose line notes
      = (sure (line.push place notes).1, (line.push place notes).2) := by
  have hattacks : percussionAttacks place.loose line = line.attacks place := by
    rw [percussionAttacks, PercussionLine.attacks]
    simp only [Placement.loose, Pattern.cellCount_loose]
    rfl
  rw [pushPercussion, hattacks, PercussionLine.push]
  apply pass_sure_same
  intro tick notes
  exact push_sure notes rfl

/-- A strip whose chords are found pushes the notes that it pushes with these chords at hand. -/
theorem LooseStrip.push_eq {loose : LooseStrip} (strip : Strip)
    (hcells : loose.cells = strip.cells) (horigin : loose.origin = strip.origin)
    (hlimit : loose.limit = strip.limit)
    (hchord : ∀ index, loose.chord index = .ok (strip.chord index)) (interval : Int) :
    loose.push place.loose interval notes
      = (sure (strip.push place interval notes).1, (strip.push place interval notes).2) := by
  have hattacks : loose.attacks place.loose = strip.attacks place := by
    rw [LooseStrip.attacks, Strip.attacks, hcells, horigin, hlimit]
    rfl
  have hnote (attack : Step × Nat × Nat) :
      loose.note place.loose interval attack = sure (strip.note place interval attack) := by
    rw [LooseStrip.note, Strip.note, hchord, hcells, hlimit]
    change (pitch place.tonality _ _ >>= _) = _
    rw [pitch_eq]
    exact bind_eq_sure fun pitch _ => rfl
  rw [LooseStrip.push, hattacks]
  exact pass_sure_same (fun attack notes => push_sure notes (hnote attack)) _ notes

theorem pushPickup_eq (line : PitchedLine) :
    pushPickup place.loose line notes
      = (sure ((line.pickupStrip place).push place line.interval notes).1,
        ((line.pickupStrip place).push place line.interval notes).2) := by
  rw [pushPickup]
  split
  · next hempty =>
      rw [Strip.push, Strip.attacks, PitchedLine.pickupStrip, List.isEmpty_iff.mp hempty]
      rfl
  · have hopening : place.loose.pattern.opening = .ok place.pattern.opening :=
      place.pattern.opening_loose
    rw [hopening]
    exact LooseStrip.push_eq place notes (line.pickupStrip place) rfl rfl rfl (fun _ => rfl) _

theorem pushMain_eq (line : PitchedLine) :
    pushMain place.loose line notes
      = (sure ((line.mainStrip place).push place line.interval notes).1,
        ((line.mainStrip place).push place line.interval notes).2) :=
  LooseStrip.push_eq place notes (line.mainStrip place) rfl rfl place.pattern.cellCount_loose
    place.pattern.spanOfCell_loose _

theorem pushTail_eq (line : PitchedLine) :
    pushTail place.loose line notes
      = (sure ((line.tailStrip place).push place line.interval notes).1,
        ((line.tailStrip place).push place line.interval notes).2) := by
  rw [pushTail]
  split
  · next hempty =>
      rw [Strip.push, Strip.attacks, PitchedLine.tailStrip, List.isEmpty_iff.mp hempty]
      rfl
  · have hclosing : place.loose.pattern.closing = .ok place.pattern.closing :=
      place.pattern.closing_loose
    have horigin : place.loose.pattern.cellCount = place.pattern.cellCount :=
      place.pattern.cellCount_loose
    rw [hclosing, horigin]
    exact LooseStrip.push_eq place notes (line.tailStrip place) rfl rfl rfl (fun _ => rfl) _

theorem pushPitched_eq (line : PitchedLine) :
    pushPitched place.loose line notes
      = (sure (line.push place notes).1, (line.push place notes).2) := by
  apply pass_sure
  exact .cons (pushPickup_eq place · line)
    (.cons (pushMain_eq place · line) (.cons (pushTail_eq place · line) .nil))

theorem slots_eq : slots place.loose = Generator.slots place := by
  have hcells : place.loose.pattern.cellCount = place.pattern.cellCount :=
    place.pattern.cellCount_loose
  rw [slots, Generator.slots, hcells]
  rfl

theorem slotNote_eq (slot : (Nat × Nat) × Step) :
    slotNote place.loose (place.pattern.spanOfCell slot.1.1) slot
      = sure (Generator.slotNote place slot) := by
  rw [slotNote, Generator.slotNote]
  change (pitch place.tonality _ _ >>= _) = _
  rw [pitch_eq]
  exact bind_eq_sure fun pitch _ => rfl

theorem pushSlot_eq (slot : Nat × Nat) (state : Array Note × Generator) :
    pushSlot place.loose slot state
      = (sure (Generator.pushSlot place slot state).1,
        (Generator.pushSlot place slot state).2) := by
  have hspan : place.loose.pattern.spanOfCell slot.1 = .ok (place.pattern.spanOfCell slot.1) :=
    place.pattern.spanOfCell_loose slot.1
  rw [pushSlot, hspan, Generator.pushSlot]
  cases state.2.step? with
  | none => rfl
  | some drawn =>
      dsimp only
      rw [push_sure state.1 (slotNote_eq place (slot, drawn.1))]

theorem pushDrawn_eq (g : Generator) :
    pushDrawn place.loose g notes = (sure (g.push place notes).1, (g.push place notes).2) := by
  rw [pushDrawn, slots_eq]
  exact pass_sure_same (pushSlot_eq place) _ _

theorem pushContent_eq (content : Content) :
    pushContent place.loose content notes
      = (sure (content.push place notes).1, (content.push place notes).2) := by
  cases content with
  | drum lines =>
      have hlines := pass_sure_same (fun line notes => pushPercussion_eq place notes line) lines
      rw [pushContent, hlines]
      rfl
  | pad lines =>
      have hlines := pass_sure_same (fun line notes => pushPitched_eq place notes line) lines
      rw [pushContent, hlines]
      rfl
  | bass line =>
      rw [pushContent, pushPitched_eq]
      rfl
  | seque g =>
      rw [pushContent, pushDrawn_eq]
      rfl

end Notes

/-- The old end of the notes is still there when they are read from it on. -/
theorem play_eq (phrase : Phrase) (tonality : Tonality) (occurrence : Occurrence) :
    play phrase tonality occurrence.loose
      = (sure (phrase.play occurrence.start tonality occurrence.pattern).1,
        (phrase.play occurrence.start tonality occurrence.pattern).2) := by
  have hpush : pushContent
      { position := occurrence.start
        tonality
        pattern := occurrence.pattern.loose
        resolution := phrase.resolution
        velocity := phrase.velocity }
      phrase.content phrase.notes.toArray = _ :=
    pushContent_eq (phrase.placement occurrence.start tonality occurrence.pattern)
      phrase.notes.toArray phrase.content
  obtain ⟨pushed, hpushed, -⟩ :=
    phrase.content.pushes (phrase.placement occurrence.start tonality occurrence.pattern)
      phrase.notes.toArray
  unfold play Phrase.play
  by_cases hname : phrase.name ≠ occurrence.pattern.name
  · rw [if_pos hname]
    exact if_pos hname
  · rw [if_neg hname]
    refine (if_neg hname).trans ?_
    dsimp only [Occurrence.loose]
    rw [hpush]
    cases hresult : phrase.content.push
        (phrase.placement occurrence.start tonality occurrence.pattern) phrase.notes.toArray with
    | mk outcome after =>
        rw [hresult] at hpushed
        cases outcome with
        | error fault => rfl
        | ok done =>
            dsimp only [sure_ok] at hpushed ⊢
            rw [hpushed, entriesFrom_append, Phrase.sortFrom_append]
            dsimp only
            rw [List.take_left, entriesFrom_append, List.drop_left]

theorem playOccurrence_eq (channel : Nat) (tonality : Tonality) (occurrence : Occurrence)
    (phrases : List Phrase) :
    playOccurrence channel tonality occurrence.loose phrases
      = (sure (Part.playOccurrence channel tonality occurrence phrases).1,
        (Part.playOccurrence channel tonality occurrence phrases).2) := by
  have hsweep := sweep_sure (fun phrase => play_eq phrase tonality occurrence) phrases
  rw [playOccurrence, hsweep, Part.playOccurrence, sure_map]

theorem playOccurrences_eq (channel : Nat) (tonality : Tonality) (occurrences : List Occurrence)
    (phrases : List Phrase) :
    playOccurrences channel tonality (occurrences.map Occurrence.loose) phrases
      = (sure (Part.playOccurrences channel tonality occurrences phrases).1,
        (Part.playOccurrences channel tonality occurrences phrases).2) := by
  induction occurrences generalizing phrases with
  | nil => rfl
  | cons occurrence rest ih =>
      rw [List.map_cons, playOccurrences, Part.playOccurrences, playOccurrence_eq]
      cases Part.playOccurrence channel tonality occurrence phrases with
      | mk outcome after =>
          cases outcome with
          | error fault => rfl
          | ok made =>
              dsimp only [sure_ok]
              rw [ih, sure_map]

theorem buildPart_eq (timeline : Timeline) (tick : Nat) (mode : BuildMode) (part : Part) :
    buildPart timeline.loose tick mode part
      = (sure (part.build timeline tick mode).1, (part.build timeline tick mode).2) := by
  have hplayed : playOccurrences part.channel timeline.loose.tonality _ part.phrases = _ :=
    playOccurrences_eq part.channel timeline.tonality (timeline.startingFrom (mode.start tick))
      part.phrases
  rw [buildPart, Part.build]
  split
  · rfl
  · refine Eq.trans ?_ (congrArg (·, _) (sure_map _ _).symm)
    dsimp only
    rw [timeline.startingFrom_loose, hplayed]

/-- No arrangement slips as it is built, from whatever tick and in whatever mode. -/
theorem build_eq (arrangement : Arrangement) (tick : Nat) (mode : BuildMode) :
    build arrangement.loose tick mode
      = (sure (arrangement.build tick mode).1, (arrangement.build tick mode).2.loose) := by
  have hsweep : sweep (buildPart arrangement.loose.timeline tick mode) arrangement.loose.parts
      = _ := sweep_sure (buildPart_eq arrangement.timeline tick mode) arrangement.parts
  rw [build, hsweep]
  refine congrArg (·, _) ?_
  rw [Arrangement.build, Arrangement.messages, sure_map, sure_map]
  cases sure (sweep _ arrangement.parts).1 <;> rfl

theorem edition_eq (score : Score) (settings : Settings) :
    edition score settings = sure (Edition.compile score settings) := by
  rw [edition, Edition.compile, compile_eq, sure_map, bind_map]
  refine bind_eq_sure fun arrangement _ => ?_
  rw [build_eq]
  exact bind_eq_sure fun roll _ => rfl

end Guarded

end ChordGrid
