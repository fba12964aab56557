import ChordGrid.Phrase.Basic
import ChordGrid.Proofs.Checked
import ChordGrid.Proofs.Generator

/-!
# What is pushed

A phrase pushes its notes onto those it has, one by one and voice after voice, and a fault may come
after any of them. Nothing that stood on the list is touched by that, so cutting it back undoes a
call and sorting from the old end on reaches the new notes only. What a call pushes can therefore be
said apart from the list it is pushed onto.
-/

namespace ChordGrid

variable {α ε : Type}

/-- An action pushes the notes that are made, or some notes before it fails as they do. -/
def Pushes (act : Array Note → Except ε Unit × Array Note) (made : Except ε (List Note)) : Prop :=
  ∀ notes, ∃ pushed, (act notes).2.toList = notes.toList ++ pushed
    ∧ made = (act notes).1.map fun _ => pushed

theorem Note.pushes (make : α → Except ε Note) (thing : α) :
    Pushes (Note.push make thing) ((make thing).map fun note => [note]) := by
  intro notes
  rw [Note.push]
  cases make thing with
  | error failure => exact ⟨[], (List.append_nil _).symm, rfl⟩
  | ok note => exact ⟨[note], Array.toList_push, rfl⟩

/-- A pass pushes what its acts push, one after the other. -/
theorem pushes_pass {act : α → Array Note → Except ε Unit × Array Note}
    {make : α → Except ε (List Note)} (hact : ∀ thing, Pushes (act thing) (make thing))
    (things : List α) : Pushes (pass act things) ((things.mapM make).map List.flatten) := by
  induction things with
  | nil => exact fun notes => ⟨[], (List.append_nil _).symm, rfl⟩
  | cons thing rest ih =>
      intro notes
      obtain ⟨pushed, hpushed, hmade⟩ := hact thing notes
      rw [pass, List.mapM_cons, hmade]
      cases hstep : act thing notes with
      | mk outcome after =>
          rw [hstep] at hpushed
          cases outcome with
          | error failure => exact ⟨pushed, hpushed, rfl⟩
          | ok done =>
              obtain ⟨more, hmore, hrest⟩ := ih after
              refine ⟨pushed ++ more, ?_, ?_⟩
              · rw [hmore, hpushed, List.append_assoc]
              · calc ((Except.ok pushed >>= fun first => rest.mapM make >>= fun others =>
                      pure (first :: others)).map List.flatten)
                    = ((rest.mapM make).map List.flatten).map (pushed ++ ·) := by
                      cases rest.mapM make <;> rfl
                  _ = ((pass act rest after).1.map fun _ => more).map (pushed ++ ·) := by
                      rw [hrest]
                  _ = (pass act rest after).1.map fun _ => pushed ++ more := by
                      cases (pass act rest after).1 <;> rfl

theorem mapM_singleton_flatten (make : α → Except ε Note) (things : List α) :
    ((things.mapM fun thing => (make thing).map fun note => [note]).map List.flatten)
      = things.mapM make := by
  induction things with
  | nil => rfl
  | cons thing rest ih =>
      rw [List.mapM_cons, List.mapM_cons, ← ih]
      cases make thing with
      | error failure => rfl
      | ok note =>
          cases rest.mapM fun thing => (make thing).map fun note => [note] <;> rfl

theorem pushes_pass_notes (make : α → Except ε Note) (things : List α) :
    Pushes (pass (Note.push make) things) (things.mapM make) := by
  rw [← mapM_singleton_flatten make things]
  exact pushes_pass (Note.pushes make) things

/-! ### Voices -/

def PercussionLine.notes (line : PercussionLine) (place : Placement) : List Note :=
  (line.hits.take place.pattern.cellCount).zipIdx.filterMap fun (hit, index) =>
    if hit then
      (place.cellTick place.position index).map fun tick =>
        ⟨tick, line.key, place.resolution.sixteenth, place.velocity⟩
    else none

def Strip.notes (strip : Strip) (place : Placement) (interval : Int) : Except Fault (List Note) :=
  (strip.attacks place).mapM (strip.note place interval)

def PitchedLine.notes (line : PitchedLine) (place : Placement) : Except Fault (List Note) := do
  let pickup ← (line.pickupStrip place).notes place line.interval
  let main ← (line.mainStrip place).notes place line.interval
  let tail ← (line.tailStrip place).notes place line.interval
  return pickup ++ main ++ tail

section Voices

variable (place : Placement)

theorem PercussionLine.map_attacks (line : PercussionLine) :
    (line.attacks place).map (line.note place) = line.notes place := by
  rw [attacks, notes, List.map_filterMap]
  apply List.filterMap_congr
  rintro ⟨hit, index⟩ -
  cases hit <;> rfl

theorem PercussionLine.pushes (line : PercussionLine) :
    Pushes (line.push place) (.ok (line.notes place)) := by
  have hmade :
      (line.attacks place).mapM (fun tick => (.ok (line.note place tick) : Except Fault Note))
        = .ok ((line.attacks place).map (line.note place)) := List.mapM_pure
  rw [← map_attacks, ← hmade]
  exact pushes_pass_notes _ _

theorem Strip.pushes (interval : Int) (strip : Strip) :
    Pushes (strip.push place interval) (strip.notes place interval) :=
  pushes_pass_notes _ _

theorem PitchedLine.pushes (line : PitchedLine) :
    Pushes (line.push place) (line.notes place) := by
  have hnotes : line.notes place
      = ((line.strips place).mapM fun strip : Strip => strip.notes place line.interval).map
          List.flatten := by
    rw [notes, strips, List.mapM_cons, List.mapM_cons, List.mapM_cons, List.mapM_nil]
    cases (line.pickupStrip place).notes place line.interval with
    | error fault => rfl
    | ok pickup =>
        cases (line.mainStrip place).notes place line.interval with
        | error fault => rfl
        | ok main =>
            cases (line.tailStrip place).notes place line.interval with
            | error fault => rfl
            | ok tail =>
                change Except.ok (pickup ++ main ++ tail)
                  = Except.ok (pickup ++ (main ++ (tail ++ [])))
                rw [List.append_nil, List.append_assoc]
  rw [hnotes]
  exact pushes_pass (Strip.pushes place line.interval) (line.strips place)

end Voices

/-! ### Draws -/

namespace Generator

variable {place : Placement} {g : Generator}

/-- A note on a drawn step in every cell of a pattern, and the generator after the draws. -/
def notes (g : Generator) (place : Placement) : Except Fault (List Note) × Generator :=
  let cells := slots place
  match g.steps? cells.length with
  | none => (.error .endlessDraw, g)
  | some (steps, after) => ((cells.zip steps).mapM (slotNote place), after)

/-- The note of a step that is drawn for a slot. -/
def drawnNote (place : Placement) (slot : (Nat × Nat) × Step) : Note :=
  ⟨slot.1.2, place.tonality.pitch (place.pattern.spanOfCell slot.1.1) slot.2,
    place.resolution.quantum, place.velocity⟩

theorem slotNote_eq (place : Placement) (slot : (Nat × Nat) × Step) :
    slotNote place slot = .ok (drawnNote place slot) := by
  obtain ⟨⟨index, tick⟩, step⟩ := slot
  have hpitch := place.tonality.pitch_le (place.pattern.spanOfCell index) step
  rw [slotNote, midiPitch_of_le (by omega)]
  rfl

theorem notes_of_steps? {drawn : List Step × Generator}
    (hdrawn : g.steps? (slots place).length = some drawn) :
    g.notes place = (.ok (((slots place).zip drawn.1).map (drawnNote place)), drawn.2) := by
  have hmade : ((slots place).zip drawn.1).mapM (slotNote place)
      = .ok (((slots place).zip drawn.1).map (drawnNote place)) := by
    rw [funext (slotNote_eq place)]
    exact List.mapM_pure
  simp only [notes, hdrawn, hmade]

theorem notes_of_endless (hdrawn : g.steps? (slots place).length = none) :
    g.notes place = (.error .endlessDraw, g) := by
  simp only [notes, hdrawn]

/-- Only an endless draw has no notes, and the generator is then where it was. -/
theorem notes_of_error {fault : Fault} (hfault : (g.notes place).1 = .error fault) :
    fault = .endlessDraw ∧ (g.notes place).2 = g := by
  cases hsteps : g.steps? (slots place).length with
  | none =>
      rw [notes_of_endless hsteps] at hfault ⊢
      exact ⟨(Except.error.inj hfault).symm, rfl⟩
  | some drawn =>
      rw [notes_of_steps? hsteps] at hfault
      cases hfault

theorem exists_of_mem_notes {notes : List Note} (hnotes : (g.notes place).1 = .ok notes)
    {note : Note} (hnote : note ∈ notes) :
    ∃ slot ∈ slots place, ∃ step, note = drawnNote place (slot, step) := by
  cases hdrawn : g.steps? (slots place).length with
  | none =>
      rw [notes_of_endless hdrawn] at hnotes
      cases hnotes
  | some drawn =>
      rw [notes_of_steps? hdrawn] at hnotes
      cases hnotes
      obtain ⟨⟨slot, step⟩, hslot, rfl⟩ := List.mem_map.mp hnote
      exact ⟨slot, (List.of_mem_zip hslot).1, step, rfl⟩

theorem pushSlot_of_step? {drawn : Step × Generator} (hdrawn : g.step? = some drawn)
    (slot : Nat × Nat) (notes : Array Note) :
    pushSlot place slot (notes, g)
      = (.ok (), notes.push (drawnNote place (slot, drawn.1)), drawn.2) := by
  simp only [pushSlot, hdrawn, Note.push, slotNote_eq]

/-- Drawing slot by slot draws the steps that all slots together draw. -/
theorem pass_pushSlot {cells : List (Nat × Nat)} {drawn : List Step × Generator}
    (hdrawn : g.steps? cells.length = some drawn) (notes : Array Note) :
    ∃ pushed, pass (pushSlot place) cells (notes, g) = (.ok (), pushed, drawn.2)
      ∧ pushed.toList = notes.toList ++ (cells.zip drawn.1).map (drawnNote place) := by
  induction cells generalizing g drawn notes with
  | nil =>
      cases hdrawn
      exact ⟨notes, rfl, (List.append_nil _).symm⟩
  | cons cell rest ih =>
      rw [List.length_cons, steps?_succ] at hdrawn
      obtain ⟨first, hfirst, hdrawn⟩ := Option.bind_eq_some_iff.mp hdrawn
      obtain ⟨more, hmore, rfl⟩ := Option.map_eq_some_iff.mp hdrawn
      obtain ⟨pushed, hpass, hpushed⟩ :=
        ih hmore (notes.push (drawnNote place (cell, first.1)))
      refine ⟨pushed, ?_, ?_⟩
      · rw [pass, pushSlot_of_step? hfirst]
        exact hpass
      · rw [hpushed, Array.toList_push, List.append_assoc]
        rfl

/-- A generator that does not draw as often as it is asked does not draw at all. -/
theorem step?_eq_none {count : Nat} (hdrawn : g.steps? count = none) : g.step? = none := by
  induction count generalizing g with
  | zero => cases hdrawn
  | succ count ih =>
      cases hstep : g.step? with
      | none => rfl
      | some first =>
          obtain ⟨second, hsecond⟩ := (sameCycle_of_step hstep).exists_step hstep
          rw [steps?_succ, hstep, Option.bind_some, Option.map_eq_none_iff] at hdrawn
          rw [ih hdrawn] at hsecond
          cases hsecond

theorem pushes (g : Generator) (place : Placement) (notes : Array Note) :
    ∃ pushed, (g.push place notes).2.1.toList = notes.toList ++ pushed
      ∧ g.notes place = ((g.push place notes).1.map fun _ => pushed, (g.push place notes).2.2) := by
  rw [push]
  cases hdrawn : g.steps? (slots place).length with
  | none =>
      rw [notes_of_endless hdrawn]
      have hnone := step?_eq_none hdrawn
      cases hcells : slots place with
      | nil =>
          rw [hcells] at hdrawn
          cases hdrawn
      | cons cell rest =>
          -- The first draw is endless already, so no state of the generator is lost.
          have hpass : pass (pushSlot place) (cell :: rest) (notes, g)
              = (.error .endlessDraw, notes, g) := by
            simp only [pass, pushSlot, hnone]
          rw [hpass]
          exact ⟨[], (List.append_nil _).symm, rfl⟩
  | some drawn =>
      obtain ⟨pushed, hpass, hpushed⟩ := pass_pushSlot hdrawn notes
      rw [hpass, notes_of_steps? hdrawn]
      exact ⟨_, hpushed, rfl⟩

end Generator

/-! ### Phrases -/

namespace Content

/-- The notes for a placement in the order they are made, and the content for the next one. -/
def notes (content : Content) (place : Placement) : Except Fault (List Note) × Content :=
  match content with
  | drum lines => (.ok (lines.flatMap (PercussionLine.notes · place)), content)
  | pad lines => ((lines.mapM (PitchedLine.notes · place)).map List.flatten, content)
  | bass line => (line.notes place, content)
  | seque generator =>
    let (made, after) := generator.notes place
    (made, seque after)

theorem snd_notes_of_error {content : Content} {place : Placement} {fault : Fault}
    (hfault : (content.notes place).1 = .error fault) : (content.notes place).2 = content := by
  cases content with
  | drum lines => rfl
  | pad lines => rfl
  | bass line => rfl
  | seque g => exact congrArg seque (Generator.notes_of_error hfault).2

theorem pushes (content : Content) (place : Placement) (notes : Array Note) :
    ∃ pushed, (content.push place notes).2.1.toList = notes.toList ++ pushed
      ∧ content.notes place
        = ((content.push place notes).1.map fun _ => pushed, (content.push place notes).2.2) := by
  cases content with
  | drum lines =>
      obtain ⟨pushed, hpushed, hmade⟩ := pushes_pass (PercussionLine.pushes place) lines notes
      have hnotes : (lines.mapM fun line => (.ok (line.notes place) : Except Fault (List Note)))
          = .ok (lines.map (PercussionLine.notes · place)) := List.mapM_pure
      rw [hnotes] at hmade
      exact ⟨pushed, hpushed, congrArg (·, drum lines) hmade⟩
  | pad lines =>
      obtain ⟨pushed, hpushed, hmade⟩ := pushes_pass (PitchedLine.pushes place) lines notes
      exact ⟨pushed, hpushed, congrArg (·, pad lines) hmade⟩
  | bass line =>
      obtain ⟨pushed, hpushed, hmade⟩ := line.pushes place notes
      exact ⟨pushed, hpushed, congrArg (·, bass line) hmade⟩
  | seque g =>
      obtain ⟨pushed, hpushed, hmade⟩ := g.pushes place notes
      refine ⟨pushed, hpushed, ?_⟩
      rw [Content.notes, hmade]
      rfl

end Content

namespace Phrase

theorem sortFrom_append (notes more : List Note) :
    sortFrom notes.length (notes ++ more) = notes ++ inTime more := by
  rw [sortFrom, List.take_left, List.drop_left]

/-- A call adds its notes in time to those that are there, or nothing at all. -/
theorem play_eq (phrase : Phrase) (position : Nat) (tonality : Tonality) (pattern : Pattern) :
    phrase.play position tonality pattern
      = if phrase.name ≠ pattern.name then (.ok [], phrase)
        else
          let (made, content) := phrase.content.notes (phrase.placement position tonality pattern)
          match made with
          | .error fault => (.error fault, { phrase with content })
          | .ok notes =>
            let added := inTime notes
            (.ok added, { phrase with content, notes := phrase.notes ++ added }) := by
  obtain ⟨pushed, hpushed, hnotes⟩ :=
    phrase.content.pushes (phrase.placement position tonality pattern) phrase.notes.toArray
  rw [play, hnotes]
  split
  · rfl
  · cases hpush : phrase.content.push (phrase.placement position tonality pattern)
        phrase.notes.toArray with
    | mk outcome after =>
        rw [hpush, List.toList_toArray] at hpushed
        dsimp only at hpushed ⊢
        rw [hpushed]
        cases outcome with
        | error fault => simp only [List.take_left, Except.map]
        | ok done => simp only [sortFrom_append, List.drop_left, Except.map]

end Phrase

end ChordGrid
