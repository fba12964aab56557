import ChordGrid.Proofs.Build.Pickups
import ChordGrid.Proofs.Phrase.Calls

namespace ChordGrid

/-- Each cell of a placed pattern falls on a tick of a song. -/
def Placement.Fits (place : Placement) : Prop :=
  place.position + place.resolution.ofCells (place.pattern.cellCount - 1) ≤ lastTick

theorem Pattern.cellCount_eq (pattern : Pattern) :
    pattern.cellCount = 16 * pattern.measures.length := by
  rw [cellCount, beatCount, beatsPerMeasure, cellsPerBeat]
  omega

/-! ### Draws for a pattern -/

namespace Generator

theorem steps?_add (count more : Nat) (g : Generator) :
    g.steps? (count + more) = (g.steps? count).bind fun drawn =>
      (drawn.2.steps? more).map fun others => (drawn.1 ++ others.1, others.2) := by
  induction count generalizing g with
  | zero =>
      rw [Nat.zero_add, steps?, Option.bind_some]
      exact Option.map_id'.symm
  | succ count ih =>
      rw [Nat.succ_add, steps?_succ, steps?_succ, Option.bind_assoc]
      congr 1
      funext first
      rw [ih, Option.map_bind, Option.bind_map]
      congr 1
      funext drawn
      exact Option.map_map _ _ _

theorem exists_of_steps?_add {count more : Nat} {g : Generator} {drawn : List Step × Generator}
    (hdrawn : g.steps? (count + more) = some drawn) :
    ∃ first between rest, g.steps? count = some (first, between)
      ∧ between.steps? more = some (rest, drawn.2) ∧ drawn.1 = first ++ rest := by
  rw [steps?_add] at hdrawn
  obtain ⟨⟨first, between⟩, hfirst, hdrawn⟩ := Option.bind_eq_some_iff.mp hdrawn
  obtain ⟨⟨rest, last⟩, hrest, rfl⟩ := Option.map_eq_some_iff.mp hdrawn
  exact ⟨first, between, rest, hfirst, hrest, rfl⟩

variable {place : Placement}

theorem slots_eq (hfits : place.Fits) :
    slots place = (List.range place.pattern.cellCount).map fun cell =>
      (cell, place.position + place.resolution.ofCells cell) := by
  rw [slots, ← List.filterMap_eq_map]
  apply List.filterMap_congr
  intro cell hcell
  have hle : place.resolution.ofCells cell
      ≤ place.resolution.ofCells (place.pattern.cellCount - 1) :=
    Nat.mul_le_mul_right _ (Nat.le_sub_one_of_lt (List.mem_range.mp hcell))
  have htick : place.cellTick place.position cell
      = some (place.position + place.resolution.ofCells cell) := by
    rw [Placement.cellTick_eq_some_iff, Resolution.ofCells, Nat.mul_comm cell]
    rw [Placement.Fits] at hfits
    rw [Resolution.ofCells, Nat.mul_comm cell] at hle
    omega
  rw [htick]
  rfl

/-- The notes of steps, one for each cell from the first one on. -/
def notesOf (place : Placement) (steps : List Step) : List Note :=
  steps.mapIdx fun cell step =>
    drawnNote place ((cell, place.position + place.resolution.ofCells cell), step)

theorem notes_of_fits {g : Generator} {drawn : List Step × Generator} (hfits : place.Fits)
    (hdrawn : g.steps? place.pattern.cellCount = some drawn) :
    g.notes place = (.ok (notesOf place drawn.1), drawn.2) := by
  have hslots := slots_eq hfits
  have hcount : (slots place).length = place.pattern.cellCount := by
    rw [hslots, List.length_map, List.length_range]
  have hall : g.steps? (slots place).length = some drawn := by
    rw [hcount, hdrawn]
  rw [notes_of_steps? hall, hslots]
  have hlength := (of_steps? hdrawn).1
  congr 2
  apply List.ext_getElem
  · simp [notesOf, hlength]
  · intro cell hcell _
    simp [notesOf]

theorem inTime_notesOf (place : Placement) (steps : List Step) :
    Phrase.inTime (notesOf place steps) = notesOf place steps := by
  apply List.mergeSort_of_pairwise
  rw [List.pairwise_iff_getElem]
  intro cell other hcell hother hlt
  have hle : place.resolution.ofCells cell ≤ place.resolution.ofCells other :=
    Nat.mul_le_mul_right _ (Nat.le_of_lt hlt)
  simp only [notesOf, List.getElem_mapIdx, drawnNote, decide_eq_true_eq]
  omega

end Generator

/-! ### Calls -/

namespace Phrase

variable {phrase : Phrase} {g after : Generator}

/-- A pattern of another name draws nothing. -/
def drawCount (phrase : Phrase) (call : Call) : Nat :=
  if phrase.name = call.pattern.name then 16 * call.pattern.measures.length else 0

/-- The steps that calls take altogether. -/
def drawCounts (phrase : Phrase) (calls : List Call) : Nat :=
  (calls.map phrase.drawCount).sum

theorem drawCounts_append (phrase : Phrase) (earlier later : List Call) :
    phrase.drawCounts (earlier ++ later)
      = phrase.drawCounts earlier + phrase.drawCounts later := by
  rw [drawCounts, List.map_append, List.sum_append]
  rfl

theorem drawCounts_cons (phrase : Phrase) (call : Call) (later : List Call) :
    phrase.drawCounts (call :: later) = phrase.drawCount call + phrase.drawCounts later :=
  rfl

/-- The calls that draw are for patterns that fit. -/
def FitsEach (phrase : Phrase) (calls : List Call) : Prop :=
  ∀ call ∈ calls, phrase.name = call.pattern.name → (phrase.placed call).Fits

theorem SameSheet.drawCount_eq {other : Phrase} (h : phrase.SameSheet other) (call : Call) :
    other.drawCount call = phrase.drawCount call := by
  rw [drawCount, drawCount, h.name]

theorem SameSheet.drawCounts_eq {other : Phrase} (h : phrase.SameSheet other)
    (calls : List Call) : other.drawCounts calls = phrase.drawCounts calls :=
  congrArg List.sum (List.map_congr_left fun call _ => h.drawCount_eq call)

theorem SameSheet.placed_eq {other : Phrase} (h : phrase.SameSheet other) (call : Call) :
    other.placed call = phrase.placed call :=
  h.symm.placement_eq

theorem SameSheet.fitsEach {other : Phrase} (h : phrase.SameSheet other) {calls : List Call}
    (hfits : phrase.FitsEach calls) : other.FitsEach calls := by
  intro call hcall hname
  rw [h.placed_eq]
  exact hfits call hcall (h.name.trans hname)

theorem answer_of_drawn {call : Call} {steps : List Step} (hcontent : phrase.content = .seque g)
    (hfits : phrase.name = call.pattern.name → (phrase.placed call).Fits)
    (hdrawn : g.steps? (phrase.drawCount call) = some (steps, after)) :
    (phrase.answer call).1 = .ok (Generator.notesOf (phrase.placed call) steps)
      ∧ (phrase.answer call).2.content = .seque after := by
  by_cases hname : phrase.name = call.pattern.name
  · rw [drawCount, if_pos hname, ← Pattern.cellCount_eq] at hdrawn
    have hmade : phrase.content.notes (phrase.placed call)
        = (.ok (Generator.notesOf (phrase.placed call) steps), .seque after) := by
      rw [hcontent, Content.notes, Generator.notes_of_fits (hfits hname) hdrawn]
    rw [answer_of_ok hname hmade, Generator.inTime_notesOf]
    exact ⟨rfl, rfl⟩
  · rw [drawCount, if_neg hname] at hdrawn
    cases hdrawn
    rw [answer_of_name_ne hname]
    exact ⟨rfl, hcontent⟩

theorem sameSheet_replies (phrase : Phrase) (calls : List Call) :
    phrase.SameSheet (phrase.replies calls).2 := by
  induction calls generalizing phrase with
  | nil => exact .refl phrase
  | cons call later ih => exact (SameSheet.play phrase _ _ _).trans (ih _)

theorem content_replies_of_drawn {calls : List Call} {steps : List Step}
    (hcontent : phrase.content = .seque g) (hfits : phrase.FitsEach calls)
    (hdrawn : g.steps? (phrase.drawCounts calls) = some (steps, after)) :
    (phrase.replies calls).2.content = .seque after := by
  induction calls generalizing phrase g steps with
  | nil =>
      cases hdrawn
      exact hcontent
  | cons call later ih =>
      obtain ⟨first, between, rest, hfirst, hrest, -⟩ :=
        Generator.exists_of_steps?_add (drawCounts_cons phrase call later ▸ hdrawn)
      have hsheet : phrase.SameSheet (phrase.answer call).2 := SameSheet.play phrase _ _ _
      have hbetween := (answer_of_drawn hcontent (hfits call List.mem_cons_self) hfirst).2
      have hlater : (phrase.answer call).2.FitsEach later :=
        hsheet.fitsEach fun other hother => hfits other (List.mem_cons_of_mem call hother)
      rw [← hsheet.drawCounts_eq] at hrest
      exact ih hbetween hlater hrest

theorem getElem?_replies (phrase : Phrase) (earlier : List Call) (call : Call) (later : List Call) :
    (phrase.replies (earlier ++ call :: later)).1[earlier.length]?
      = some ⟨call, ((phrase.replies earlier).2.answer call).1⟩ := by
  induction earlier generalizing phrase with
  | nil => rfl
  | cons first earlier ih =>
      rw [List.cons_append, replies_cons, List.length_cons, List.getElem?_cons_succ, ih]
      rfl

/-- A call among others has the notes of the steps behind those that the calls before it take. -/
theorem exists_reply_of_drawn {earlier later : List Call} {call : Call} {steps : List Step}
    (hcontent : phrase.content = .seque g) (hfits : phrase.FitsEach (earlier ++ call :: later))
    (hdrawn : g.steps? (phrase.drawCounts (earlier ++ call :: later)) = some (steps, after)) :
    ∃ own, (phrase.replies (earlier ++ call :: later)).1[earlier.length]?
        = some ⟨call, .ok (Generator.notesOf (phrase.placed call) own)⟩
      ∧ own.length = phrase.drawCount call
      ∧ ∀ cell < own.length, steps[phrase.drawCounts earlier + cell]? = own[cell]? := by
  rw [drawCounts_append, drawCounts_cons] at hdrawn
  obtain ⟨front, between, rest, hfront, hrest, hsteps⟩ := Generator.exists_of_steps?_add hdrawn
  obtain ⟨own, beyond, others, hown, -, hothers⟩ := Generator.exists_of_steps?_add hrest
  obtain ⟨hskip, -⟩ := Generator.of_steps? hfront
  have hsheet := sameSheet_replies phrase earlier
  have hbetween : (phrase.replies earlier).2.content = .seque between :=
    content_replies_of_drawn hcontent
      (fun other hother => hfits other (List.mem_append_left _ hother)) hfront
  have hcall : (phrase.replies earlier).2.name = call.pattern.name →
      ((phrase.replies earlier).2.placed call).Fits := by
    rw [← hsheet.name, hsheet.placed_eq]
    exact hfits call (List.mem_append_right _ List.mem_cons_self)
  rw [← hsheet.drawCount_eq] at hown
  have hanswer := (answer_of_drawn hbetween hcall hown).1
  rw [hsheet.placed_eq] at hanswer
  refine ⟨own, ?_, ?_, ?_⟩
  · rw [getElem?_replies, hanswer]
  · rw [← hsheet.drawCount_eq]
    exact (Generator.of_steps? hown).1
  · intro cell hcell
    dsimp only at hsteps hothers hskip
    rw [hsteps, ← hskip, List.getElem?_append_right (Nat.le_add_right _ _),
      Nat.add_sub_cancel_left, hothers, List.getElem?_append_left hcell]

/-- **Calls read one stream of steps.** Let a phrase that draws be called any number of times, for
patterns of any length that fit, and let its generator have as many steps to give as the patterns of
its name have cells. Every call succeeds, and the generator ends behind these steps. A call has one
note for each sixteenth of its pattern, a quantum long, and its pitch is that of the next step that
no call before it has taken, above the chord of its beat. -/
theorem calls_read_one_stream {calls : List Call} {steps : List Step}
    (hcontent : phrase.content = .seque g)
    (hfits : ∀ call ∈ calls, phrase.name = call.pattern.name →
      call.position + phrase.resolution.ofCells (call.pattern.cellCount - 1) ≤ lastTick)
    (hdrawn : g.steps? (phrase.drawCounts calls) = some (steps, after)) :
    (phrase.replies calls).2.content = .seque after
      ∧ ∀ earlier call later, calls = earlier ++ call :: later →
        ∃ notes, (phrase.replies calls).1[earlier.length]? = some ⟨call, .ok notes⟩
          ∧ notes.length = phrase.drawCount call
          ∧ ∀ cell < notes.length, ∃ step pitch,
            steps[phrase.drawCounts earlier + cell]? = some step
              ∧ pitch = call.tonality.pitch (call.pattern.spanAt (cell / cellsPerBeat)) step
              ∧ pitch ≤ 127
              ∧ notes[cell]? = some ⟨call.position + phrase.resolution.ofCells cell, pitch,
                phrase.resolution.quantum, phrase.velocity⟩ := by
  refine ⟨content_replies_of_drawn hcontent hfits hdrawn, ?_⟩
  rintro earlier call later rfl
  obtain ⟨own, hreply, hlength, hown⟩ := exists_reply_of_drawn hcontent hfits hdrawn
  refine ⟨Generator.notesOf (phrase.placed call) own, hreply, ?_, ?_⟩
  · rw [Generator.notesOf, List.length_mapIdx, hlength]
  · intro cell hcell
    rw [Generator.notesOf, List.length_mapIdx] at hcell
    have hpitch := call.tonality.pitch_le (call.pattern.spanAt (cell / cellsPerBeat)) own[cell]
    refine ⟨own[cell], _, ?_, rfl, by omega, ?_⟩
    · rw [hown cell hcell, List.getElem?_eq_getElem hcell]
    · rw [Generator.notesOf, List.getElem?_mapIdx, List.getElem?_eq_getElem hcell]
      rfl

/-- A line that is generated from the seed 9. -/
def generated : Phrase :=
  .fresh "a" (.seque (.ofSeed 9)) .standard 100

/-- Measures in C, each of which goes over to a Dorian chord on its second beat. -/
def dorianPattern (name : String) (more : Nat) : Pattern :=
  { name
    first := ⟨⟨1, .I, none⟩, [⟨3, .V, some .dorian⟩]⟩
    rest := List.replicate more ⟨⟨1, .I, none⟩, [⟨3, .V, some .dorian⟩]⟩ }

/-- Calls for one measure, for a pattern of another name, and for two measures. -/
def threeCalls : List Call :=
  [⟨0, ⟨.above 0, .ionian⟩, dorianPattern "a" 0⟩, ⟨1920, ⟨.above 0, .ionian⟩, dorianPattern "b" 0⟩,
    ⟨3840, ⟨.above 0, .ionian⟩, dorianPattern "a" 1⟩]

/-- The three calls read 48 steps. The second beat of the last one starts with the 21st of them, a
seventh, which is minor there. -/
theorem calls_read_one_stream_two_lengths :
    ∃ steps after notes, (Generator.ofSeed 9).steps? 48 = some (steps, after)
      ∧ (generated.replies threeCalls).2.content = .seque after
      ∧ ((generated.replies threeCalls).1[2]?).map Reply.answer = some (.ok notes)
      ∧ notes.length = 32 ∧ steps[20]? = some 6 ∧ notes[4]? = some ⟨4320, 77, 30, 100⟩ := by
  have hdraws : ((Generator.ofSeed 9).steps? (generated.drawCounts threeCalls)).map (·.1[20]?)
      = some (some 6) := by
    decide +kernel
  obtain ⟨⟨steps, after⟩, hdrawn, hstep⟩ := Option.map_eq_some_iff.mp hdraws
  obtain ⟨hcontent, hcalls⟩ := calls_read_one_stream rfl (by decide +kernel) hdrawn
  obtain ⟨notes, hreply, hlength, hnotes⟩ := hcalls (threeCalls.take 2)
    ⟨3840, ⟨.above 0, .ionian⟩, dorianPattern "a" 1⟩ [] rfl
  have hlength : notes.length = 32 := hlength
  obtain ⟨step, pitch, hsame, rfl, -, hnote⟩ := hnotes 4 (by omega)
  obtain rfl : 6 = step := Option.some.inj (hstep.symm.trans hsame)
  exact ⟨steps, after, notes, hdrawn, hcontent, congrArg (Option.map Reply.answer) hreply, hlength,
    hstep, hnote⟩

end Phrase

end ChordGrid
