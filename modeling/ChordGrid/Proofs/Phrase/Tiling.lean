import ChordGrid.Proofs.Build.Extent
import ChordGrid.Proofs.Grid.Holds
import ChordGrid.Proofs.Phrase.Calls
import ChordGrid.Proofs.Pitch.Borrowing

/-!
# Notes tile the cells

The notes of one voice with pitch cover the cells of its three grids. At a rest nothing sounds, and
at any other cell one note does, the one that starts with the nearest step at or before it. Each
note ends before the next step of its own grid and with the cells of this grid that count, and so no
two notes overlap, neither in one grid nor across its ends.
-/

namespace ChordGrid

theorem Resolution.ofCells_add (r : Resolution) (count more : Nat) :
    r.ofCells (count + more) = r.ofCells count + r.ofCells more :=
  Nat.add_mul count more r.sixteenth

theorem Resolution.ofCells_le_iff (r : Resolution) (count index : Nat) {offset : Nat}
    (hoffset : offset < r.sixteenth) :
    r.ofCells count ≤ r.ofCells index + offset ↔ count ≤ index := by
  constructor
  · intro hle
    by_contra hlater
    have hnext : r.ofCells (index + 1) ≤ r.ofCells count :=
      r.ofCells_mono (Nat.lt_of_not_le hlater)
    have hcell : r.ofCells (index + 1) = r.ofCells index + r.sixteenth := Nat.succ_mul _ _
    omega
  · intro hle
    exact Nat.le_add_right_of_le (r.ofCells_mono hle)

theorem pairwise_of_forall₂ {α β : Type} {R : α → β → Prop} {S : α → α → Prop} {T : β → β → Prop}
    (hrelated : ∀ a b c d, R a c → R b d → S a b → T c d) {things : List α} {results : List β}
    (h : List.Forall₂ R things results) (hthings : things.Pairwise S) : results.Pairwise T := by
  induction h with
  | nil => exact .nil
  | @cons thing result rest more hfirst hmore ih =>
      obtain ⟨hthing, hrest⟩ := List.pairwise_cons.mp hthings
      refine List.pairwise_cons.mpr ⟨?_, ih hrest⟩
      intro other hother
      obtain ⟨found, hfound, hlater⟩ := exists_of_mem_right hmore hother
      exact hrelated thing found result other hfirst hlater (hthing found hfound)

/-! ### Notes that do not overlap -/

namespace Note

/-- A note sounds at a tick, which may be one before a song. -/
def Covers (note : Note) (tick : Int) : Prop :=
  note.tick ≤ tick ∧ tick < (note.tick + note.gate : Nat)

instance (note : Note) (tick : Int) : Decidable (note.Covers tick) :=
  inferInstanceAs (Decidable (_ ∧ _))

/-- The notes that sound at a tick. -/
def soundingAt (notes : List Note) (tick : Int) : List Note :=
  notes.filter (·.Covers tick)

/-- No note starts before those in front of it are over. -/
def Separate (notes : List Note) : Prop :=
  notes.Pairwise fun a b => a.tick + a.gate ≤ b.tick

variable {notes : List Note} {note : Note} {tick : Int}

theorem soundingAt_eq_nil_iff :
    soundingAt notes tick = [] ↔ ∀ note ∈ notes, ¬ note.Covers tick := by
  simp only [soundingAt, List.filter_eq_nil_iff, decide_eq_true_eq]

theorem Separate.soundingAt_eq (hnotes : Separate notes) (hnote : note ∈ notes)
    (hcovers : note.Covers tick) : soundingAt notes tick = [note] := by
  obtain ⟨before, after, rfl⟩ := List.append_of_mem hnote
  obtain ⟨-, hlater, hearlier⟩ := List.pairwise_append.mp hnotes
  have hstart := hcovers.1
  have hend := hcovers.2
  have hbefore : soundingAt before tick = [] := by
    rw [soundingAt_eq_nil_iff]
    intro other hother hsounds
    have hle := hearlier other hother note List.mem_cons_self
    have hsounds := hsounds.2
    omega
  have hafter : soundingAt after tick = [] := by
    rw [soundingAt_eq_nil_iff]
    intro other hother hsounds
    have hle := (List.pairwise_cons.mp hlater).1 other hother
    have hsounds := hsounds.1
    omega
  unfold soundingAt at hbefore hafter ⊢
  rw [List.filter_append, hbefore, List.filter_cons, if_pos (decide_eq_true hcovers), hafter]
  rfl

theorem Separate.inTime_eq (hnotes : Separate notes) : Phrase.inTime notes = notes := by
  apply List.mergeSort_of_pairwise
  refine hnotes.imp ?_
  intro a b hle
  rw [decide_eq_true_eq]
  omega

end Note

/-! ### Notes of a strip -/

namespace Strip

variable {strip : Strip} {place : Placement} {interval : Int} {start index offset : Nat}
  {step : Step} {note : Note} {notes : List Note}

/-- A note is that of the step in a cell of a strip. -/
structure IsNote (strip : Strip) (place : Placement) (interval : Int) (start : Nat) (step : Step)
    (note : Note) : Prop where
  struck : (strip.cells.take strip.limit)[start]? = some (.step step)
  tick : (note.tick : Int) = strip.origin + place.resolution.ofCells start
  tick_le : note.tick ≤ lastTick
  gate : note.gate = place.resolution.ofCells (Cell.holdsAfter strip.cells start strip.limit + 1)
  pitch : (note.pitch : Int) = place.tonality.pitch (strip.chord start) step + interval
  velocity : note.velocity = place.velocity

theorem isNote_of_notes (hnotes : strip.notes place interval = .ok notes) :
    List.Forall₂ (fun attack note => strip.IsNote place interval attack.2.1 attack.1 note)
      (strip.attacks place) notes := by
  refine ((List.forall₂_and_left _ _).mpr
    ⟨fun _ hattack => hattack, mapM_eq_ok_iff.mp hnotes⟩).imp ?_
  rintro ⟨step, start, tick⟩ note ⟨hattack, hmade⟩
  obtain ⟨hstruck, htick⟩ := mem_attacks_iff.mp hattack
  obtain ⟨htick, hlast⟩ := Placement.cellTick_eq_some_iff.mp htick
  obtain ⟨pitch, hpitch, hmade⟩ := bind_eq_ok_iff.mp hmade
  cases hmade
  rw [Nat.mul_comm] at htick
  exact ⟨hstruck, htick.symm, hlast, rfl, shiftedPitch_eq_ok hpitch, rfl⟩

theorem exists_isNote (hnotes : strip.notes place interval = .ok notes)
    (hstruck : (strip.cells.take strip.limit)[start]? = some (.step step)) {tick : Nat}
    (htick : (tick : Int) = strip.origin + place.resolution.ofCells start)
    (hlast : tick ≤ lastTick) : ∃ note ∈ notes, strip.IsNote place interval start step note := by
  rw [Resolution.ofCells, Nat.mul_comm] at htick
  exact exists_of_mem_left (isNote_of_notes hnotes)
    (mem_attacks_iff.mpr ⟨hstruck, Placement.cellTick_eq_some_iff.mpr ⟨htick.symm, hlast⟩⟩)

/-- A note sounds in the cells up to which its step is held. -/
theorem IsNote.covers_iff (h : strip.IsNote place interval start step note)
    (hoffset : offset < place.resolution.sixteenth) :
    note.Covers (strip.origin + place.resolution.ofCells index + offset)
      ↔ Cell.HeldFrom (strip.cells.take strip.limit) start index := by
  have htick := h.tick
  have hstart := place.resolution.ofCells_le_iff start index hoffset
  have hend := place.resolution.ofCells_le_iff
    (start + (Cell.holdsAfter strip.cells start strip.limit + 1)) index hoffset
  rw [Resolution.ofCells_add, ← h.gate] at hend
  unfold Note.Covers
  constructor
  · intro hcovers
    have hle : start ≤ index := by omega
    rw [← Cell.le_add_holdsAfter_iff hle]
    omega
  · intro hheld
    have hle := (Cell.le_add_holdsAfter_iff hheld.1).mpr hheld
    have := hheld.1
    omega

theorem IsNote.bounds (h : strip.IsNote place interval start step note) :
    strip.origin ≤ note.tick
      ∧ ((note.tick + note.gate : Nat) : Int)
        ≤ strip.origin + place.resolution.ofCells (strip.cells.take strip.limit).length := by
  have htick := h.tick
  have hstart := (List.getElem?_eq_some_iff.mp h.struck).1
  have hle := place.resolution.ofCells_mono (Cell.add_holdsAfter_le hstart)
  rw [Resolution.ofCells_add, ← h.gate] at hle
  omega

theorem bounds_of_notes (hnotes : strip.notes place interval = .ok notes) :
    ∀ note ∈ notes, strip.origin ≤ note.tick
      ∧ ((note.tick + note.gate : Nat) : Int)
        ≤ strip.origin + place.resolution.ofCells (strip.cells.take strip.limit).length := by
  intro note hnote
  obtain ⟨attack, -, hattack⟩ := exists_of_mem_right (isNote_of_notes hnotes) hnote
  exact hattack.bounds

theorem attacks_pairwise (strip : Strip) (place : Placement) :
    (strip.attacks place).Pairwise fun a b => a.2.1 < b.2.1 := by
  have hindices : ((strip.cells.take strip.limit).zipIdx.map Prod.snd).Pairwise (· < ·) := by
    rw [List.zipIdx_map_snd]
    exact List.pairwise_lt_range'
  rw [List.pairwise_map] at hindices
  rw [attacks, List.pairwise_filterMap]
  refine hindices.imp ?_
  rintro ⟨cell, index⟩ ⟨other, later⟩ hlt attack hattack next hnext
  cases cell with
  | rest => cases hattack
  | hold => cases hattack
  | step step =>
      cases other with
      | rest => cases hnext
      | hold => cases hnext
      | step again =>
          obtain ⟨tick, -, rfl⟩ := Option.map_eq_some_iff.mp hattack
          obtain ⟨tick', -, rfl⟩ := Option.map_eq_some_iff.mp hnext
          exact hlt

/-- A note ends before the next step of its strip. -/
theorem separate_of_notes (hnotes : strip.notes place interval = .ok notes) :
    Note.Separate notes := by
  refine pairwise_of_forall₂ ?_ (isNote_of_notes hnotes) (strip.attacks_pairwise place)
  rintro ⟨step, start, tick⟩ ⟨again, later, tick'⟩ note next hnote hnext hlt
  dsimp only at hnote hnext hlt
  have hheld : ¬ Cell.HeldFrom (strip.cells.take strip.limit) start later :=
    fun hheld => hheld.not_step hlt (Nat.le_refl later) hnext.struck
  have hcovers := mt (hnote.covers_iff place.resolution.sixteenth_pos).mp hheld
  have htick := hnext.tick
  have hstart := hnote.tick
  have hle := place.resolution.ofCells_mono hlt.le
  unfold Note.Covers at hcovers
  omega

end Strip

/-! ### Tiling -/

/-- Ticks that a song can have. -/
def IsSongTick (tick : Int) : Prop :=
  0 ≤ tick ∧ tick ≤ lastTick

instance (tick : Int) : Decidable (IsSongTick tick) :=
  inferInstanceAs (Decidable (_ ∧ _))

/-- Notes tile cells that begin at some tick, under chords and moved by an interval. At the ticks of
a rest nothing sounds. At each tick of any other cell there sounds the one note that starts with the
nearest step at or before the cell, with the pitch of this step above the chord of its own cell.
Where this step falls outside the ticks of a song it has no note, and nothing sounds either. -/
def IsTiledBy (place : Placement) (interval : Int) (cells : List Cell) (origin : Int)
    (chord : Nat → Span) (notes : List Note) : Prop :=
  ∀ index cell (offset : Nat), cells[index]? = some cell → offset < place.resolution.sixteenth →
    let sounding := Note.soundingAt notes (origin + place.resolution.ofCells index + offset)
    (cell = .rest → sounding = [])
      ∧ (cell ≠ .rest → ∃ start step, Cell.IsNearest cells index start step
        ∧ (IsSongTick (origin + place.resolution.ofCells start) → ∃ note, sounding = [note]
          ∧ (note.tick : Int) = origin + place.resolution.ofCells start
          ∧ (note.pitch : Int) = place.tonality.pitch (chord start) step + interval
          ∧ note.velocity = place.velocity)
        ∧ (¬ IsSongTick (origin + place.resolution.ofCells start) → sounding = []))

theorem IsTiledBy.sounding_of_heldFrom {place : Placement} {interval : Int} {cells : List Cell}
    {origin : Int} {chord : Nat → Span} {notes : List Note} {step : Step} {cell : Cell}
    (htiled : IsTiledBy place interval cells origin chord notes) (start index offset : Nat)
    (hcell : cells[index]? = some cell) (hoffset : offset < place.resolution.sixteenth)
    (hheld : Cell.HeldFrom cells start index) (hstruck : cells[start]? = some (.step step)) :
    let sounding := Note.soundingAt notes (origin + place.resolution.ofCells index + offset)
    (IsSongTick (origin + place.resolution.ofCells start) → ∃ note, sounding = [note]
        ∧ (note.tick : Int) = origin + place.resolution.ofCells start
        ∧ (note.pitch : Int) = place.tonality.pitch (chord start) step + interval)
      ∧ (¬ IsSongTick (origin + place.resolution.ofCells start) → sounding = []) := by
  have hsounds : cell ≠ .rest := by
    rintro rfl
    exact hheld.ne_rest hstruck hcell
  obtain ⟨other, again, hnearest, hnote, hnone⟩ :=
    (htiled index cell offset hcell hoffset).2 hsounds
  obtain ⟨rfl, rfl⟩ := hnearest.unique (hheld.isNearest hstruck)
  refine ⟨fun hsong => ?_, hnone⟩
  obtain ⟨note, hsounding, htick, hpitch, -⟩ := hnote hsong
  exact ⟨note, hsounding, htick, hpitch⟩

/-- The notes of a strip tile its cells, also among notes before and after it. -/
theorem Strip.isTiledBy {strip : Strip} {place : Placement} {interval : Int} {cells : List Cell}
    {before notes after : List Note} (hcells : strip.cells.take strip.limit = cells)
    (hnotes : strip.notes place interval = .ok notes) (hsounded : Cell.IsSounded cells)
    (hseparate : Note.Separate (before ++ notes ++ after))
    (hbefore : ∀ note ∈ before, ((note.tick + note.gate : Nat) : Int) ≤ strip.origin)
    (hafter : ∀ note ∈ after,
      strip.origin + place.resolution.ofCells cells.length ≤ note.tick) :
    IsTiledBy place interval cells strip.origin strip.chord (before ++ notes ++ after) := by
  subst hcells
  intro index cell offset hcell hoffset
  -- What sounds in a cell of the strip is a note of the strip.
  have hown : ∀ note ∈ before ++ notes ++ after,
      note.Covers (strip.origin + place.resolution.ofCells index + offset) →
        ∃ start step, strip.IsNote place interval start step note
          ∧ Cell.HeldFrom (strip.cells.take strip.limit) start index := by
    intro note hnote hcovers
    rw [List.mem_append, List.mem_append] at hnote
    have hbounds := hcovers
    unfold Note.Covers at hbounds
    obtain (hearlier | hmem) | hlater := hnote
    · have := hbefore note hearlier
      omega
    · obtain ⟨attack, -, hattack⟩ := exists_of_mem_right (isNote_of_notes hnotes) hmem
      exact ⟨attack.2.1, attack.1, hattack, (hattack.covers_iff hoffset).mp hcovers⟩
    · have hlength := (List.getElem?_eq_some_iff.mp hcell).1
      have hend := mt (place.resolution.ofCells_le_iff _ _ hoffset).mp (Nat.not_le_of_lt hlength)
      have := hafter note hlater
      omega
  constructor
  · rintro rfl
    rw [Note.soundingAt_eq_nil_iff]
    intro note hnote hcovers
    obtain ⟨start, step, hisNote, hheld⟩ := hown note hnote hcovers
    exact hheld.ne_rest hisNote.struck hcell
  · intro hsounds
    obtain ⟨start, step, hstruck, hheld⟩ := hsounded index cell hcell hsounds
    have hnearest := hheld.isNearest hstruck
    refine ⟨start, step, hnearest, ?_, ?_⟩
    · rintro ⟨hstart, hlast⟩
      obtain ⟨tick, htick⟩ := Int.eq_ofNat_of_zero_le hstart
      obtain ⟨note, hmem, hnote⟩ := exists_isNote hnotes hstruck htick.symm (by omega)
      have hcovers := (hnote.covers_iff hoffset).mpr hheld
      have hall : note ∈ before ++ notes ++ after :=
        List.mem_append_left after (List.mem_append_right before hmem)
      exact ⟨note, hseparate.soundingAt_eq hall hcovers, hnote.tick, hnote.pitch, hnote.velocity⟩
    · intro houtside
      rw [Note.soundingAt_eq_nil_iff]
      intro note hnote hcovers
      obtain ⟨other, again, hisNote, hagain⟩ := hown note hnote hcovers
      obtain ⟨rfl, -⟩ := hnearest.unique (hagain.isNearest hisNote.struck)
      have htick := hisNote.tick
      have hlast := hisNote.tick_le
      unfold IsSongTick at houtside
      omega

theorem Pattern.getLast?_spans_of_parse {name text : String} {pattern : Pattern}
    (hparse : parse name text = .ok pattern) : pattern.spans.getLast? = some pattern.closing := by
  have hfilled := isFilled_of_parse hparse
  have hsum := hfilled.sum_beats
  have hne : pattern.spans ≠ [] := List.cons_ne_nil _ _
  obtain ⟨before, last, hspans⟩ := (List.eq_nil_or_concat' pattern.spans).resolve_left hne
  have hpos := hfilled.beats_pos last (by simp [hspans])
  rw [hspans, List.map_append, List.sum_append, List.map_singleton, List.sum_singleton] at hsum
  rw [closing, spanAt, hspans, List.getLast?_concat, Span.holding_append_of_le (by omega),
    Span.holding, Span.holding, ite_self]

namespace PitchedLine

variable {line : PitchedLine} {place : Placement} {early made late notes : List Note}

/-- The notes of the three grids of a voice. -/
structure AreNotes (line : PitchedLine) (place : Placement) (early made late : List Note) :
    Prop where
  pickup : (line.pickupStrip place).notes place line.interval = .ok early
  main : (line.mainStrip place).notes place line.interval = .ok made
  tail : (line.tailStrip place).notes place line.interval = .ok late

theorem exists_areNotes (hnotes : line.notes place = .ok notes) :
    ∃ early made late, line.AreNotes place early made late ∧ notes = early ++ made ++ late := by
  obtain ⟨early, hearly, hnotes⟩ := bind_eq_ok_iff.mp hnotes
  obtain ⟨made, hmade, hnotes⟩ := bind_eq_ok_iff.mp hnotes
  obtain ⟨late, hlate, hnotes⟩ := bind_eq_ok_iff.mp hnotes
  cases hnotes
  exact ⟨early, made, late, ⟨hearly, hmade, hlate⟩, rfl⟩

namespace AreNotes

variable (h : line.AreNotes place early made late)
include h

theorem early_le : ∀ note ∈ early, note.tick + note.gate ≤ place.position := by
  intro note hnote
  have hbounds := (Strip.bounds_of_notes h.pickup note hnote).2
  simp only [pickupStrip, List.take_length] at hbounds
  omega

theorem made_bounds : ∀ note ∈ made,
    place.position ≤ note.tick ∧ note.tick + note.gate ≤ place.stop := by
  intro note hnote
  have hbounds := Strip.bounds_of_notes h.main note hnote
  have hcells := place.resolution.ofCells_mono
    (List.length_take_le place.pattern.cellCount line.cells)
  simp only [mainStrip] at hbounds
  unfold Placement.stop
  omega

theorem stop_le : ∀ note ∈ late, place.stop ≤ note.tick := by
  intro note hnote
  have hbounds := (Strip.bounds_of_notes h.tail note hnote).1
  simp only [tailStrip] at hbounds
  unfold Placement.stop
  omega

theorem separate : Note.Separate (early ++ made ++ late) := by
  refine List.pairwise_append.mpr ⟨List.pairwise_append.mpr
    ⟨Strip.separate_of_notes h.pickup, Strip.separate_of_notes h.main, ?_⟩,
    Strip.separate_of_notes h.tail, ?_⟩
  · intro note hnote next hnext
    exact Nat.le_trans (h.early_le note hnote) (h.made_bounds next hnext).1
  · intro note hnote next hnext
    have hnext := h.stop_le next hnext
    obtain hnote | hnote := List.mem_append.mp hnote
    · have hposition : place.position ≤ place.stop := Nat.le_add_right _ _
      exact Nat.le_trans (h.early_le note hnote) (Nat.le_trans hposition hnext)
    · exact Nat.le_trans (h.made_bounds note hnote).2 hnext

theorem main_tiled (hsounded : Cell.IsSounded line.cells) :
    IsTiledBy place line.interval (line.cells.take place.pattern.cellCount) place.position
      place.pattern.spanOfCell (early ++ made ++ late) := by
  refine Strip.isTiledBy rfl h.main (hsounded.take _) h.separate ?_ ?_
  · intro note hnote
    exact Int.ofNat_le.mpr (h.early_le note hnote)
  · intro note hnote
    have hstop := h.stop_le note hnote
    have hcells := place.resolution.ofCells_mono
      (List.length_take_le place.pattern.cellCount line.cells)
    simp only [mainStrip]
    unfold Placement.stop at hstop
    omega

theorem pickup_tiled (hsounded : Cell.IsSounded line.pickup) :
    IsTiledBy place line.interval line.pickup
      (place.position - place.resolution.ofCells line.pickup.length)
      (fun _ => place.pattern.opening) (early ++ made ++ late) := by
  have hseparate := h.separate
  have hafter : early ++ made ++ late = [] ++ early ++ (made ++ late) := List.append_assoc _ _ _
  rw [hafter] at hseparate ⊢
  refine Strip.isTiledBy List.take_length h.pickup hsounded hseparate (fun _ h => nomatch h) ?_
  intro note hnote
  simp only [pickupStrip]
  obtain hnote | hnote := List.mem_append.mp hnote
  · have hstart := (h.made_bounds note hnote).1
    omega
  · have hstop := h.stop_le note hnote
    unfold Placement.stop at hstop
    omega

theorem tail_tiled (hsounded : Cell.IsSounded line.tail) :
    IsTiledBy place line.interval line.tail
      (place.position + place.resolution.ofCells place.pattern.cellCount)
      (fun _ => place.pattern.closing) (early ++ made ++ late) := by
  have hseparate := h.separate
  rw [← List.append_nil (early ++ made ++ late)] at hseparate ⊢
  refine Strip.isTiledBy List.take_length h.tail hsounded hseparate ?_ (fun _ h => nomatch h)
  intro note hnote
  simp only [tailStrip]
  obtain hnote | hnote := List.mem_append.mp hnote
  · have hend := h.early_le note hnote
    omega
  · have hend := (h.made_bounds note hnote).2
    unfold Placement.stop at hend
    omega

end AreNotes

end PitchedLine

namespace Phrase

/-- **Notes tile the cells of a voice.** Let the three grids of a bass be read from texts, and let
it play a pattern of its name that is read from a text. The notes do not overlap. They tile the
cells of the main grid that the pattern has, from its position and each under the chord of its beat,
those of the pickup, which ends at the position and is under the first chord, and those of the tail,
which starts at the end of the pattern and is under the last chord. -/
theorem bass_notes_tile_cells {phrase : Phrase} {line : PitchedLine} {call : Call}
    {notes : List Note} {mainText pickupText tailText name text : String}
    (hmain : Grid.pitched mainText = .ok line.cells)
    (hpickup : Grid.pitched pickupText = .ok line.pickup)
    (htail : Grid.pitched tailText = .ok line.tail)
    (hparse : Pattern.parse name text = .ok call.pattern) (hcontent : phrase.content = .bass line)
    (hname : phrase.name = call.pattern.name) (hnotes : (phrase.answer call).1 = .ok notes) :
    ∃ first last, call.pattern.spans.head? = some first
      ∧ call.pattern.spans.getLast? = some last
      ∧ IsTiledBy (phrase.placed call) line.interval (line.cells.take call.pattern.cellCount)
        call.position (fun cell => call.pattern.spanAt (cell / cellsPerBeat)) notes
      ∧ IsTiledBy (phrase.placed call) line.interval line.pickup
        (call.position - phrase.resolution.ofCells line.pickup.length) (fun _ => first) notes
      ∧ IsTiledBy (phrase.placed call) line.interval line.tail
        (call.position + phrase.resolution.ofCells call.pattern.cellCount) (fun _ => last) notes
      ∧ notes.Pairwise fun a b => a.tick + a.gate ≤ b.tick := by
  rw [answer, fst_play, if_neg (not_not.mpr hname), hcontent, map_eq_ok_iff] at hnotes
  obtain ⟨whole, hwhole, rfl⟩ := hnotes
  obtain ⟨early, made, late, hnotes, rfl⟩ := PitchedLine.exists_areNotes hwhole
  rw [hnotes.separate.inTime_eq]
  exact ⟨call.pattern.opening, call.pattern.closing, call.pattern.head?_spans,
    Pattern.getLast?_spans_of_parse hparse, hnotes.main_tiled (Grid.isSounded_of_pitched hmain),
    hnotes.pickup_tiled (Grid.isSounded_of_pitched hpickup),
    hnotes.tail_tiled (Grid.isSounded_of_pitched htail), hnotes.separate⟩

/-- A voice whose pickup starts before a song that starts two cells before its pattern, and whose
last step would be held past the pattern. -/
def earlyLine : PitchedLine where
  cells := third :: List.replicate 3 .rest ++ third :: List.replicate 2 .hold
    ++ List.replicate 8 .rest ++ .step ⟨4, by decide⟩ :: List.replicate 4 .hold
  interval := -24
  pickup := [.step ⟨4, by decide⟩, .hold, .hold, third]
  tail := third :: List.replicate 3 .hold

def earlyCall : Call :=
  ⟨240, ⟨.above 0, .ionian⟩, ⟨"a", ⟨⟨1, .I, none⟩, [⟨3, .V, none⟩]⟩, []⟩⟩

/-- The first note of the pickup would start before the song, so nothing sounds at the start of the
song, where it would still be held. In the second beat a held third sounds above the second chord,
the last step of the grid is over when the tail starts, and at the end of the tail its third is
held. -/
theorem bass_notes_tile_cells_early :
    ∃ notes, ((Phrase.fresh "a" (.bass earlyLine) .standard 127).answer earlyCall).1 = .ok notes
      ∧ Note.soundingAt notes 0 = []
      ∧ (∃ note, Note.soundingAt notes 840 = [note] ∧ note.tick = 720 ∧ note.pitch = 47)
      ∧ (∃ note, Note.soundingAt notes 2159 = [note] ∧ note.tick = 2040 ∧ note.pitch = 50)
      ∧ (∃ note, Note.soundingAt notes 2520 = [note] ∧ note.tick = 2160 ∧ note.pitch = 47)
      ∧ notes.Pairwise fun a b => a.tick + a.gate ≤ b.tick := by
  have hmain : Grid.pitched "3---|3>>-|----|---5|>>>>" = .ok earlyLine.cells :=
    eq_ok_of_toOption (by decide +kernel)
  have hpickup : Grid.pitched "5>>3" = .ok earlyLine.pickup := eq_ok_of_toOption (by decide +kernel)
  have htail : Grid.pitched "3>>>" = .ok earlyLine.tail := eq_ok_of_toOption (by decide +kernel)
  have hparse : Pattern.parse "a" "I|V| | " = .ok earlyCall.pattern := by
    decide +kernel
  obtain ⟨notes, hnotes⟩ := exists_ok_of_isSome
    (x := ((Phrase.fresh "a" (.bass earlyLine) .standard 127).answer earlyCall).1)
    (by decide +kernel)
  obtain ⟨first, last, -, hlast, hcells, hbefore, hafter, hseparate⟩ :=
    bass_notes_tile_cells hmain hpickup htail hparse rfl rfl hnotes
  obtain rfl : ⟨3, .V, none⟩ = last := Option.some.inj hlast
  have hstart := (hbefore.sounding_of_heldFrom 0 2 0 rfl (by decide) (by decide) rfl).2 (by decide)
  obtain ⟨beat, hbeat, hbeatTick, hbeatPitch⟩ :=
    (hcells.sounding_of_heldFrom 4 5 0 rfl (by decide) (by decide) rfl).1 (by decide)
  obtain ⟨final, hfinal, hfinalTick, hfinalPitch⟩ :=
    (hcells.sounding_of_heldFrom 15 15 119 rfl (by decide) (by decide) rfl).1 (by decide)
  obtain ⟨after, hlater, hlaterTick, hlaterPitch⟩ :=
    (hafter.sounding_of_heldFrom 0 3 0 rfl (by decide) (by decide) rfl).1 (by decide)
  exact ⟨notes, hnotes, hstart,
    ⟨beat, hbeat, Int.ofNat_inj.mp hbeatTick, Int.ofNat_inj.mp hbeatPitch⟩,
    ⟨final, hfinal, Int.ofNat_inj.mp hfinalTick, Int.ofNat_inj.mp hfinalPitch⟩,
    ⟨after, hlater, Int.ofNat_inj.mp hlaterTick, Int.ofNat_inj.mp hlaterPitch⟩, hseparate⟩

end Phrase

end ChordGrid
