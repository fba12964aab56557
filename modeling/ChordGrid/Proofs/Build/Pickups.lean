import ChordGrid.Proofs.Build.Tail
import ChordGrid.Proofs.Roll.Sorting

/-!
# Pickups

A pickup sounds before the occurrence it leads to, and it is the only thing that does. A build from
a tick leaves out the occurrences before it but not the pickups of those that stay, so it plays
pickups before the tick at which it starts and at which it selects its program.
-/

namespace ChordGrid

/-! ### Notes before an occurrence -/

theorem Placement.cellTick_eq_some_iff {place : Placement} {origin : Int} {index tick : Nat} :
    place.cellTick origin index = some tick
      ↔ origin + (place.resolution.sixteenth * index : Nat) = tick ∧ tick ≤ lastTick := by
  simp only [cellTick, Option.ite_none_right_eq_some, Option.some.injEq]
  omega

theorem Placement.le_of_cellTick {place : Placement} {origin : Int} {index tick : Nat}
    (h : place.cellTick origin index = some tick) : origin ≤ tick := by
  have htick := (cellTick_eq_some_iff.mp h).1
  omega

theorem exists_mem_flatten_iff {α : Type} {P : α → Prop} {lists : List (List α)} :
    (∃ thing ∈ lists.flatten, P thing) ↔ ∃ list ∈ lists, ∃ thing ∈ list, P thing := by
  constructor
  · intro h
    obtain ⟨thing, hthing, hholds⟩ := h
    obtain ⟨list, hlist, hmem⟩ := List.mem_flatten.mp hthing
    exact ⟨list, hlist, thing, hmem, hholds⟩
  · intro h
    obtain ⟨list, hlist, thing, hmem, hholds⟩ := h
    exact ⟨thing, List.mem_flatten.mpr ⟨list, hlist, hmem⟩, hholds⟩

/-- A step of the pickup to an occurrence from `start` falls on a tick. -/
def PitchedLine.PicksUp (line : PitchedLine) (r : Resolution) (start tick : Nat) : Prop :=
  ∃ index step, line.pickup[index]? = some (.step step)
    ∧ tick + r.ofCells (line.pickup.length - index) = start

def Content.pitchedLines : Content → List PitchedLine
  | drum _ => []
  | pad lines => lines
  | bass line => [line]
  | seque _ => []

section Notes

variable {place : Placement} {notes : List Note}

theorem PercussionLine.position_le_tick {line : PercussionLine} :
    ∀ note ∈ line.notes place, place.position ≤ note.tick := by
  intro note hnote
  simp only [notes, List.mem_filterMap] at hnote
  obtain ⟨⟨hit, index⟩, -, hmade⟩ := hnote
  split at hmade
  · obtain ⟨tick, htick, rfl⟩ := Option.map_eq_some_iff.mp hmade
    exact Int.ofNat_le.mp (Placement.le_of_cellTick htick)
  · cases hmade

theorem Generator.position_le_tick {g : Generator} (hnotes : (g.notes place).1 = .ok notes) :
    ∀ note ∈ notes, place.position ≤ note.tick := by
  intro note hnote
  obtain ⟨slot, hslot, step, rfl⟩ := exists_of_mem_notes hnotes hnote
  obtain ⟨cell, -, hcell⟩ := List.mem_filterMap.mp hslot
  obtain ⟨tick, htick, rfl⟩ := Option.map_eq_some_iff.mp hcell
  exact Int.ofNat_le.mp (Placement.le_of_cellTick htick)

theorem Strip.tick_of_note {strip : Strip} {interval : Int} {attack : Step × Nat × Nat}
    {note : Note} (hmade : strip.note place interval attack = .ok note) :
    note.tick = attack.2.2 := by
  obtain ⟨pitch, -, hmade⟩ := bind_eq_ok_iff.mp hmade
  cases hmade
  rfl

theorem Strip.exists_note_iff {strip : Strip} {interval : Int}
    (hnotes : strip.notes place interval = .ok notes) (tick : Nat) :
    (∃ note ∈ notes, note.tick = tick)
      ↔ ∃ index step, (strip.cells.take strip.limit)[index]? = some (.step step)
        ∧ place.cellTick strip.origin index = some tick := by
  have hattacks := mapM_eq_ok_iff.mp hnotes
  constructor
  · intro h
    obtain ⟨note, hnote, rfl⟩ := h
    obtain ⟨attack, hattack, hmade⟩ := exists_of_mem_right hattacks hnote
    rw [tick_of_note hmade]
    exact ⟨attack.2.1, attack.1, mem_attacks_iff.mp hattack⟩
  · intro h
    obtain ⟨index, step, hcell⟩ := h
    obtain ⟨note, hnote, hmade⟩ := exists_of_mem_left hattacks (mem_attacks_iff.mpr hcell)
    exact ⟨note, hnote, tick_of_note hmade⟩

theorem Strip.origin_le_tick {strip : Strip} {interval : Int}
    (hnotes : strip.notes place interval = .ok notes) :
    ∀ note ∈ notes, strip.origin ≤ note.tick := by
  intro note hnote
  obtain ⟨index, step, -, htick⟩ := (Strip.exists_note_iff hnotes note.tick).mp ⟨note, hnote, rfl⟩
  exact Placement.le_of_cellTick htick

variable {tick : Nat}

/-- A cell of the pickup stands as many cells before the occurrence as there are from it to the end
of the pickup. -/
theorem PitchedLine.cellTick_pickupStrip_iff {line : PitchedLine} {index : Nat}
    (hindex : index < line.pickup.length) (hlast : tick ≤ lastTick) :
    place.cellTick (line.pickupStrip place).origin index = some tick
      ↔ tick + place.resolution.ofCells (line.pickup.length - index) = place.position := by
  have hlength : place.resolution.ofCells line.pickup.length
      = place.resolution.sixteenth * index
        + place.resolution.ofCells (line.pickup.length - index) := by
    rw [Resolution.ofCells, Resolution.ofCells, Nat.mul_comm place.resolution.sixteenth,
      ← Nat.add_mul, Nat.add_sub_cancel' (Nat.le_of_lt hindex)]
  have horigin : (line.pickupStrip place).origin
      = place.position - (place.resolution.ofCells line.pickup.length : Nat) := rfl
  rw [Placement.cellTick_eq_some_iff, horigin]
  omega

theorem PitchedLine.exists_pickup_iff {line : PitchedLine} {interval : Int}
    (hnotes : (line.pickupStrip place).notes place interval = .ok notes)
    (hlast : tick ≤ lastTick) :
    (∃ note ∈ notes, note.tick = tick) ↔ line.PicksUp place.resolution place.position tick := by
  have hcells : (line.pickupStrip place).cells.take (line.pickupStrip place).limit = line.pickup :=
    List.take_length
  rw [Strip.exists_note_iff hnotes, hcells]
  apply exists_congr
  intro index
  apply exists_congr
  intro step
  apply and_congr_right
  intro hcell
  exact cellTick_pickupStrip_iff (List.getElem?_eq_some_iff.mp hcell).1 hlast

variable (htick : tick < place.position) (hlast : tick ≤ lastTick)
include htick hlast

/-- Before an occurrence a voice has the notes of its pickup and no others. -/
theorem PitchedLine.exists_note_before_iff {line : PitchedLine}
    (hnotes : line.notes place = .ok notes) :
    (∃ note ∈ notes, note.tick = tick) ↔ line.PicksUp place.resolution place.position tick := by
  obtain ⟨pickup, hpickup, hnotes⟩ := bind_eq_ok_iff.mp hnotes
  obtain ⟨main, hmain, hnotes⟩ := bind_eq_ok_iff.mp hnotes
  obtain ⟨tail, htail, hnotes⟩ := bind_eq_ok_iff.mp hnotes
  cases hnotes
  rw [← exists_pickup_iff hpickup hlast]
  constructor
  · intro h
    obtain ⟨note, hnote, rfl⟩ := h
    obtain hnote | hnote := List.mem_append.mp hnote
    · obtain hnote | hnote := List.mem_append.mp hnote
      · exact ⟨note, hnote, rfl⟩
      · have hle : (place.position : Int) ≤ note.tick := Strip.origin_le_tick hmain note hnote
        omega
    · have hle : (place.position : Int) + (place.resolution.ofCells place.pattern.cellCount : Nat)
          ≤ note.tick := Strip.origin_le_tick htail note hnote
      omega
  · intro h
    obtain ⟨note, hnote, rfl⟩ := h
    exact ⟨note, List.mem_append_left _ (List.mem_append_left _ hnote), rfl⟩

theorem Content.exists_note_before_iff {content : Content}
    (hnotes : (content.notes place).1 = .ok notes) :
    (∃ note ∈ notes, note.tick = tick)
      ↔ ∃ line ∈ content.pitchedLines, line.PicksUp place.resolution place.position tick := by
  have hnone : (∀ note ∈ notes, place.position ≤ note.tick) → content.pitchedLines = [] →
      ((∃ note ∈ notes, note.tick = tick)
        ↔ ∃ line ∈ content.pitchedLines, line.PicksUp place.resolution place.position tick) := by
    intro hlate hlines
    rw [hlines]
    constructor
    · intro h
      obtain ⟨note, hnote, rfl⟩ := h
      exact absurd htick (Nat.not_lt.mpr (hlate note hnote))
    · intro h
      obtain ⟨line, hline, -⟩ := h
      cases hline
  cases content with
  | drum lines =>
      apply hnone
      · intro note hnote
        cases hnotes
        obtain ⟨line, -, hline⟩ := List.mem_flatMap.mp hnote
        exact line.position_le_tick note hline
      · rfl
  | pad lines =>
      obtain ⟨voices, hvoices, rfl⟩ := map_eq_ok_iff.mp hnotes
      have hlines := (mapM_eq_ok_iff.mp hvoices).imp fun line voice hline =>
        (PitchedLine.exists_note_before_iff htick hlast hline).symm
      rw [exists_mem_flatten_iff]
      exact (exists_mem_iff hlines).symm
  | bass line =>
      rw [PitchedLine.exists_note_before_iff htick hlast hnotes]
      simp [pitchedLines]
  | seque generator => exact hnone (Generator.position_le_tick hnotes) rfl

end Notes

theorem Content.SameSource.pitchedLines_eq {a b : Content} (h : a.SameSource b) :
    a.pitchedLines = b.pitchedLines := by
  cases h with
  | same => rfl
  | seque hcycle => rfl

/-- A phrase picks up an occurrence with a note on a tick. -/
def Phrase.PicksUp (phrase : Phrase) (occurrence : Occurrence) (tick : Nat) : Prop :=
  phrase.name = occurrence.pattern.name
    ∧ ∃ line ∈ phrase.content.pitchedLines, line.PicksUp phrase.resolution occurrence.start tick

theorem Phrase.MayPlay.exists_note_before_iff {phrase : Phrase} {tonality : Tonality}
    {occurrence : Occurrence} {notes : List Note} (h : phrase.MayPlay tonality occurrence notes)
    {tick : Nat} (htick : tick < occurrence.start) (hlast : tick ≤ lastTick) :
    (∃ note ∈ notes, note.tick = tick) ↔ phrase.PicksUp occurrence tick := by
  obtain ⟨played, hsheet, hplayed⟩ := h
  rw [Phrase.PicksUp, hsheet.name, hsheet.content.pitchedLines_eq, hsheet.resolution]
  rw [fst_play] at hplayed
  split at hplayed
  · next hname =>
      cases hplayed
      simp [hname]
  · next hname =>
      obtain ⟨made, hmade, rfl⟩ := map_eq_ok_iff.mp hplayed
      have hstart : tick
          < (played.placement occurrence.start tonality occurrence.pattern).position := htick
      have hbefore := Content.exists_note_before_iff hstart hlast hmade
      simp only [inTime, List.mem_mergeSort, hbefore, not_not.mp hname, true_and]
      rfl

/-! ### A part before its start -/

namespace Part

/-- The part picks up an occurrence that starts from `start` on with a note on a tick. -/
def PicksUp (part : Part) (timeline : Timeline) (start tick : Nat) : Prop :=
  ∃ occurrence ∈ timeline.startingFrom start, ∃ phrase ∈ part.phrases,
    phrase.PicksUp occurrence tick

/-- In a stream the selection of the part stands before every note that it strikes. -/
def SelectsFirst (part : Part) (start : Nat) (stream : List Timed) : Prop :=
  ∀ before tick pitch velocity after,
    stream = before ++ ⟨tick, .noteOn part.channel pitch velocity⟩ :: after →
      ⟨start, .program part.channel part.program.number⟩ ∈ before

variable {part : Part} {timeline : Timeline} {tick : Nat} {made : List Timed}

theorem exists_attack_iff {channel : Nat} {notes : List Note} (tick : Nat) :
    (∃ pitch velocity, ⟨tick, .noteOn channel pitch velocity⟩ ∈ notes.flatMap (strike channel))
      ↔ ∃ note ∈ notes, note.tick = tick := by
  constructor
  · intro h
    obtain ⟨pitch, velocity, hattack⟩ := h
    obtain ⟨note, hnote, hstrike⟩ := List.mem_flatMap.mp hattack
    simp only [strike, List.mem_cons, Timed.mk.injEq, Message.noteOn.injEq, reduceCtorEq,
      and_false, List.not_mem_nil, or_false] at hstrike
    exact ⟨note, hnote, hstrike.1.symm⟩
  · intro h
    obtain ⟨note, hnote, rfl⟩ := h
    exact ⟨note.pitch, note.velocity, List.mem_flatMap.mpr ⟨note, hnote, List.mem_cons_self⟩⟩

theorem exists_note_before_iff {table : List (List (List Note))}
    (htable : List.Forall₂ (fun occurrence row =>
      List.Forall₂ (fun phrase notes => phrase.MayPlay timeline.tonality occurrence notes)
        part.phrases row) (timeline.startingFrom tick) table)
    {struck : Nat} (hstruck : struck < tick) (hlast : struck ≤ lastTick) :
    (∃ note ∈ table.flatten.flatten, note.tick = struck) ↔ part.PicksUp timeline tick struck := by
  have hstarts : ∀ occurrence ∈ timeline.startingFrom tick, tick ≤ occurrence.start :=
    fun _ hmem => of_decide_eq_true (List.mem_filter.mp hmem).2
  rw [exists_mem_flatten_iff, exists_mem_flatten_iff]
  apply Iff.symm
  apply exists_mem_iff
  apply ((List.forall₂_and_left _ _).mpr ⟨hstarts, htable⟩).imp
  intro occurrence row hrow
  apply exists_mem_iff
  apply hrow.2.imp
  intro phrase notes hnotes
  exact (hnotes.exists_note_before_iff (Nat.lt_of_lt_of_le hstruck hrow.1) hlast).symm

/-- Before its start a build strikes the pickups and nothing else. -/
theorem exists_attack_before_iff (hmade : (part.build timeline tick .playback).1 = .ok made)
    {struck : Nat} (hstruck : struck < tick) (hlast : struck ≤ lastTick) :
    (∃ pitch velocity, ⟨struck, .noteOn part.channel pitch velocity⟩ ∈ made)
      ↔ part.PicksUp timeline tick struck := by
  obtain ⟨table, htable, rfl⟩ := exists_table_of_build hmade
  have hplayed : ∀ pitch velocity,
      ⟨struck, .noteOn part.channel pitch velocity⟩ ∈ part.selection tick
          ++ table.flatten.flatten.flatMap (strike part.channel)
        ↔ ⟨struck, .noteOn part.channel pitch velocity⟩
          ∈ table.flatten.flatten.flatMap (strike part.channel) := by
    intro pitch velocity
    rw [List.mem_append, or_iff_right]
    intro hselected
    cases setup_of_mem_selection hselected
  calc
    (∃ pitch velocity, ⟨struck, .noteOn part.channel pitch velocity⟩ ∈ part.selection tick
        ++ table.flatten.flatten.flatMap (strike part.channel))
      ↔ ∃ pitch velocity, ⟨struck, .noteOn part.channel pitch velocity⟩
        ∈ table.flatten.flatten.flatMap (strike part.channel) :=
        exists_congr fun pitch => exists_congr fun velocity => hplayed pitch velocity
    _ ↔ ∃ note ∈ table.flatten.flatten, note.tick = struck := exists_attack_iff struck
    _ ↔ part.PicksUp timeline tick struck := exists_note_before_iff htable hstruck hlast

theorem forall_le_tick_iff (hmade : (part.build timeline tick .playback).1 = .ok made) :
    (∀ timed ∈ made, tick ≤ timed.tick)
      ↔ ∀ struck pitch velocity, ⟨struck, .noteOn part.channel pitch velocity⟩ ∈ made →
        tick ≤ struck := by
  constructor
  · intro h struck pitch velocity hattack
    exact h _ hattack
  · intro h timed htimed
    obtain ⟨struck, hstruck, rfl⟩ := exists_struck_of_build hmade
    obtain ⟨notes, -, rfl⟩ := hstruck
    cases List.mem_append.mp htimed with
    | inl hselected =>
        unfold selection at hselected
        split at hselected
        · cases hselected
        · rw [List.mem_singleton.mp hselected]
          exact Nat.le_refl tick
    | inr hplayed =>
        obtain ⟨note, hnote, hstrike⟩ := List.mem_flatMap.mp hplayed
        have hle : tick ≤ note.tick := by
          apply h note.tick note.pitch note.velocity
          exact List.mem_append_right _ (List.mem_flatMap.mpr ⟨note, hnote, List.mem_cons_self⟩)
        simp only [strike, List.mem_cons, List.not_mem_nil, or_false] at hstrike
        cases hstrike with
        | inl hattack =>
            rw [hattack]
            exact hle
        | inr hrelease =>
            rw [hrelease]
            exact Nat.le_trans hle (Nat.le_add_right _ _)

theorem selection_mem_of_mem (hmade : (part.build timeline tick .playback).1 = .ok made)
    {timed : Timed} (htimed : timed ∈ made) :
    ⟨tick, .program part.channel part.program.number⟩ ∈ made := by
  unfold build at hmade
  split at hmade
  · cases hmade
    cases htimed
  · obtain ⟨played, -, rfl⟩ := map_eq_ok_iff.mp hmade
    exact List.mem_cons_self

/-- In a table the selection comes first if and only if no note is struck before its tick. -/
theorem selectsFirst_iff (hmade : (part.build timeline tick .playback).1 = .ok made) :
    part.SelectsFirst tick (Roll.ofMessages made).stream
      ↔ ∀ struck pitch velocity, ⟨struck, .noteOn part.channel pitch velocity⟩ ∈ made →
        tick ≤ struck := by
  have hsorted : (Roll.ofMessages made).stream.Pairwise fun a b => a.order ≤ b.order := by
    rw [Roll.stream_ofMessages]
    exact pairwise_sortedBy made
  constructor
  · intro hselects struck pitch velocity hattack
    obtain ⟨before, after, hsplit⟩ :=
      List.append_of_mem (Roll.mem_stream_ofMessages.mpr hattack)
    have hselect := hselects before struck pitch velocity after hsplit
    rw [hsplit] at hsorted
    have hle := (List.pairwise_append.mp hsorted).2.2 _ hselect _ List.mem_cons_self
    simp only [Timed.order, Message.rank] at hle
    omega
  · intro hlate before struck pitch velocity after hsplit
    have hattack : ⟨struck, .noteOn part.channel pitch velocity⟩ ∈ made := by
      rw [← Roll.mem_stream_ofMessages, hsplit]
      exact List.mem_append_right _ List.mem_cons_self
    have hle := hlate struck pitch velocity hattack
    have hselect : ⟨tick, .program part.channel part.program.number⟩ ∈ made :=
      selection_mem_of_mem hmade hattack
    rw [← Roll.mem_stream_ofMessages, hsplit] at hselect
    rw [hsplit] at hsorted
    cases List.mem_append.mp hselect with
    | inl hbefore => exact hbefore
    | inr hafter =>
        cases hafter with
        | tail _ hafter =>
            have horder := (List.pairwise_cons.mp (List.pairwise_append.mp hsorted).2.1).1 _ hafter
            simp only [Timed.order, Message.rank] at horder
            omega

/-- **What a build plays before its start.** A build from a tick that a song can reach strikes
earlier notes at the ticks of its pickups, and at no others. So nothing that it sends is earlier
than its start, and its program is selected before its first note, if and only if no pickup is. -/
theorem plays_early_iff (hlast : tick ≤ lastTick)
    (hmade : (part.build timeline tick .playback).1 = .ok made) :
    (∀ struck < tick, (∃ pitch velocity, ⟨struck, .noteOn part.channel pitch velocity⟩ ∈ made)
        ↔ part.PicksUp timeline tick struck)
      ∧ ((∀ timed ∈ made, tick ≤ timed.tick)
        ↔ ∀ struck < tick, ¬ part.PicksUp timeline tick struck)
      ∧ (part.SelectsFirst tick (Roll.ofMessages made).stream
        ↔ ∀ struck < tick, ¬ part.PicksUp timeline tick struck) := by
  have hearly : ∀ struck < tick,
      (∃ pitch velocity, ⟨struck, .noteOn part.channel pitch velocity⟩ ∈ made)
        ↔ part.PicksUp timeline tick struck := by
    intro struck hstruck
    exact exists_attack_before_iff hmade hstruck (Nat.le_trans (Nat.le_of_lt hstruck) hlast)
  have hlate : (∀ struck pitch velocity, ⟨struck, .noteOn part.channel pitch velocity⟩ ∈ made →
      tick ≤ struck) ↔ ∀ struck < tick, ¬ part.PicksUp timeline tick struck := by
    constructor
    · intro h struck hstruck hpicks
      obtain ⟨pitch, velocity, hattack⟩ := (hearly struck hstruck).mpr hpicks
      exact absurd hstruck (Nat.not_lt.mpr (h struck pitch velocity hattack))
    · intro h struck pitch velocity hattack
      apply Nat.le_of_not_lt
      intro hstruck
      exact h struck hstruck ((hearly struck hstruck).mp ⟨pitch, velocity, hattack⟩)
  exact ⟨hearly, (forall_le_tick_iff hmade).trans hlate, (selectsFirst_iff hmade).trans hlate⟩

end Part

theorem build_bassWithUpbeat_second :
    (bassWithUpbeat.build twoMeasures 1920 .playback).1
      = .ok [⟨1920, .program 1 38⟩, ⟨1920, .noteOn 1 36 127⟩, ⟨2040, .noteOff 1 36⟩,
        ⟨1800, .noteOn 1 43 127⟩, ⟨1920, .noteOff 1 43⟩] := by
  decide +kernel

/-- From the second measure the upbeat sounds a sixteenth before the start, and nothing sounds
another sixteenth before. -/
theorem plays_early_iff_upbeat :
    1920 ≤ lastTick
      ∧ ∃ made, (bassWithUpbeat.build twoMeasures 1920 .playback).1 = .ok made
        ∧ bassWithUpbeat.PicksUp twoMeasures 1920 1800
        ∧ ¬ bassWithUpbeat.PicksUp twoMeasures 1920 1680 := by
  have hlast : 1920 ≤ lastTick := by decide
  obtain ⟨hearly, -⟩ := Part.plays_early_iff hlast build_bassWithUpbeat_second
  refine ⟨hlast, _, build_bassWithUpbeat_second, ?_, ?_⟩
  · exact (hearly 1800 (by decide)).mp ⟨43, 127, by decide⟩
  · intro hpicks
    obtain ⟨pitch, velocity, hattack⟩ := (hearly 1680 (by decide)).mpr hpicks
    simp at hattack

/-- It sounds before the start, and before the program is selected. -/
theorem upbeat_before_selection :
    ∃ made, (bassWithUpbeat.build twoMeasures 1920 .playback).1 = .ok made
      ∧ (∃ timed ∈ made, timed.tick < 1920)
      ∧ ¬ bassWithUpbeat.SelectsFirst 1920 (Roll.ofMessages made).stream := by
  refine ⟨_, build_bassWithUpbeat_second, ⟨⟨1800, .noteOn 1 43 127⟩, by decide, by decide⟩, ?_⟩
  intro hselects
  have hlate := (Part.selectsFirst_iff build_bassWithUpbeat_second).mp hselects 1800 43 127
    (by decide)
  exact absurd hlate (by decide)

end ChordGrid
