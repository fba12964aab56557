import ChordGrid.Arrangement
import ChordGrid.Proofs.Phrase.Pushing

namespace ChordGrid

/-! ### The notes of a phrase -/

section Notes

variable {place : Placement} {notes : List Note} {P : Note → Prop}

theorem PercussionLine.forall_notes (line : PercussionLine)
    (hhit : ∀ tick, P ⟨tick, line.key, place.resolution.sixteenth, place.velocity⟩) :
    ∀ note ∈ line.notes place, P note := by
  intro note hnote
  simp only [PercussionLine.notes, List.mem_filterMap] at hnote
  obtain ⟨⟨hit, index⟩, -, hmade⟩ := hnote
  split at hmade
  · obtain ⟨tick, -, rfl⟩ := Option.map_eq_some_iff.mp hmade
    exact hhit tick
  · cases hmade

theorem midiPitch_eq_ok {pitch : Int} {resolved : Nat} (h : midiPitch pitch = .ok resolved) :
    (resolved : Int) = pitch := by
  rw [midiPitch] at h
  split at h
  · next hrange =>
      cases h
      exact Int.toNat_of_nonneg hrange.1
  · cases h

theorem shiftedPitch_eq_ok {root resolved : Nat} {interval : Int}
    (h : shiftedPitch root interval = .ok resolved) : (resolved : Int) = root + interval := by
  rw [shiftedPitch] at h
  split at h
  · cases h
  · exact midiPitch_eq_ok h

theorem midiPitch_le {pitch : Int} {resolved : Nat} (h : midiPitch pitch = .ok resolved) :
    resolved ≤ 127 := by
  unfold midiPitch at h
  split at h
  · cases h
    omega
  · cases h

theorem shiftedPitch_le {root resolved : Nat} {interval : Int}
    (h : shiftedPitch root interval = .ok resolved) : resolved ≤ 127 := by
  unfold shiftedPitch at h
  split at h
  · cases h
  · exact midiPitch_le h

theorem Strip.mem_attacks_iff {strip : Strip} {step : Step} {index tick : Nat} :
    (step, index, tick) ∈ strip.attacks place
      ↔ (strip.cells.take strip.limit)[index]? = some (.step step)
        ∧ place.cellTick strip.origin index = some tick := by
  simp only [attacks, List.mem_filterMap, Prod.exists, List.mem_zipIdx_iff_getElem?]
  constructor
  · intro h
    obtain ⟨cell, position, hcell, hmade⟩ := h
    cases cell with
    | step _ =>
        obtain ⟨struck, hstruck, heq⟩ := Option.map_eq_some_iff.mp hmade
        cases heq
        exact ⟨hcell, hstruck⟩
    | rest => cases hmade
    | hold => cases hmade
  · intro h
    obtain ⟨hcell, htick⟩ := h
    exact ⟨_, index, hcell, Option.map_eq_some_iff.mpr ⟨tick, htick, rfl⟩⟩

section Pitched

variable (hstep : ∀ tick pitch cells, pitch ≤ 127 →
  P ⟨tick, pitch, place.resolution.ofCells (cells + 1), place.velocity⟩)
include hstep

theorem Strip.forall_notes {strip : Strip} {interval : Int}
    (hnotes : strip.notes place interval = .ok notes) : ∀ note ∈ notes, P note := by
  intro note hnote
  obtain ⟨⟨step, index, tick⟩, -, hmade⟩ := exists_of_mem_right (mapM_eq_ok_iff.mp hnotes) hnote
  obtain ⟨pitch, hpitch, hmade⟩ := bind_eq_ok_iff.mp hmade
  cases hmade
  exact hstep tick pitch _ (shiftedPitch_le hpitch)

theorem PitchedLine.forall_notes {line : PitchedLine} (hnotes : line.notes place = .ok notes) :
    ∀ note ∈ notes, P note := by
  obtain ⟨pickup, hpickup, hnotes⟩ := bind_eq_ok_iff.mp hnotes
  obtain ⟨main, hmain, hnotes⟩ := bind_eq_ok_iff.mp hnotes
  obtain ⟨tail, htail, hnotes⟩ := bind_eq_ok_iff.mp hnotes
  cases hnotes
  intro note hnote
  obtain hnote | hnote := List.mem_append.mp hnote
  · obtain hnote | hnote := List.mem_append.mp hnote
    · exact Strip.forall_notes hstep hpickup note hnote
    · exact Strip.forall_notes hstep hmain note hnote
  · exact Strip.forall_notes hstep htail note hnote

end Pitched

theorem Generator.forall_notes {g : Generator}
    (hdrawn : ∀ tick pitch, pitch ≤ 127 →
      P ⟨tick, pitch, place.resolution.quantum, place.velocity⟩)
    (hnotes : (g.notes place).1 = .ok notes) : ∀ note ∈ notes, P note := by
  intro note hnote
  obtain ⟨⟨index, tick⟩, -, step, rfl⟩ := Generator.exists_of_mem_notes hnotes hnote
  have hpitch := place.tonality.pitch_le (place.pattern.spanOfCell index) step
  exact hdrawn tick _ (Nat.le_trans hpitch (by decide))

/-- What holds of every hit, of every step and of every drawn step holds of all notes, whatever a
phrase plays from. -/
theorem Content.forall_notes {content : Content}
    (hhit : ∀ lines, content = .drum lines → ∀ line ∈ lines, ∀ tick,
      P ⟨tick, line.key, place.resolution.sixteenth, place.velocity⟩)
    (hstep : ∀ tick pitch cells, pitch ≤ 127 →
      P ⟨tick, pitch, place.resolution.ofCells (cells + 1), place.velocity⟩)
    (hdrawn : ∀ tick pitch, pitch ≤ 127 →
      P ⟨tick, pitch, place.resolution.quantum, place.velocity⟩)
    (hnotes : (content.notes place).1 = .ok notes) : ∀ note ∈ notes, P note := by
  intro note hnote
  cases content with
  | drum lines =>
      cases hnotes
      obtain ⟨line, hmem, hline⟩ := List.mem_flatMap.mp hnote
      exact line.forall_notes (hhit lines rfl line hmem) note hline
  | pad lines =>
      obtain ⟨voices, hvoices, rfl⟩ := map_eq_ok_iff.mp hnotes
      obtain ⟨voice, hvoice, hmem⟩ := List.mem_flatten.mp hnote
      obtain ⟨line, -, hline⟩ := exists_of_mem_right (mapM_eq_ok_iff.mp hvoices) hvoice
      exact PitchedLine.forall_notes hstep hline note hmem
  | bass line => exact PitchedLine.forall_notes hstep hnotes note hnote
  | seque generator => exact Generator.forall_notes hdrawn hnotes note hnote

variable {phrase : Phrase} {position : Nat} {tonality : Tonality} {pattern : Pattern}

@[simp]
theorem Phrase.name_play (phrase : Phrase) (position : Nat) (tonality : Tonality)
    (pattern : Pattern) :
    (phrase.play position tonality pattern).2.name = phrase.name := by
  rw [Phrase.play_eq]
  split
  · rfl
  · dsimp only
    split <;> rfl

theorem Phrase.forall_notes
    (hcontent : ∀ made,
      (phrase.content.notes (phrase.placement position tonality pattern)).1 = .ok made →
        ∀ note ∈ made, P note)
    (hnotes : (phrase.play position tonality pattern).1 = .ok notes) : ∀ note ∈ notes, P note := by
  intro note hnote
  rw [Phrase.play_eq] at hnotes
  split at hnotes
  · cases hnotes
    cases hnote
  · dsimp only at hnotes
    split at hnotes
    · cases hnotes
    · next made hmade =>
        cases hnotes
        exact hcontent made hmade note (List.mem_mergeSort.mp hnote)

/-- Whatever a phrase plays from, no note of it is over as soon as it starts. -/
theorem Phrase.gate_pos (hnotes : (phrase.play position tonality pattern).1 = .ok notes) :
    ∀ note ∈ notes, 0 < note.gate := by
  refine Phrase.forall_notes (fun made hmade => Content.forall_notes ?_ ?_ ?_ hmade) hnotes
  · intro _ _ _ _ _
    exact phrase.resolution.sixteenth_pos
  · intro _ _ _ _
    exact Nat.mul_pos (Nat.succ_pos _) phrase.resolution.sixteenth_pos
  · intro _ _ _
    exact phrase.resolution.quantum_pos

end Notes

/-! ### What a part makes -/

namespace Part

/-- The messages of some notes that all last. -/
def IsStruck (channel : Nat) (messages : List Timed) : Prop :=
  ∃ notes : List Note, (∀ note ∈ notes, 0 < note.gate)
    ∧ messages = notes.flatMap (strike channel)

theorem IsStruck.append {channel : Nat} {messages more : List Timed}
    (hmessages : IsStruck channel messages) (hmore : IsStruck channel more) :
    IsStruck channel (messages ++ more) := by
  obtain ⟨notes, hnotes, rfl⟩ := hmessages
  obtain ⟨others, hothers, rfl⟩ := hmore
  refine ⟨notes ++ others, ?_, List.flatMap_append.symm⟩
  intro note hnote
  obtain hnote | hnote := List.mem_append.mp hnote
  · exact hnotes note hnote
  · exact hothers note hnote

theorem not_isSetup_of_mem_strikes {channel : Nat} {notes : List Note} {timed : Timed}
    (htimed : timed ∈ notes.flatMap (strike channel)) : ¬ timed.message.isSetup = true := by
  obtain ⟨note, -, hstrike⟩ := List.mem_flatMap.mp htimed
  simp only [strike, List.mem_cons, List.not_mem_nil, or_false] at hstrike
  obtain rfl | rfl := hstrike <;> exact Bool.false_ne_true

theorem IsStruck.not_isSetup {channel : Nat} {messages : List Timed}
    (hmessages : IsStruck channel messages) :
    ∀ timed ∈ messages, ¬ timed.message.isSetup = true := by
  obtain ⟨notes, -, rfl⟩ := hmessages
  exact fun _ => not_isSetup_of_mem_strikes

theorem IsStruck.channel_eq {channel : Nat} {messages : List Timed}
    (hmessages : IsStruck channel messages) :
    ∀ timed ∈ messages, timed.message.channel = channel := by
  obtain ⟨notes, -, rfl⟩ := hmessages
  intro timed htimed
  obtain ⟨note, -, hstrike⟩ := List.mem_flatMap.mp htimed
  simp only [strike, List.mem_cons, List.not_mem_nil, or_false] at hstrike
  obtain rfl | rfl := hstrike <;> rfl

variable {channel : Nat} {tonality : Tonality} {made : List Timed}

theorem isStruck_playOccurrence {occurrence : Occurrence} {phrases : List Phrase}
    (hmade : (playOccurrence channel tonality occurrence phrases).1 = .ok made) :
    IsStruck channel made := by
  obtain ⟨lists, hlists, rfl⟩ := map_eq_ok_iff.mp hmade
  refine ⟨lists.flatten, ?_, rfl⟩
  intro note hnote
  obtain ⟨notes, hnotes, hmem⟩ := List.mem_flatten.mp hnote
  obtain ⟨phrase, -, hphrase⟩ := exists_of_mem_right (sweep_eq_ok_iff.mp hlists) hnotes
  exact Phrase.gate_pos hphrase note hmem

theorem forall_playOccurrence_snd {P : Phrase → Prop} {occurrence : Occurrence}
    {phrases : List Phrase}
    (hplay : ∀ phrase, P phrase →
      P (phrase.play occurrence.start tonality occurrence.pattern).2)
    (hphrases : ∀ phrase ∈ phrases, P phrase) :
    ∀ phrase ∈ (playOccurrence channel tonality occurrence phrases).2, P phrase := by
  have hsweep : ∀ phrase ∈ (sweep (fun phrase : Phrase =>
      phrase.play occurrence.start tonality occurrence.pattern) phrases).2, P phrase :=
    forall_sweep_snd hplay hphrases
  exact hsweep

theorem isStruck_playOccurrences {occurrences : List Occurrence} {phrases : List Phrase}
    (hmade : (playOccurrences channel tonality occurrences phrases).1 = .ok made) :
    IsStruck channel made := by
  induction occurrences generalizing phrases made with
  | nil =>
      cases hmade
      exact ⟨[], fun _ hnote => absurd hnote List.not_mem_nil, rfl⟩
  | cons occurrence rest ih =>
      unfold playOccurrences at hmade
      split at hmade
      · cases hmade
      · next first after hfirst =>
          obtain ⟨more, hmore, rfl⟩ := map_eq_ok_iff.mp hmade
          exact (isStruck_playOccurrence (congrArg Prod.fst hfirst)).append (ih hmore)

/-- What a part sends before its first note; a part without phrases sends nothing at all. -/
def selection (part : Part) (start : Nat) : List Timed :=
  if part.phrases.isEmpty then [] else [⟨start, .program part.channel part.program.number⟩]

theorem fst_build (part : Part) (timeline : Timeline) (tick : Nat) (mode : BuildMode) :
    (part.build timeline tick mode).1
      = (playOccurrences part.channel timeline.tonality
          (timeline.startingFrom (mode.start tick)) part.phrases).1.map
        (part.selection (mode.start tick) ++ ·) := by
  rw [build, selection]
  split
  · next hempty =>
      have hsilent : ∀ occurrences : List Occurrence,
          (playOccurrences part.channel timeline.tonality occurrences []).1 = .ok [] := by
        intro occurrences
        induction occurrences with
        | nil => rfl
        | cons occurrence rest ih =>
            change Except.map _ (playOccurrences part.channel timeline.tonality rest []).1 = _
            rw [ih]
            rfl
      rw [List.isEmpty_iff.mp hempty, hsilent]
      rfl
  · rfl

/-- A part makes its selection and the strikes of notes that last. -/
theorem exists_struck_of_build {part : Part} {timeline : Timeline} {tick : Nat} {mode : BuildMode}
    (hmade : (part.build timeline tick mode).1 = .ok made) :
    ∃ struck, IsStruck part.channel struck
      ∧ made = part.selection (mode.start tick) ++ struck := by
  rw [fst_build] at hmade
  obtain ⟨struck, hstruck, rfl⟩ := map_eq_ok_iff.mp hmade
  exact ⟨struck, isStruck_playOccurrences hstruck, rfl⟩

end Part

/-! ### Releases after attacks -/

/-- Every key that some messages strike they release at a later tick. -/
def ReleasesLater (messages : List Timed) : Prop :=
  ∀ tick channel pitch velocity, ⟨tick, .noteOn channel pitch velocity⟩ ∈ messages →
    ∃ later, tick < later ∧ ⟨later, .noteOff channel pitch⟩ ∈ messages

theorem Part.IsStruck.releasesLater {channel : Nat} {messages : List Timed}
    (hmessages : IsStruck channel messages) : ReleasesLater messages := by
  obtain ⟨notes, hnotes, rfl⟩ := hmessages
  intro tick c pitch velocity hattack
  obtain ⟨note, hnote, hstrike⟩ := List.mem_flatMap.mp hattack
  simp only [strike, List.mem_cons, Timed.mk.injEq, Message.noteOn.injEq, reduceCtorEq, and_false,
    List.not_mem_nil, or_false] at hstrike
  obtain ⟨rfl, rfl, rfl, rfl⟩ := hstrike
  refine ⟨note.tick + note.gate, Nat.lt_add_of_pos_right (hnotes note hnote), ?_⟩
  exact List.mem_flatMap.mpr ⟨note, hnote, by simp [strike]⟩

theorem exists_fader_of_mem_mixdown {faders : List Fader} {parts : List Part} {timed : Timed}
    (htimed : timed ∈ mixdown faders parts) :
    ∃ fader ∈ faders, ∃ part ∈ parts,
      timed.tick = 0 ∧ timed.message ∈ fader.messages part.channel := by
  simp only [mixdown, List.mem_flatMap, List.mem_map, List.mem_filter] at htimed
  obtain ⟨fader, hfader, part, ⟨hpart, -⟩, message, hmessage, rfl⟩ := htimed
  exact ⟨fader, hfader, part, hpart, rfl, hmessage⟩

theorem Fader.of_mem_messages {fader : Fader} {channel : Nat} {message : Message}
    (hmessage : message ∈ fader.messages channel) :
    message.isSetup = true ∧ message.channel = channel := by
  simp only [messages, List.mem_cons, List.not_mem_nil, or_false] at hmessage
  obtain rfl | rfl := hmessage <;> exact ⟨rfl, rfl⟩

theorem setup_of_mem_mixdown {faders : List Fader} {parts : List Part} {timed : Timed}
    (htimed : timed ∈ mixdown faders parts) : timed.message.isSetup = true := by
  obtain ⟨fader, -, part, -, -, hmessage⟩ := exists_fader_of_mem_mixdown htimed
  exact (Fader.of_mem_messages hmessage).1

theorem exists_part_of_mem_mixdown {faders : List Fader} {parts : List Part} {timed : Timed}
    (htimed : timed ∈ mixdown faders parts) :
    ∃ part ∈ parts, timed.message.channel = part.channel := by
  obtain ⟨fader, -, part, hpart, -, hmessage⟩ := exists_fader_of_mem_mixdown htimed
  exact ⟨part, hpart, (Fader.of_mem_messages hmessage).2⟩

theorem setup_of_mem_selection {part : Part} {start : Nat} {timed : Timed}
    (htimed : timed ∈ part.selection start) : timed.message.isSetup = true := by
  unfold Part.selection at htimed
  split at htimed
  · cases htimed
  · rw [List.mem_singleton.mp htimed]
    rfl

theorem tick_of_mem_mixdown {faders : List Fader} {parts : List Part} {timed : Timed}
    (htimed : timed ∈ mixdown faders parts) : timed.tick = 0 := by
  obtain ⟨fader, -, part, -, htick, -⟩ := exists_fader_of_mem_mixdown htimed
  exact htick

theorem Part.tick_of_mem_selection {part : Part} {start : Nat} {timed : Timed}
    (htimed : timed ∈ part.selection start) : timed.tick = start := by
  unfold selection at htimed
  split at htimed
  · cases htimed
  · rw [List.mem_singleton.mp htimed]

namespace Arrangement

variable {arrangement : Arrangement} {tick : Nat} {mode : BuildMode} {made : List Timed}

theorem exists_build_of_mem (hmade : (arrangement.messages tick mode).1 = .ok made) {timed : Timed}
    (htimed : timed ∈ made) :
    timed ∈ mixdown arrangement.faders arrangement.parts
      ∨ ∃ part ∈ arrangement.parts, ∃ sent ⊆ made,
        (part.build arrangement.timeline tick mode).1 = .ok sent ∧ timed ∈ sent := by
  obtain ⟨lists, hlists, rfl⟩ := map_eq_ok_iff.mp hmade
  refine (List.mem_append.mp htimed).imp_right ?_
  intro hplayed
  obtain ⟨sent, hsent, hmem⟩ := List.mem_flatten.mp hplayed
  obtain ⟨part, hpart, hbuilt⟩ := exists_of_mem_right (sweep_eq_ok_iff.mp hlists) hsent
  refine ⟨part, hpart, sent, ?_, hbuilt, hmem⟩
  intro other hother
  exact List.mem_append_right _ (List.mem_flatten.mpr ⟨sent, hsent, hother⟩)

theorem releasesLater_messages (hmade : (arrangement.messages tick mode).1 = .ok made) :
    ReleasesLater made := by
  intro tick channel pitch velocity hattack
  obtain hmixed | ⟨part, -, sent, hsent, hpart, hmem⟩ := exists_build_of_mem hmade hattack
  · cases setup_of_mem_mixdown hmixed
  · obtain ⟨struck, hstruck, rfl⟩ := Part.exists_struck_of_build hpart
    obtain hselected | hmem := List.mem_append.mp hmem
    · cases setup_of_mem_selection hselected
    · obtain ⟨later, hlater, hrelease⟩ := hstruck.releasesLater tick channel pitch velocity hmem
      exact ⟨later, hlater, hsent (List.mem_append_right _ hrelease)⟩

end Arrangement

end ChordGrid
