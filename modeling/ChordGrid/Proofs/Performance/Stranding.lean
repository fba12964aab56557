import ChordGrid.Proofs.Performance.Basic

/-!
# No note is stranded

However often the score is edited while it plays, the end of the edition that is played is silent:
once the cursor has passed it, every key that was struck since the start was released, either by an
edition or because a new one dropped it.

The invariant ties three things together. The keys that the playhead remembers are what the messages
since the start have left sounding. If the last quantum was played from the edition that is still
valid, this edition has a release of each of them to come. And a playhead never has seen a serial
number that is yet to be given, so a new publication is noticed.
-/

namespace ChordGrid

open Live

namespace Performance

variable {performance : Performance}

/-- What holds in every performance after any cues. -/
structure Sound (performance : Performance) : Prop where
  seen_le : ∀ serial ∈ performance.playhead.seen, serial ≤ performance.desk.valid.serial
  unseen : performance.playhead.seen = none → performance.playhead.sounding = []
  sounding : performance.playhead.sounding = KeyOn.afterAll [] performance.since
  ends : performance.playhead.seen = some performance.desk.valid.serial →
    performance.desk.valid.edition.roll.Ends performance.playhead.position
      performance.playhead.sounding

theorem Sound.start (tick : Nat) : (performance.take (.start tick)).Sound where
  seen_le := fun _ hserial => Nat.le_of_eq (Option.mem_some.mp hserial).symm
  unseen := fun _ => rfl
  sounding := Playhead.sounding_start performance.playhead performance.desk.valid tick
  ends := fun _ _ hkey => absurd hkey List.not_mem_nil

theorem Sound.advance (hsound : performance.Sound)
    (hroll : performance.desk.valid.edition.roll.IsPlayable) :
    (performance.take .advance).Sound := by
  have hsounding := sounding_take_advance hsound.sounding
  cases hplaying : performance.playhead.playing with
  | false =>
      have hplayhead : (performance.take .advance).playhead = performance.playhead := by
        simp [take, Playhead.advance, hplaying]
      have hdesk : (performance.take .advance).desk = performance.desk := rfl
      refine ⟨?_, ?_, hsounding, ?_⟩
      · rw [hplayhead, hdesk]
        exact hsound.seen_le
      · rw [hplayhead]
        exact hsound.unseen
      · rw [hplayhead, hdesk]
        exact hsound.ends
  | true =>
      have hseen : (performance.take .advance).playhead.seen
          = some performance.desk.valid.serial := by
        simp [take, Playhead.advance, hplaying]
      refine ⟨?_, ?_, hsounding, ?_⟩
      · rw [hseen]
        exact fun _ hserial => Nat.le_of_eq (Option.mem_some.mp hserial).symm
      · rw [hseen]
        exact fun hnone => absurd hnone (Option.some_ne_none _)
      · intro _
        exact Playhead.ends_advance hplaying hroll hsound.ends hsound.unseen

theorem Sound.edit (hsound : performance.Sound) (move : Move) :
    (performance.take (.edit move)).Sound := by
  have hplayhead : (performance.take (.edit move)).playhead = performance.playhead := rfl
  obtain hsame | hnew := Desk.valid_take performance.desk move
  · have hvalid : (performance.take (.edit move)).desk.valid = performance.desk.valid := hsame
    refine ⟨?_, hsound.unseen, hsound.sounding, ?_⟩
    · rw [hplayhead, hvalid]
      exact hsound.seen_le
    · rw [hplayhead, hvalid]
      exact hsound.ends
  · have hserial : (performance.take (.edit move)).desk.valid.serial
        = performance.desk.valid.serial + 1 := hnew
    refine ⟨?_, hsound.unseen, hsound.sounding, ?_⟩
    · intro serial hseen
      rw [hserial]
      exact Nat.le_succ_of_le (hsound.seen_le serial hseen)
    · intro hseen
      rw [hserial] at hseen
      exact absurd (hsound.seen_le _ hseen) (Nat.not_succ_le_self _)

theorem sound_play {score : Score} {settings : Settings} {opening : Performance}
    (hload : load score settings = .ok opening) (cues : List Cue) :
    (opening.play cues).Sound := by
  induction cues using List.reverseRecOn with
  | nil =>
      obtain ⟨desk, playhead, -, hplayhead, rfl⟩ := load_eq_ok_iff.mp hload
      obtain ⟨resolution, -, hplayhead⟩ := bind_eq_ok_iff.mp hplayhead
      cases hplayhead
      exact ⟨by simp [play], fun _ => rfl, rfl, by simp [play]⟩
  | append_singleton cues cue ih =>
      rw [play_concat]
      cases cue with
      | start tick => exact Sound.start tick
      | advance => exact ih.advance (isPlayable_valid hload cues)
      | edit move => exact ih.edit move

/-- **No note is stranded.** Take any performance, with any number of starts, quanta, calls and
steps of threads in any order. If the last quantum was played from the edition that is still valid,
and the cursor has passed this edition, then no key was struck last since the start: every attack
that was sent was followed by a release of the same key. -/
theorem no_note_stranded {score : Score} {settings : Settings} {opening : Performance}
    (hload : load score settings = .ok opening) (cues : List Cue)
    (hcurrent : (opening.play cues).playhead.seen = some (opening.play cues).desk.valid.serial)
    (hended : (opening.play cues).playhead.hasEnded (opening.play cues).desk.valid = true) :
    (∀ channel pitch velocity, lastNote? (opening.play cues).since channel pitch
        ≠ some (.noteOn channel pitch velocity))
      ∧ ∀ before tick channel pitch velocity after,
        (opening.play cues).since
            = before ++ ⟨tick, .noteOn channel pitch velocity⟩ :: after →
          ∃ later, ⟨later, .noteOff channel pitch⟩ ∈ after := by
  have hsound := sound_play hload cues
  have hsilent := Playhead.sounding_eq_nil_of_hasEnded (isPlayable_valid hload cues)
    (hsound.ends hcurrent) hended
  have hlast : ∀ channel pitch velocity, lastNote? (opening.play cues).since channel pitch
      ≠ some (.noteOn channel pitch velocity) := by
    intro channel pitch velocity hattack
    have hkey : (⟨channel, pitch⟩ : KeyOn) ∈ KeyOn.afterAll [] (opening.play cues).since := by
      rw [KeyOn.mem_afterAll, hattack]
      rfl
    rw [← hsound.sounding, hsilent] at hkey
    cases hkey
  refine ⟨hlast, ?_⟩
  intro before tick channel pitch velocity after hsince
  have hattack := hlast channel pitch velocity
  rw [hsince, List.append_cons, lastNote?_append, lastNote?_concat, if_pos (by simp)]
    at hattack
  cases hafter : lastNote? after channel pitch with
  | none =>
      rw [hafter] at hattack
      exact absurd rfl hattack
  | some message =>
      obtain ⟨hnote, later, hmem⟩ := mem_of_lastNote? hafter
      cases message with
      | noteOn c p v =>
          -- It would be the last message of its key in the whole run.
          obtain ⟨rfl, rfl⟩ := Message.isNoteOf_noteOn.mp hnote
          have hother := hlast c p v
          rw [hsince, List.append_cons, lastNote?_append, hafter] at hother
          exact absurd rfl hother
      | noteOff c p =>
          obtain ⟨rfl, rfl⟩ := Message.isNoteOf_noteOff.mp hnote
          exact ⟨later, hmem⟩
      | control c controller value => cases hnote
      | program c number => cases hnote

/-- A key is struck, and the score is rebuilt without it while it sounds. -/
def dropping : List Cue :=
  [.start 0, .advance, .edit (.enter (.rebuild (.score (pads ["----"]))))]
    ++ List.replicate 7 (.edit (.step true 0)) ++ [.advance]

theorem no_note_stranded_dropped :
    ((opening oneBeat).play dropping).since
        = [⟨0, .program 0 0⟩, ⟨0, .noteOn 0 60 127⟩, ⟨30, .noteOff 0 60⟩]
      ∧ lastNote? ((opening oneBeat).play dropping).since 0 60 ≠ some (.noteOn 0 60 127) := by
  refine ⟨by decide +kernel, ?_⟩
  exact (no_note_stranded (load_eq_opening compile_oneBeat) dropping (by decide +kernel)
    (by decide +kernel)).1 0 60 127

end Performance

end ChordGrid
