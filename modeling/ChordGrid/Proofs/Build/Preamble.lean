import ChordGrid.Proofs.Build.Balance
import ChordGrid.Proofs.Roll.Sorting

namespace ChordGrid

/-- A stable sort begins with what has the least number, as it came. -/
theorem sortedBy_eq_classOf_append {α : Type} (key : α → Nat) (things : List α) :
    sortedBy key things
      = classOf key 0 things ++ sortedBy key (things.filter fun thing => 1 ≤ key thing) := by
  have hfirst : (sortedBy key things).filter (fun thing => key thing < 1)
      = classOf key 0 things := by
    rw [← classOf_sortedBy]
    simp only [classOf, Nat.lt_one_iff]
  calc sortedBy key things
      = (sortedBy key things).filter (fun thing => key thing < 1)
          ++ (sortedBy key things).filter fun thing => 1 ≤ key thing :=
        (filter_lt_append_filter_le key (pairwise_sortedBy things) 1).symm
    _ = classOf key 0 things ++ sortedBy key (things.filter fun thing => 1 ≤ key thing) := by
        rw [hfirst, filter_sortedBy]

theorem Timed.order_eq_zero_iff {timed : Timed} :
    timed.order = 0 ↔ timed.tick = 0 ∧ timed.message.isSetup = true := by
  rw [order_eq_iff, Message.isSetup, decide_eq_true_eq]

theorem Message.note_of_not_isSetup {message : Message} (hnote : ¬ message.isSetup = true) :
    ∃ channel pitch, message = .noteOff channel pitch
      ∨ ∃ velocity, message = .noteOn channel pitch velocity := by
  cases message with
  | noteOn channel pitch velocity => exact ⟨channel, pitch, .inr ⟨velocity, rfl⟩⟩
  | noteOff channel pitch => exact ⟨channel, pitch, .inl rfl⟩
  | control channel controller value => exact absurd rfl hnote
  | program channel number => exact absurd rfl hnote

/-- What is left of messages when the notes are taken out. -/
def setupPart (messages : List Timed) : List Timed :=
  messages.filter fun timed => timed.message.isSetup

theorem mem_setupPart {messages : List Timed} {timed : Timed} :
    timed ∈ setupPart messages ↔ timed ∈ messages ∧ timed.message.isSetup = true :=
  List.mem_filter

theorem setupPart_append (messages more : List Timed) :
    setupPart (messages ++ more) = setupPart messages ++ setupPart more :=
  List.filter_append messages more

theorem setupPart_flatten (lists : List (List Timed)) :
    setupPart lists.flatten = (lists.map setupPart).flatten :=
  List.filter_flatten

theorem setupPart_eq_self {messages : List Timed}
    (hsetup : ∀ timed ∈ messages, timed.message.isSetup = true) :
    setupPart messages = messages :=
  List.filter_eq_self.mpr hsetup

theorem classOf_zero_eq_setupPart {messages : List Timed}
    (htop : ∀ timed ∈ setupPart messages, timed.tick = 0) :
    classOf Timed.order 0 messages = setupPart messages := by
  rw [classOf, setupPart]
  refine List.filter_congr ?_
  intro timed htimed
  rw [← Bool.decide_coe timed.message.isSetup, decide_eq_decide, Timed.order_eq_zero_iff]
  constructor
  · exact And.right
  · intro hsetup
    exact ⟨htop timed (mem_setupPart.mpr ⟨htimed, hsetup⟩), hsetup⟩

section Build

variable {tick : Nat} {mode : BuildMode} {made : List Timed}

theorem Part.setupPart_of_build {part : Part} {timeline : Timeline}
    (hmade : (part.build timeline tick mode).1 = .ok made) :
    setupPart made = part.selection (mode.start tick) := by
  obtain ⟨struck, hstruck, rfl⟩ := exists_struck_of_build hmade
  have hselected : setupPart (part.selection (mode.start tick))
      = part.selection (mode.start tick) :=
    setupPart_eq_self fun _ => setup_of_mem_selection
  have hnone : setupPart struck = [] := List.filter_eq_nil_iff.mpr hstruck.not_isSetup
  rw [setupPart_append, hselected, hnone, List.append_nil]

theorem flatMap_selection (parts : List Part) (start : Nat) :
    parts.flatMap (fun part => part.selection start)
      = (parts.filter fun part => !part.phrases.isEmpty).map fun part =>
          ⟨start, .program part.channel part.program.number⟩ := by
  induction parts with
  | nil => rfl
  | cons part rest ih =>
      rw [List.flatMap_cons, ih, Part.selection, List.filter_cons]
      by_cases hempty : part.phrases.isEmpty = true
      · simp [hempty]
      · simp [hempty]

namespace Arrangement

variable {arrangement : Arrangement}

theorem setupPart_of_messages (hmade : (arrangement.messages tick mode).1 = .ok made) :
    setupPart made
      = mixdown arrangement.faders arrangement.parts
        ++ (arrangement.parts.filter fun part => !part.phrases.isEmpty).map fun part =>
            ⟨mode.start tick, .program part.channel part.program.number⟩ := by
  obtain ⟨lists, hlists, rfl⟩ := map_eq_ok_iff.mp hmade
  have hmixed : setupPart (mixdown arrangement.faders arrangement.parts)
      = mixdown arrangement.faders arrangement.parts :=
    setupPart_eq_self fun _ => setup_of_mem_mixdown
  have hparts : lists.map setupPart
      = arrangement.parts.map fun part => part.selection (mode.start tick) := by
    rw [← List.forall₂_eq_eq_eq, List.forall₂_map_left_iff, List.forall₂_map_right_iff]
    refine (sweep_eq_ok_iff.mp hlists).flip.imp ?_
    intro list part hpart
    exact Part.setupPart_of_build hpart
  rw [setupPart_append, setupPart_flatten, hmixed, hparts, ← List.flatMap_def, flatMap_selection]

end Arrangement

/-- **Setup stands first,** in a fixed order. The stream of a roll that is built from tick zero on
consists of the messages of the mixer, one selection for each part that owns phrases, in the order
of the parts, and then of attacks and releases only. All setup stands at tick zero. -/
theorem setup_stands_first {arrangement : Arrangement} {roll : Roll}
    (hstart : mode = .playback → tick = 0)
    (hbuild : (arrangement.build tick mode).1 = .ok roll) (quantum : Nat) :
    ∃ notes,
      roll.exported quantum
        = mixdown arrangement.faders arrangement.parts
          ++ (arrangement.parts.filter fun part => !part.phrases.isEmpty).map (fun part =>
              ⟨0, .program part.channel part.program.number⟩)
          ++ notes
        ∧ (∀ timed ∈ mixdown arrangement.faders arrangement.parts, timed.tick = 0)
        ∧ ∀ timed ∈ notes, ∃ channel pitch, timed.message = .noteOff channel pitch
            ∨ ∃ velocity, timed.message = .noteOn channel pitch velocity := by
  obtain ⟨messages, hmessages, rfl⟩ := map_eq_ok_iff.mp hbuild
  have hzero : mode.start tick = 0 := by
    cases mode with
    | playback => exact hstart rfl
    | wholeSong => rfl
  have hsetup := Arrangement.setupPart_of_messages hmessages
  rw [hzero] at hsetup
  have htop : ∀ timed ∈ setupPart messages, timed.tick = 0 := by
    intro timed htimed
    rw [hsetup] at htimed
    obtain hmixed | hselected := List.mem_append.mp htimed
    · exact tick_of_mem_mixdown hmixed
    · obtain ⟨part, -, rfl⟩ := List.mem_map.mp hselected
      rfl
  refine ⟨sortedBy Timed.order (messages.filter fun timed => 1 ≤ timed.order), ?_, ?_, ?_⟩
  · rw [Roll.exported_eq_stream, Roll.stream_ofMessages, sortedBy_eq_classOf_append,
      classOf_zero_eq_setupPart htop, hsetup]
  · exact fun _ => tick_of_mem_mixdown
  · intro timed htimed
    obtain ⟨hmem, horder⟩ := List.mem_filter.mp (List.mem_mergeSort.mp htimed)
    apply Message.note_of_not_isSetup
    intro hset
    have htick := htop timed (mem_setupPart.mpr ⟨hmem, hset⟩)
    have hzero := Timed.order_eq_zero_iff.mpr ⟨htick, hset⟩
    simp [hzero] at horder

end Build

/-- Two parts of one kind and channel under two faders; the second part owns no phrases. -/
def doublyMixed : Arrangement :=
  { overlaid with
    parts := overlaid.parts ++ [⟨0, .instrument 5, .pad, []⟩]
    faders := [⟨.pad, 90, .left, false⟩, ⟨.bass, 70, .left, false⟩, ⟨.pad, 80, .right, true⟩] }

def doublyMixedSetup : List Timed :=
  [⟨0, .control 0 7 90⟩, ⟨0, .control 0 10 0⟩, ⟨0, .control 0 7 90⟩, ⟨0, .control 0 10 0⟩,
    ⟨0, .control 0 7 0⟩, ⟨0, .control 0 10 127⟩, ⟨0, .control 0 7 0⟩, ⟨0, .control 0 10 127⟩,
    ⟨0, .program 0 0⟩]

/-- An export of the whole song starts at the top, whatever tick it is asked for. -/
theorem setup_stands_first_doubly_mixed :
    (BuildMode.wholeSong = .playback → 480 = 0) ∧
      ∃ roll notes, (doublyMixed.build 480 .wholeSong).1 = .ok roll ∧
        roll.exported 30 = doublyMixedSetup ++ notes ∧
        ∀ timed ∈ notes, ∃ channel pitch, timed.message = .noteOff channel pitch
          ∨ ∃ velocity, timed.message = .noteOn channel pitch velocity := by
  have hstart : BuildMode.wholeSong = .playback → 480 = 0 := fun hmode => by cases hmode
  have hbuilt : (doublyMixed.build 480 .wholeSong).1.toOption.isSome = true := by
    decide +kernel
  obtain ⟨roll, hbuild⟩ := exists_ok_of_isSome hbuilt
  obtain ⟨notes, hstream, -, hnotes⟩ := setup_stands_first hstart hbuild 30
  exact ⟨hstart, roll, notes, hbuild, hstream, hnotes⟩

end ChordGrid
