import ChordGrid.Proofs.Build.Compiling
import ChordGrid.Proofs.Build.Strikes
import ChordGrid.Proofs.MidiFile.Events
import ChordGrid.Proofs.Roll.Order
import ChordGrid.Score.Compile

namespace ChordGrid

open Text

/-! ### Names -/

namespace GeneralMidi

variable {name : String} {letters : List Char} {n : Nat}

theorem eq_some_of_orElse {first second : Option Nat} (h : (first <|> second) = some n) :
    first = some n ∨ second = some n := by
  cases first with
  | none => exact .inr h
  | some found => exact .inl h

theorem number?_lt (h : number? letters = some n) : n < 128 :=
  Nat.lt_succ_of_le (le_of_numeralUpTo? h)

theorem placeOf?_lt {names : List String} (h : placeOf? names letters = some n) :
    n < names.length :=
  (List.findIdx?_eq_some_iff_findIdx_eq.mp h).1

theorem instrument_lt (h : instrument name = .ok n) : n < 128 := by
  unfold instrument at h
  split at h
  · next found =>
      cases h
      obtain hnumber | hplace := eq_some_of_orElse found
      · exact number?_lt hnumber
      · exact placeOf?_lt hplace
  · cases h

theorem drumKit_lt (h : drumKit name = .ok n) : n < 128 := by
  unfold drumKit at h
  split at h
  · next found =>
      cases h
      obtain hnumber | hkit := eq_some_of_orElse found
      · exact number?_lt hnumber
      · obtain ⟨kit, hfind, rfl⟩ := Option.map_eq_some_iff.mp hkit
        have hall : ∀ kit ∈ drumKits, kit.2 < 128 := by decide
        exact hall kit (List.mem_of_find?_eq_some hfind)
  · cases h

theorem percussion_lt (h : percussion name = .ok n) : n < 128 := by
  unfold percussion at h
  split at h
  · next found =>
      cases h
      obtain hnumber | hsound := eq_some_of_orElse found
      · exact number?_lt hnumber
      · obtain ⟨place, hplace, rfl⟩ := Option.map_eq_some_iff.mp hsound
        have hlt : place < 47 := placeOf?_lt hplace
        rw [firstPercussionKey]
        omega
  · cases h

end GeneralMidi

theorem Program.number_lt {channel : Nat} {name : String} {program : Program}
    (h : named channel name = .ok program) : program.number < 128 := by
  unfold named at h
  split at h
  · obtain ⟨kit, hkit, rfl⟩ := map_eq_ok_iff.mp h
    exact GeneralMidi.drumKit_lt hkit
  · obtain ⟨instrument, hinstrument, rfl⟩ := map_eq_ok_iff.mp h
    exact GeneralMidi.instrument_lt hinstrument

theorem Pan.value_lt {name : String} {pan : Pan} (h : parse name = .ok pan) : pan.value < 128 := by
  simp only [parse] at h
  split at h
  · next found =>
      cases h
      obtain ⟨before, after, heq, -⟩ := List.lookup_eq_some_iff.mp found
      have hall : ∀ entry ∈ names, entry.2.value < 128 := by decide
      have hmem : (String.ofList (lower (trim name.toList)), pan) ∈ names := by
        rw [heq]
        exact List.mem_append_right before List.mem_cons_self
      exact hall _ hmem
  · split at h
    · split at h
      · cases h
        exact Nat.lt_succ_of_le ‹_›
      · cases h
    · cases h

/-! ### What is legal before it sounds -/

structure Fader.IsLegal (fader : Fader) : Prop where
  volume_lt : fader.volume < 128
  pan_lt : fader.pan.value < 128

structure Note.IsLegal (note : Note) : Prop where
  pitch_lt : note.pitch < 128
  velocity_lt : note.velocity < 128

structure Phrase.IsLegal (phrase : Phrase) : Prop where
  keys_lt : ∀ lines, phrase.content = .drum lines → ∀ line ∈ lines, line.key < 128
  velocity_lt : phrase.velocity < 128

structure Part.IsLegal (part : Part) : Prop where
  channel_lt : part.channel < channelCount
  program_lt : part.program.number < 128
  phrases : ∀ phrase ∈ part.phrases, phrase.IsLegal

structure Arrangement.IsLegal (arrangement : Arrangement) : Prop where
  parts : ∀ part ∈ arrangement.parts, part.IsLegal
  faders : ∀ fader ∈ arrangement.faders, fader.IsLegal

/-! ### Compiling -/

theorem FaderEntry.isLegal_of_compile {entry : FaderEntry} {fader : Fader}
    (h : entry.compile = .ok fader) : fader.IsLegal := by
  obtain ⟨kind, -, h⟩ := bind_eq_ok_iff.mp h
  obtain ⟨pan, hpan, h⟩ := bind_eq_ok_iff.mp h
  unfold Fader.new at h
  split at h
  · next hvolume =>
      cases h
      exact ⟨Nat.lt_succ_of_le hvolume, Pan.value_lt hpan⟩
  · cases h

namespace PhraseEntry

variable {entry : PhraseEntry} {r : Resolution} {velocity : Nat} {seed : UInt64}

theorem key_lt_of_drumLines {lines : List PercussionLine} (h : entry.drumLines = .ok lines) :
    ∀ line ∈ lines, line.key < 128 := by
  obtain ⟨grids, -, h⟩ := bind_eq_ok_iff.mp h
  obtain ⟨-, -, h⟩ := bind_eq_ok_iff.mp h
  intro line hline
  obtain ⟨⟨grid, sound⟩, -, h⟩ := exists_of_mem_right (mapM_eq_ok_iff.mp h) hline
  obtain ⟨key, hkey, h⟩ := bind_eq_ok_iff.mp h
  obtain ⟨hits, -, h⟩ := bind_eq_ok_iff.mp h
  cases h
  exact GeneralMidi.percussion_lt hkey

theorem isLegal_of_compile {phrase : Phrase} (hvelocity : velocity < 128)
    (h : entry.compile r velocity seed = .ok phrase) : phrase.IsLegal := by
  obtain ⟨kind, -, h⟩ := bind_eq_ok_iff.mp h
  obtain ⟨content, hcontent, h⟩ := bind_eq_ok_iff.mp h
  cases h
  refine ⟨?_, hvelocity⟩
  rintro lines (rfl : content = .drum lines)
  cases kind with
  | drum =>
      obtain ⟨made, hmade, heq⟩ := map_eq_ok_iff.mp hcontent
      cases heq
      exact key_lt_of_drumLines hmade
  | pad => obtain ⟨_, _, heq⟩ := map_eq_ok_iff.mp hcontent; cases heq
  | bass => obtain ⟨_, _, heq⟩ := map_eq_ok_iff.mp hcontent; cases heq
  | seque => cases hcontent

end PhraseEntry

theorem PartEntry.isLegal_of_compile {entry : PartEntry} {phrases : List Phrase} {part : Part}
    (hphrases : ∀ phrase ∈ phrases, phrase.IsLegal) (h : entry.compile phrases = .ok part) :
    part.IsLegal := by
  obtain ⟨-, hprogram, -, hchannel, htaken⟩ := PartEntry.of_compile h
  refine ⟨hchannel, Program.number_lt hprogram, ?_⟩
  intro phrase hphrase
  rw [htaken] at hphrase
  exact hphrases phrase (List.mem_of_mem_filter hphrase)

theorem Settings.velocity_lt_of_check {settings : Settings} (h : settings.check = .ok ()) :
    settings.velocity < 128 := by
  obtain ⟨r, -, h⟩ := bind_eq_ok_iff.mp h
  by_contra hvelocity
  rw [if_pos (by omega)] at h
  cases h

theorem Score.isLegal_of_compile {score : Score} {settings : Settings} {arrangement : Arrangement}
    (hcheck : settings.check = .ok ()) (h : score.compile settings = .ok arrangement) :
    arrangement.IsLegal := by
  obtain ⟨r, key, mode, patterns, phrases, -, -, -, -, -, hphrases, hparts, hfaders, -⟩ :=
    Score.compile_eq_ok_iff.mp h
  have hlegal : ∀ phrase ∈ phrases, phrase.IsLegal := by
    intro phrase hphrase
    obtain ⟨placed, -, hmade⟩ := exists_of_mem_right (mapM_eq_ok_iff.mp hphrases) hphrase
    exact PhraseEntry.isLegal_of_compile (Settings.velocity_lt_of_check hcheck) hmade
  refine ⟨?_, ?_⟩
  · intro part hpart
    obtain ⟨entry, -, hmade⟩ := exists_of_mem_right (mapM_eq_ok_iff.mp hparts) hpart
    exact PartEntry.isLegal_of_compile hlegal hmade
  · intro fader hfader
    obtain ⟨entry, -, hmade⟩ := exists_of_mem_right (mapM_eq_ok_iff.mp hfaders) hfader
    exact FaderEntry.isLegal_of_compile hmade

/-! ### Building -/

namespace Phrase

variable {phrase : Phrase} {position : Nat} {tonality : Tonality} {pattern : Pattern}

theorem IsLegal.play (h : phrase.IsLegal) : (phrase.play position tonality pattern).2.IsLegal := by
  have hkeys : ∀ place lines, (phrase.content.notes place).2 = .drum lines →
      ∀ line ∈ lines, line.key < 128 := by
    intro place lines hlines
    apply h.keys_lt
    cases hcontent : phrase.content with
    | drum own => rw [hcontent] at hlines; exact hlines
    | pad own => rw [hcontent] at hlines; cases hlines
    | bass own => rw [hcontent] at hlines; cases hlines
    | seque own => rw [hcontent] at hlines; cases hlines
  rw [Phrase.play_eq]
  split
  · exact h
  · dsimp only
    split <;> exact ⟨hkeys _, h.velocity_lt⟩

theorem IsLegal.notes {notes : List Note} (h : phrase.IsLegal)
    (hnotes : (phrase.play position tonality pattern).1 = .ok notes) :
    ∀ note ∈ notes, note.IsLegal := by
  refine Phrase.forall_notes (fun made hmade => Content.forall_notes ?_ ?_ ?_ hmade) hnotes
  · intro lines hlines line hline tick
    exact ⟨h.keys_lt lines hlines line hline, h.velocity_lt⟩
  · intro tick pitch cells hpitch
    exact ⟨Nat.lt_succ_of_le hpitch, h.velocity_lt⟩
  · intro tick pitch hpitch
    exact ⟨Nat.lt_succ_of_le hpitch, h.velocity_lt⟩

end Phrase

namespace Part

variable {channel : Nat} {tonality : Tonality} {phrases : List Phrase} {made : List Timed}

theorem legal_strike (hchannel : channel < channelCount) {note : Note} (h : note.IsLegal) :
    ∀ timed ∈ strike channel note, timed.message.IsLegal := by
  simp only [strike, List.forall_mem_cons]
  exact ⟨⟨hchannel, h.pitch_lt, h.velocity_lt⟩, ⟨hchannel, h.pitch_lt⟩, List.forall_mem_nil _⟩

theorem legal_playOccurrence (hchannel : channel < channelCount) {occurrence : Occurrence}
    (hphrases : ∀ phrase ∈ phrases, phrase.IsLegal)
    (hmade : (playOccurrence channel tonality occurrence phrases).1 = .ok made) :
    ∀ timed ∈ made, timed.message.IsLegal := by
  obtain ⟨lists, hlists, rfl⟩ := map_eq_ok_iff.mp hmade
  intro timed htimed
  obtain ⟨note, hnote, hstrike⟩ := List.mem_flatMap.mp htimed
  obtain ⟨notes, hnotes, hmem⟩ := List.mem_flatten.mp hnote
  obtain ⟨phrase, hphrase, hplayed⟩ := exists_of_mem_right (sweep_eq_ok_iff.mp hlists) hnotes
  exact legal_strike hchannel ((hphrases phrase hphrase).notes hplayed note hmem) timed hstrike

theorem legal_playOccurrences (hchannel : channel < channelCount) {occurrences : List Occurrence}
    (hphrases : ∀ phrase ∈ phrases, phrase.IsLegal) :
    (∀ made, (playOccurrences channel tonality occurrences phrases).1 = .ok made →
        ∀ timed ∈ made, timed.message.IsLegal)
      ∧ ∀ phrase ∈ (playOccurrences channel tonality occurrences phrases).2, phrase.IsLegal := by
  induction occurrences generalizing phrases with
  | nil =>
      refine ⟨?_, hphrases⟩
      intro made hmade
      cases hmade
      exact List.forall_mem_nil _
  | cons occurrence rest ih =>
      have hafter : ∀ phrase ∈ (playOccurrence channel tonality occurrence phrases).2,
          phrase.IsLegal :=
        forall_playOccurrence_snd (fun _ hphrase => hphrase.play) hphrases
      unfold playOccurrences
      split
      · next fault after hfault =>
          rw [hfault] at hafter
          refine ⟨?_, hafter⟩
          intro made hmade
          cases hmade
      · next first after hfirst =>
          rw [hfirst] at hafter
          obtain ⟨hmore, hlast⟩ := ih hafter
          refine ⟨?_, hlast⟩
          intro made hmade
          obtain ⟨more, hsome, rfl⟩ := map_eq_ok_iff.mp hmade
          refine List.forall_mem_append.mpr ⟨?_, hmore more hsome⟩
          exact legal_playOccurrence hchannel hphrases (congrArg Prod.fst hfirst)

variable {part : Part} {timeline : Timeline} {tick : Nat} {mode : BuildMode}

theorem IsLegal.build_snd (h : part.IsLegal) : (part.build timeline tick mode).2.IsLegal := by
  unfold build
  split
  · exact h
  · exact ⟨h.channel_lt, h.program_lt, (legal_playOccurrences h.channel_lt h.phrases).2⟩

theorem IsLegal.build (h : part.IsLegal) (hmade : (part.build timeline tick mode).1 = .ok made) :
    ∀ timed ∈ made, timed.message.IsLegal := by
  unfold Part.build at hmade
  split at hmade
  · cases hmade
    exact List.forall_mem_nil _
  · obtain ⟨played, hplayed, rfl⟩ := map_eq_ok_iff.mp hmade
    refine List.forall_mem_cons.mpr ⟨⟨h.channel_lt, h.program_lt⟩, ?_⟩
    exact (legal_playOccurrences h.channel_lt h.phrases).1 played hplayed

end Part

theorem legal_mixdown {faders : List Fader} {parts : List Part}
    (hfaders : ∀ fader ∈ faders, fader.IsLegal) (hparts : ∀ part ∈ parts, part.IsLegal) :
    ∀ timed ∈ mixdown faders parts, timed.message.IsLegal := by
  intro timed htimed
  obtain ⟨fader, hfader, part, hpart, -, hmessage⟩ := exists_fader_of_mem_mixdown htimed
  have hchannel := (hparts part hpart).channel_lt
  simp only [Fader.messages, List.mem_cons, List.not_mem_nil, or_false] at hmessage
  obtain hmessage | hmessage := hmessage <;> rw [hmessage]
  · refine ⟨hchannel, by decide, ?_⟩
    split
    · decide
    · exact (hfaders fader hfader).volume_lt
  · exact ⟨hchannel, by decide, (hfaders fader hfader).pan_lt⟩

namespace Arrangement

variable {arrangement : Arrangement} {tick : Nat} {mode : BuildMode}

theorem IsLegal.messages {made : List Timed} (h : arrangement.IsLegal)
    (hmade : (arrangement.messages tick mode).1 = .ok made) :
    ∀ timed ∈ made, timed.message.IsLegal := by
  intro timed htimed
  obtain hmixed | ⟨part, hpart, sent, -, hplayed, hmem⟩ := exists_build_of_mem hmade htimed
  · exact legal_mixdown h.faders h.parts timed hmixed
  · exact (h.parts part hpart).build hplayed timed hmem

theorem IsLegal.build_snd (h : arrangement.IsLegal) : (arrangement.build tick mode).2.IsLegal :=
  ⟨forall_sweep_snd (fun _ hpart => hpart.build_snd) h.parts, h.faders⟩

theorem IsLegal.build {roll : Roll} (h : arrangement.IsLegal)
    (hbuild : (arrangement.build tick mode).1 = .ok roll) :
    ∀ timed ∈ roll.stream, timed.message.IsLegal := by
  obtain ⟨made, hmade, rfl⟩ := map_eq_ok_iff.mp hbuild
  intro timed htimed
  exact h.messages hmade timed (Roll.mem_stream_ofMessages.mp htimed)

/-- The arrangement after some builds, whether they succeed or not. -/
def after (arrangement : Arrangement) (builds : List (Nat × BuildMode)) : Arrangement :=
  builds.foldl (fun arrangement build => (arrangement.build build.1 build.2).2) arrangement

theorem IsLegal.after (h : arrangement.IsLegal) (builds : List (Nat × BuildMode)) :
    (arrangement.after builds).IsLegal := by
  induction builds generalizing arrangement with
  | nil => exact h
  | cons build rest ih => exact ih h.build_snd

end Arrangement

/-- **Every message is one of the standard.** Compile any score with settings that are not refused,
and build it any number of times, from any ticks and in any modes: whatever a build that succeeds
delivers is on a channel that exists and carries numbers of seven bits. -/
theorem compiled_messages_legal {score : Score} {settings : Settings} {arrangement : Arrangement}
    (hcheck : settings.check = .ok ()) (hcompile : score.compile settings = .ok arrangement)
    (builds : List (Nat × BuildMode)) {tick : Nat} {mode : BuildMode} {roll : Roll}
    (hbuild : ((arrangement.after builds).build tick mode).1 = .ok roll) :
    ∀ timed ∈ roll.stream, timed.message.IsLegal :=
  ((Score.isLegal_of_compile hcheck hcompile).after builds).build hbuild

/-- One pad whose every number is the highest there is. -/
def highest : Score where
  song := { name := "", tempo := none, key := "C", mode := "Ion", order := ["a"] }
  patterns := [⟨"a", "I| | | "⟩]
  phrases :=
    [{ kind := "pad", name := "a", data := some { note := some ["5---"], oct := some [5] } }]
  parts := [⟨"pad", 15, "Gunshot"⟩]
  faders := [⟨"pad", 127, "right", false⟩]

def highestMessages : List Timed :=
  [⟨0, .control 15 volumeController 127⟩, ⟨0, .control 15 panController 127⟩, ⟨0, .program 15 127⟩,
    ⟨0, .noteOn 15 127 127⟩, ⟨120, .noteOff 15 127⟩]

theorem compiled_messages_legal_highest :
    ({} : Settings).check = .ok () ∧ ∃ arrangement, highest.compile {} = .ok arrangement
      ∧ ((arrangement.after [(480, .playback)]).build 0 .wholeSong).1
        = .ok (Roll.ofMessages highestMessages)
      ∧ ∀ timed ∈ (Roll.ofMessages highestMessages).stream, timed.message.IsLegal := by
  have hcheck : ({} : Settings).check = .ok () := rfl
  obtain ⟨arrangement, hcompile, hmessages⟩ : ∃ arrangement,
      highest.compile {} = .ok arrangement
        ∧ decide (((arrangement.after [(480, .playback)]).messages 0 .wholeSong).1.toOption
          = some highestMessages) = true :=
    exists_ok_of_any (by decide +kernel)
  have hmade := eq_ok_of_toOption (of_decide_eq_true hmessages)
  have hbuild : ((arrangement.after [(480, .playback)]).build 0 .wholeSong).1
      = .ok (Roll.ofMessages highestMessages) :=
    map_eq_ok_iff.mpr ⟨highestMessages, hmade, rfl⟩
  exact ⟨hcheck, arrangement, hcompile, hbuild,
    compiled_messages_legal hcheck hcompile [(480, .playback)] hbuild⟩

end ChordGrid
