import ChordGrid.Proofs.Checked
import ChordGrid.Score.Compile

namespace ChordGrid

variable {score : Score} {settings : Settings}

theorem PhraseEntry.kind_of_content {entry : PhraseEntry} {seed : UInt64} {kind : PhraseKind}
    {content : Content} (h : entry.content seed kind = .ok content) : content.kind = kind := by
  cases kind with
  | drum => obtain ⟨_, _, rfl⟩ := map_eq_ok_iff.mp h; rfl
  | pad => obtain ⟨_, _, rfl⟩ := map_eq_ok_iff.mp h; rfl
  | bass => obtain ⟨_, _, rfl⟩ := map_eq_ok_iff.mp h; rfl
  | seque => cases h; rfl

theorem PhraseEntry.kind_of_compile {entry : PhraseEntry} {r : Resolution} {velocity : Nat}
    {seed : UInt64} {phrase : Phrase} (h : entry.compile r velocity seed = .ok phrase) :
    PhraseKind.parse entry.kind = .ok phrase.kind := by
  obtain ⟨kind, hkind, h⟩ := bind_eq_ok_iff.mp h
  obtain ⟨content, hcontent, h⟩ := bind_eq_ok_iff.mp h
  cases h
  rw [hkind, ← kind_of_content hcontent]
  rfl

theorem PartEntry.compile_eq_map (entry : PartEntry) (phrases : List Phrase) :
    entry.compile phrases = (entry.compile []).map fun part =>
      { part with phrases := phrases.filter fun phrase => phrase.kind = part.kind } := by
  unfold compile
  cases PhraseKind.parse entry.kind with
  | error fault => rfl
  | ok kind =>
      cases Program.named entry.channel entry.inst with
      | error fault => rfl
      | ok program =>
          by_cases hchannel : entry.channel < channelCount
          · simp only [bind, Except.bind, Part.new, if_pos hchannel]
            rfl
          · simp only [bind, Except.bind, Part.new, if_neg hchannel]
            rfl

theorem PartEntry.of_compile {entry : PartEntry} {phrases : List Phrase} {part : Part}
    (h : entry.compile phrases = .ok part) :
    PhraseKind.parse entry.kind = .ok part.kind
      ∧ Program.named entry.channel entry.inst = .ok part.program
      ∧ part.channel = entry.channel ∧ part.channel < channelCount
      ∧ part.phrases = phrases.filter fun phrase => phrase.kind = part.kind := by
  obtain ⟨kind, hkind, h⟩ := bind_eq_ok_iff.mp h
  obtain ⟨program, hprogram, h⟩ := bind_eq_ok_iff.mp h
  obtain ⟨fresh, hfresh, h⟩ := bind_eq_ok_iff.mp h
  unfold Part.new at hfresh
  split at hfresh
  · next hchannel =>
      cases hfresh
      cases h
      exact ⟨hkind, hprogram, rfl, hchannel, rfl⟩
  · cases hfresh

theorem Score.compile_eq_ok_iff {arrangement : Arrangement} :
    score.compile settings = .ok arrangement
      ↔ ∃ r key mode patterns phrases, settings.resolution = .ok r
        ∧ Key.parse score.song.key = .ok key ∧ Mode.parse score.song.mode = .ok mode
        ∧ (score.patterns.mapM fun entry => Pattern.parse entry.name entry.data) = .ok patterns
        ∧ Timeline.arrange ⟨key, mode⟩ r patterns score.song.order = .ok arrangement.timeline
        ∧ score.compilePhrases settings r = .ok phrases
        ∧ (score.parts.mapM fun entry => entry.compile phrases) = .ok arrangement.parts
        ∧ score.faders.mapM FaderEntry.compile = .ok arrangement.faders
        ∧ arrangement.tempo = score.song.tempo.getD settings.tempo := by
  constructor
  · intro h
    obtain ⟨r, hr, h⟩ := bind_eq_ok_iff.mp h
    obtain ⟨key, hkey, h⟩ := bind_eq_ok_iff.mp h
    obtain ⟨mode, hmode, h⟩ := bind_eq_ok_iff.mp h
    obtain ⟨patterns, hpatterns, h⟩ := bind_eq_ok_iff.mp h
    obtain ⟨timeline, htimeline, h⟩ := bind_eq_ok_iff.mp h
    obtain ⟨phrases, hphrases, h⟩ := bind_eq_ok_iff.mp h
    obtain ⟨parts, hparts, h⟩ := bind_eq_ok_iff.mp h
    obtain ⟨faders, hfaders, h⟩ := bind_eq_ok_iff.mp h
    cases h
    exact ⟨r, key, mode, patterns, phrases, hr, hkey, hmode, hpatterns, htimeline, hphrases, hparts,
      hfaders, rfl⟩
  · rintro ⟨r, key, mode, patterns, phrases, hr, hkey, hmode, hpatterns, htimeline, hphrases,
      hparts, hfaders, htempo⟩
    refine bind_eq_ok_iff.mpr ⟨r, hr, bind_eq_ok_iff.mpr ⟨key, hkey,
      bind_eq_ok_iff.mpr ⟨mode, hmode, bind_eq_ok_iff.mpr ⟨patterns, hpatterns,
      bind_eq_ok_iff.mpr ⟨arrangement.timeline, htimeline,
      bind_eq_ok_iff.mpr ⟨phrases, hphrases, bind_eq_ok_iff.mpr ⟨arrangement.parts, hparts,
      bind_eq_ok_iff.mpr ⟨arrangement.faders, hfaders, ?_⟩⟩⟩⟩⟩⟩⟩⟩
    rw [← htempo]
    rfl

theorem Score.resolution_of_compilePhrases {r : Resolution} {phrases : List Phrase}
    (hphrases : score.compilePhrases settings r = .ok phrases) :
    ∀ phrase ∈ phrases, phrase.resolution = r := by
  intro phrase hphrase
  obtain ⟨placed, -, hentry⟩ := exists_of_mem_right (mapM_eq_ok_iff.mp hphrases) hphrase
  obtain ⟨kind, -, hcontent⟩ := bind_eq_ok_iff.mp hentry
  obtain ⟨content, -, hfresh⟩ := bind_eq_ok_iff.mp hcontent
  cases hfresh
  rfl

theorem Score.mem_phrases_of_compile {phrases : List Phrase} {parts : List Part}
    (hparts : (score.parts.mapM fun entry => entry.compile phrases) = .ok parts) :
    ∀ part ∈ parts, ∀ phrase ∈ part.phrases, phrase ∈ phrases := by
  intro part hpart phrase hphrase
  obtain ⟨entry, -, hentry⟩ := exists_of_mem_right (mapM_eq_ok_iff.mp hparts) hpart
  rw [(PartEntry.of_compile hentry).2.2.2.2] at hphrase
  exact (List.mem_filter.mp hphrase).1

theorem Score.channel_lt_of_compile {arrangement : Arrangement}
    (hcompile : score.compile settings = .ok arrangement) :
    ∀ part ∈ arrangement.parts, part.channel < channelCount := by
  obtain ⟨r, key, mode, patterns, phrases, -, -, -, -, -, -, hparts, -⟩ :=
    Score.compile_eq_ok_iff.mp hcompile
  intro part hpart
  obtain ⟨entry, -, hmade⟩ := exists_of_mem_right (mapM_eq_ok_iff.mp hparts) hpart
  exact (PartEntry.of_compile hmade).2.2.2.1

theorem Edition.compile_eq_ok_iff {edition : Edition} :
    Edition.compile score settings = .ok edition
      ↔ ∃ arrangement messages, score.compile settings = .ok arrangement
        ∧ (arrangement.messages 0 .playback).1 = .ok messages
        ∧ edition = ⟨Roll.ofMessages messages, arrangement.tempo, arrangement.timeline.length⟩ := by
  constructor
  · intro h
    obtain ⟨arrangement, harrangement, h⟩ := bind_eq_ok_iff.mp h
    obtain ⟨roll, hroll, h⟩ := bind_eq_ok_iff.mp h
    obtain ⟨messages, hmessages, rfl⟩ := map_eq_ok_iff.mp hroll
    cases h
    exact ⟨arrangement, messages, harrangement, hmessages, rfl⟩
  · rintro ⟨arrangement, messages, harrangement, hmessages, rfl⟩
    exact bind_eq_ok_iff.mpr ⟨arrangement, harrangement,
      bind_eq_ok_iff.mpr ⟨_, map_eq_ok_iff.mpr ⟨messages, hmessages, rfl⟩, rfl⟩⟩

end ChordGrid
