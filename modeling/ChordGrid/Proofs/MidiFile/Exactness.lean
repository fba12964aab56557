import ChordGrid.Proofs.Build.Legality
import ChordGrid.Proofs.MidiFile.RoundTrip
import ChordGrid.Proofs.Performance.Basic
import ChordGrid.Proofs.Playhead.Setup

/-!
# What a file has room for

A file gives seven bits to a number of a message, fifteen to its ticks of a quarter note, 24 to the
microseconds of one, and 28 to the ticks between two messages of a track. Whatever is larger is cut.
A compiled song keeps to the first two. Its tempo is not looked at, so a quarter note may be too
long, and nothing bounds how long a channel is silent.
-/

namespace ChordGrid

open MidiFile

/-! ### The first message of a channel -/

theorem Part.exists_selection_of_mem {part : Part} {timeline : Timeline} {tick : Nat}
    {mode : BuildMode} {made : List Timed} (hmade : (part.build timeline tick mode).1 = .ok made)
    {timed : Timed} (htimed : timed ∈ made) :
    ∃ top ∈ made, top.tick = mode.start tick ∧ top.message.channel = timed.message.channel := by
  unfold build at hmade
  split at hmade
  · cases hmade
    cases htimed
  · obtain ⟨played, hplayed, rfl⟩ := map_eq_ok_iff.mp hmade
    refine ⟨_, List.mem_cons_self, rfl, ?_⟩
    obtain rfl | hmem := List.mem_cons.mp htimed
    · rfl
    · exact ((isStruck_playOccurrences hplayed).channel_eq timed hmem).symm

namespace Edition

variable {score : Score} {settings : Settings} {edition : Edition}

theorem exists_top_of_mem (hcompile : Edition.compile score settings = .ok edition) {timed : Timed}
    (htimed : timed ∈ edition.roll.stream) :
    ∃ top ∈ edition.roll.stream,
      top.tick = 0 ∧ top.message.channel = timed.message.channel := by
  obtain ⟨arrangement, messages, -, hmessages, rfl⟩ := compile_eq_ok_iff.mp hcompile
  obtain hmixed | ⟨part, -, sent, hsent, hpart, hmem⟩ :=
    Arrangement.exists_build_of_mem hmessages (Roll.mem_stream_ofMessages.mp htimed)
  · exact ⟨timed, htimed, tick_of_mem_mixdown hmixed, rfl⟩
  · obtain ⟨top, htop, htick, hchannel⟩ := Part.exists_selection_of_mem hpart hmem
    exact ⟨top, Roll.mem_stream_ofMessages.mpr (hsent htop), htick, hchannel⟩

theorem pairwise_stream (hcompile : Edition.compile score settings = .ok edition) :
    edition.roll.stream.Pairwise fun a b => a.tick ≤ b.tick := by
  obtain ⟨arrangement, messages, -, -, rfl⟩ := compile_eq_ok_iff.mp hcompile
  exact Roll.pairwise_stream (Roll.isOrdered_ofMessages messages)

theorem tick_head_onChannel (hcompile : Edition.compile score settings = .ok edition)
    {channel : Nat} {first : Timed} {rest : List Timed}
    (hchannel : onChannel edition.roll.stream channel = first :: rest) : first.tick = 0 := by
  have hfirst : first ∈ onChannel edition.roll.stream channel := by
    rw [hchannel]
    exact List.mem_cons_self
  obtain ⟨hmem, hsame⟩ := List.mem_filter.mp hfirst
  obtain ⟨top, htop, htick, htopChannel⟩ := exists_top_of_mem hcompile hmem
  have hin : top ∈ first :: rest := by
    rw [← hchannel]
    refine List.mem_filter.mpr ⟨htop, ?_⟩
    rwa [htopChannel]
  have hsorted : (first :: rest).Pairwise fun a b => a.tick ≤ b.tick := by
    rw [← hchannel]
    exact (pairwise_stream hcompile).filter _
  obtain rfl | hlater := List.mem_cons.mp hin
  · exact htick
  · exact Nat.le_zero.mp (htick ▸ (List.pairwise_cons.mp hsorted).1 top hlater)

theorem tempo_of_compile (hcompile : Edition.compile score settings = .ok edition) :
    edition.tempo = score.song.tempo.getD settings.tempo := by
  obtain ⟨arrangement, messages, harrangement, -, rfl⟩ := compile_eq_ok_iff.mp hcompile
  obtain ⟨_, _, _, _, _, -, -, -, -, -, -, -, -, htempo⟩ := Score.compile_eq_ok_iff.mp harrangement
  exact htempo

end Edition

/-! ### What fits -/

namespace MidiFile

theorem microsecondsPerQuarter_lt_iff (tempo : Nat) :
    microsecondsPerQuarter tempo < 0x1000000 ↔ 4 ≤ tempo := by
  rw [microsecondsPerQuarter, Nat.div_lt_iff_lt_mul (by omega)]
  omega

/-- A message follows the one before it so closely that a file has room for the time between. -/
def Follows (before next : Timed) : Prop :=
  next.tick < before.tick + 0x10000000

theorem deltas_lt_iff {first : Timed} {rest : List Timed}
    (hsorted : (first :: rest).Pairwise fun a b => a.tick ≤ b.tick) :
    (∀ e ∈ deltas first.tick rest, e.delta < 0x10000000) ↔ (first :: rest).IsChain Follows := by
  induction rest generalizing first with
  | nil => simp [deltas]
  | cons next rest ih =>
      obtain ⟨hfirst, hrest⟩ := List.pairwise_cons.mp hsorted
      have hle := hfirst next List.mem_cons_self
      rw [deltas, List.forall_mem_cons, List.isChain_cons_cons, Nat.max_eq_right hle, ih hrest]
      exact and_congr_left fun _ => Nat.sub_lt_iff_lt_add' hle

theorem channelTrack_lt_iff {stream : List Timed} {channel : Nat}
    (hsorted : stream.Pairwise fun a b => a.tick ≤ b.tick)
    (htop : ∀ first rest, onChannel stream channel = first :: rest → first.tick = 0) :
    (∀ e ∈ channelTrack stream channel, e.delta < 0x10000000)
      ↔ (onChannel stream channel).IsChain Follows := by
  have hown : (onChannel stream channel).Pairwise fun a b => a.tick ≤ b.tick := hsorted.filter _
  have hends : (∀ e ∈ channelTrack stream channel, e.delta < 0x10000000)
      ↔ ∀ e ∈ deltas 0 (onChannel stream channel), e.delta < 0x10000000 := by
    simp [channelTrack, or_imp, forall_and]
  rw [hends]
  cases hchannel : onChannel stream channel with
  | nil => simp [deltas]
  | cons first rest =>
      rw [hchannel] at hown
      have hzero := htop first rest hchannel
      rw [← deltas_lt_iff hown, deltas, List.forall_mem_cons, hzero]
      simp

/-- The times in the tracks of a stream fit if, on every channel, message follows on message. -/
theorem tracks_lt_iff {stream : List Timed} {tempo : Nat}
    (hlegal : ∀ timed ∈ stream, timed.message.IsLegal)
    (hsorted : stream.Pairwise fun a b => a.tick ≤ b.tick)
    (htop : ∀ channel first rest, onChannel stream channel = first :: rest → first.tick = 0) :
    (∀ events ∈ tracks stream tempo, ∀ e ∈ events, e.delta < 0x10000000)
      ↔ ∀ channel, (onChannel stream channel).IsChain Follows := by
  have htempo : ∀ e ∈ tempoTrack tempo, e.delta < 0x10000000 := by
    simp [tempoTrack]
  simp only [tracks, List.forall_mem_cons, List.forall_mem_map]
  constructor
  · rintro ⟨-, hused⟩ channel
    by_cases hchannel : channel ∈ channels stream
    · exact (channelTrack_lt_iff hsorted (htop channel)).mp (hused channel hchannel)
    · -- Nothing is on a channel without a track.
      have hnone : onChannel stream channel = [] := by
        refine List.filter_eq_nil_iff.mpr ?_
        intro timed htimed hsame
        exact hchannel ((mem_channels hlegal channel).mpr ⟨timed, htimed, of_decide_eq_true hsame⟩)
      rw [hnone]
      exact .nil
  · intro hchains
    refine ⟨htempo, ?_⟩
    intro channel _
    exact (channelTrack_lt_iff hsorted (htop channel)).mpr (hchains channel)

/-- **What an export cuts.** Export any score that compiles with settings that are not refused. Its
messages and its ticks of a quarter note always fit. The microseconds of a quarter note fit if and
only if the tempo is at least four beats a minute. The times between messages fit if and only if, on
each channel, every message follows the one before it by less than 28 bits of ticks. -/
theorem export_exact_iff {score : Score} {settings : Settings} {edition : Edition}
    (hcheck : settings.check = .ok ()) (hcompile : Edition.compile score settings = .ok edition)
    (r : Resolution) :
    (∀ timed ∈ edition.roll.exported r.quantum, timed.message.IsLegal)
      ∧ r.ticksPerQuarter < 0x8000
      ∧ (microsecondsPerQuarter edition.tempo < 0x1000000
        ↔ 4 ≤ score.song.tempo.getD settings.tempo)
      ∧ ((∀ events ∈ tracks (edition.roll.exported r.quantum) edition.tempo,
          ∀ e ∈ events, e.delta < 0x10000000)
        ↔ ∀ channel, (onChannel (edition.roll.exported r.quantum) channel).IsChain Follows) := by
  obtain ⟨arrangement, messages, harrangement, hmessages, hedition⟩ :=
    Edition.compile_eq_ok_iff.mp hcompile
  have hlegal : ∀ timed ∈ edition.roll.stream, timed.message.IsLegal := by
    rw [hedition]
    exact (Score.isLegal_of_compile hcheck harrangement).build
      (map_eq_ok_iff.mpr ⟨messages, hmessages, rfl⟩)
  rw [Roll.exported_eq_stream]
  refine ⟨hlegal, Nat.lt_succ_of_le r.le, ?_, ?_⟩
  · rw [microsecondsPerQuarter_lt_iff, Edition.tempo_of_compile hcompile]
  · exact tracks_lt_iff hlegal (Edition.pairwise_stream hcompile) fun _ _ _ hchannel =>
      Edition.tick_head_onChannel hcompile hchannel

theorem export_exact_oneBeat :
    ({} : Settings).check = .ok () ∧ Edition.compile (pads ["1>>>"]) {} = .ok oneBeat
      ∧ microsecondsPerQuarter oneBeat.tempo < 0x1000000
      ∧ ∀ events ∈ tracks (oneBeat.roll.exported Resolution.standard.quantum) oneBeat.tempo,
        ∀ e ∈ events, e.delta < 0x10000000 := by
  have hcheck : ({} : Settings).check = .ok () := rfl
  obtain ⟨-, -, htempo, htimes⟩ := export_exact_iff hcheck compile_oneBeat .standard
  refine ⟨hcheck, compile_oneBeat, htempo.mpr (by decide), htimes.mpr ?_⟩
  intro channel
  rw [Roll.exported_eq_stream]
  refine List.Pairwise.isChain ?_
  refine List.Pairwise.filter _ ?_
  unfold Follows
  decide

/-- A song of three beats a minute. -/
def slow : Score :=
  { pads ["1>>>"] with song := { (pads ["1>>>"]).song with tempo := some 3 } }

theorem compile_slow : Edition.compile slow {} = .ok { oneBeat with tempo := 3 } := by
  refine Edition.compile_of_messages
    [⟨0, .program 0 0⟩, ⟨0, .noteOn 0 60 127⟩, ⟨480, .noteOff 0 60⟩] ?_ (by decide +kernel)
  simp [oneBeat, Roll.ofMessages, Roll.inTime, Roll.ranked, List.mergeSort, Roll.group,
    Message.rank]

/-- **A slow tempo is cut.** The song loads, its quarter notes of twenty seconds do not fit, and the
file says 3.2 seconds instead. -/
theorem slow_tempo_cut :
    ({} : Settings).check = .ok () ∧ Edition.compile slow {} = .ok { oneBeat with tempo := 3 }
      ∧ ¬ microsecondsPerQuarter 3 < 0x1000000
      ∧ tempoTrack 3 = [⟨0, .tempo 3222784⟩, ⟨0, .endOfTrack⟩] :=
  ⟨rfl, compile_slow, by decide, rfl⟩

end MidiFile

end ChordGrid
