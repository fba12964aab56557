import ChordGrid.MidiFile.Encode
import ChordGrid.Proofs.MidiFile.Events

namespace ChordGrid.MidiFile

/-! ### Tracks -/

/-- The events of a track at their own ticks, from the tick `now` on. -/
def placed (now : Nat) : List TrackEvent → List ReadEvent
  | [] => []
  | e :: rest => ⟨now + e.delta, .ofEvent e.event⟩ :: placed (now + e.delta) rest

theorem eventsBytes_cons {e : TrackEvent} (h : e.delta < 0x10000000) (running : Option UInt8)
    (rest : List TrackEvent) :
    eventsBytes running (e :: rest) = quantity e.delta ++
      ((eventBytes running e.event).1 ++ eventsBytes (eventBytes running e.event).2 rest) := by
  rw [eventsBytes, Nat.mod_eq_of_lt h]
  exact List.append_assoc _ _ _

theorem length_eventsBytes_lt {e : TrackEvent} (h : e.delta < 0x10000000) (running : Option UInt8)
    (rest : List TrackEvent) :
    (eventsBytes (eventBytes running e.event).2 rest).length <
      (eventsBytes running (e :: rest)).length := by
  rw [eventsBytes_cons h, quantity]
  simp only [List.length_append, List.length_singleton]
  omega

section Reading

variable {running next : Option UInt8} {now delta : Nat} {event : Reading}
variable {bytes after rest : List UInt8}

theorem readEvents_step (hdelta : readQuantity? 0 longestQuantity bytes = some (delta, after))
    (hevent : readEvent? running after = some ((event, next), rest)) (hend : event ≠ .endOfTrack)
    (hlength : rest.length < bytes.length) :
    readEvents? running now bytes =
      (readEvents? next (now + delta) rest).map (⟨now + delta, event⟩ :: ·) := by
  rw [readEvents?, hdelta, Option.bind_eq_bind, Option.bind_some]
  simp only [hevent, Option.bind_eq_bind, Option.bind_some, if_neg hend, if_pos hlength]

theorem readEvents_end (hdelta : readQuantity? 0 longestQuantity bytes = some (delta, after))
    (hevent : readEvent? running after = some ((.endOfTrack, next), [])) :
    readEvents? running now bytes = some [⟨now + delta, .endOfTrack⟩] := by
  rw [readEvents?, hdelta, Option.bind_eq_bind, Option.bind_some]
  simp only [hevent, Option.bind_eq_bind, Option.bind_some, if_pos]

end Reading

theorem readEvents_cons {e : TrackEvent} (h : e.event.IsWritable) (hdelta : e.delta < 0x10000000)
    (hend : e.event ≠ .endOfTrack) (running : Option UInt8) (now : Nat) (rest : List TrackEvent) :
    readEvents? running now (eventsBytes running (e :: rest)) =
      (readEvents? (eventBytes running e.event).2 (now + e.delta)
        (eventsBytes (eventBytes running e.event).2 rest)).map
          (⟨now + e.delta, .ofEvent e.event⟩ :: ·) := by
  have hread : Reading.ofEvent e.event ≠ .endOfTrack := by
    cases hevent : e.event with
    | endOfTrack => exact absurd hevent hend
    | _ => simp [Reading.ofEvent]
  apply readEvents_step
  · rw [eventsBytes_cons hdelta]
    exact readQuantity_quantity hdelta _
  · exact readEvent_eventBytes h running _
  · exact hread
  · exact length_eventsBytes_lt hdelta running rest

/-- A track that its end mark ends, and that a file has room for. -/
def IsTrack (events : List TrackEvent) : Prop :=
  ∃ body, events = body ++ [⟨0, .endOfTrack⟩] ∧
    ∀ e ∈ body, e.event.IsWritable ∧ e.delta < 0x10000000 ∧ e.event ≠ .endOfTrack

theorem IsTrack.readEvents {events : List TrackEvent} (h : IsTrack events)
    (running : Option UInt8) (now : Nat) :
    readEvents? running now (eventsBytes running events) = some (placed now events) := by
  obtain ⟨body, rfl, hbody⟩ := h
  -- The status and the tick go on from event to event, so both are general.
  induction body generalizing running now with
  | nil =>
    have hbytes := eventsBytes_cons (e := ⟨0, .endOfTrack⟩) (by decide) running []
    rw [List.nil_append, hbytes]
    apply readEvents_end
    · exact readQuantity_quantity (by decide) _
    · exact readEvent_eventBytes (show Event.IsWritable .endOfTrack from trivial) running []
  | cons e rest ih =>
    obtain ⟨hwritable, hdelta, hend⟩ := hbody e List.mem_cons_self
    rw [List.cons_append, readEvents_cons hwritable hdelta hend,
      ih _ _ fun e he => hbody e (List.mem_cons_of_mem _ he)]
    rfl

theorem readChunk_chunk (letters : String) (hletters : letters.toUTF8.toList.length = 4)
    {bytes : List UInt8} (h : bytes.length < 0x100000000) (rest : List UInt8) :
    readChunk? letters.toUTF8.toList (chunk letters bytes ++ rest) = some (bytes, rest) := by
  have hnumber : number (fixed 4 bytes.length) = bytes.length := number_fixed h
  rw [readChunk?, chunk, List.append_assoc, List.append_assoc, take_append hletters,
    Option.bind_eq_bind, Option.bind_some]
  simp only [take_append (length_fixed 4 bytes.length), Option.bind_some, if_pos, hnumber,
    take_append]

theorem letters_track : "MTrk".toUTF8.toList = trackLetters := by decide +kernel

theorem letters_header : "MThd".toUTF8.toList = headerLetters := by decide +kernel

theorem readTracks_flatMap {written : List (List TrackEvent)}
    (h : ∀ events ∈ written, IsTrack events)
    (hshort : ∀ events ∈ written, (eventsBytes none events).length < 0x100000000)
    (rest : List UInt8) :
    readTracks? written.length (written.flatMap trackBytes ++ rest) =
      some (written.map (placed 0), rest) := by
  induction written with
  | nil => rfl
  | cons events written ih =>
    have hchunk := readChunk_chunk "MTrk" (by rw [letters_track]; rfl)
      (hshort events List.mem_cons_self) (written.flatMap trackBytes ++ rest)
    rw [letters_track] at hchunk
    have hrest := ih (fun events he => h events (List.mem_cons_of_mem _ he))
      fun events he => hshort events (List.mem_cons_of_mem _ he)
    rw [List.flatMap_cons, List.length_cons, List.append_assoc, readTracks?, trackBytes, hchunk]
    simp only [Option.bind_eq_bind, Option.bind_some, (h events List.mem_cons_self).readEvents,
      hrest, List.map_cons]
    rfl

/-! ### Messages at the running maximum of their ticks -/

/-- The highest of `low` and the ticks of some messages. -/
def highest (low : Nat) (stream : List Timed) : Nat :=
  stream.foldl (fun low timed => max low timed.tick) low

/-- Messages with each tick raised to the highest one so far, `low` at first. -/
def atHighest (low : Nat) : List Timed → List Timed
  | [] => []
  | timed :: rest =>
    ⟨max low timed.tick, timed.message⟩ :: atHighest (max low timed.tick) rest

def ReadEvent.ofTimed (timed : Timed) : ReadEvent :=
  ⟨timed.tick, .ofEvent (.message timed.message)⟩

theorem atHighest_of_pairwise {low : Nat} {stream : List Timed}
    (h : stream.Pairwise fun a b => a.tick ≤ b.tick) (hlow : ∀ timed ∈ stream, low ≤ timed.tick) :
    atHighest low stream = stream := by
  induction stream generalizing low with
  | nil => rfl
  | cons timed rest ih =>
    obtain ⟨hfirst, hrest⟩ := List.pairwise_cons.mp h
    have htick : max low timed.tick = timed.tick :=
      Nat.max_eq_right (hlow timed List.mem_cons_self)
    rw [atHighest, htick, ih hrest hfirst]

theorem placed_deltas (low : Nat) (stream : List Timed) (tail : List TrackEvent) :
    placed low (deltas low stream ++ tail) =
      (atHighest low stream).map .ofTimed ++ placed (highest low stream) tail := by
  induction stream generalizing low with
  | nil => rfl
  | cons timed rest ih =>
    have htick : low + (timed.tick - low) = max low timed.tick := by omega
    rw [deltas, List.cons_append, placed, htick, ih]
    rfl

theorem exists_of_mem_deltas {low : Nat} {stream : List Timed} {e : TrackEvent}
    (h : e ∈ deltas low stream) :
    ∃ before timed after, stream = before ++ timed :: after ∧
      e = ⟨timed.tick - highest low before, .message timed.message⟩ := by
  induction stream generalizing low with
  | nil => exact absurd h List.not_mem_nil
  | cons timed rest ih =>
    rcases List.mem_cons.mp h with rfl | h
    · exact ⟨[], timed, rest, rfl, rfl⟩
    · obtain ⟨before, later, after, rfl, rfl⟩ := ih h
      exact ⟨timed :: before, later, after, rfl, rfl⟩

/-! ### Files -/

/-- What a stream and a tempo must keep to for a file to hold them: messages of the standard, less
than 28 bits of ticks past the highest one before on the same channel, tracks of less than four
gibibytes, and a quarter note of less than 24 bits of microseconds. -/
structure Fits (stream : List Timed) (tempo : Nat) : Prop where
  legal : ∀ timed ∈ stream, timed.message.IsLegal
  near : ∀ channel before timed after,
    (stream.filter fun timed => timed.message.channel = channel) = before ++ timed :: after →
      timed.tick < highest 0 before + 0x10000000
  short : ∀ events ∈ tracks stream tempo, (eventsBytes none events).length < 0x100000000
  slow : 60000000 / max tempo 1 < 0x1000000

/-- The track of the tempo as it is read. -/
def readTempoTrack (tempo : Nat) : List ReadEvent :=
  [⟨0, .tempo (60000000 / max tempo 1)⟩, ⟨0, .endOfTrack⟩]

/-- The track of a channel as it is read: its name, the messages on it, and its end with the last of
them. -/
def readChannelTrack (channel : Nat) (messages : List Timed) : List ReadEvent :=
  ⟨0, .trackName (channelName channel).toUTF8.toList⟩ :: (atHighest 0 messages).map .ofTimed ++
    [⟨highest 0 messages, .endOfTrack⟩]

theorem mem_channels {stream : List Timed} (h : ∀ timed ∈ stream, timed.message.IsLegal)
    (channel : Nat) :
    channel ∈ channels stream ↔ ∃ timed ∈ stream, timed.message.channel = channel := by
  simp only [channels, List.mem_filter, List.mem_range, List.any_eq_true, decide_eq_true_eq]
  constructor
  · exact And.right
  · rintro ⟨timed, htimed, rfl⟩
    exact ⟨(h timed htimed).channel_lt, timed, htimed, rfl⟩

theorem channels_increasing (stream : List Timed) : (channels stream).Pairwise (· < ·) :=
  List.pairwise_lt_range.filter _

theorem utf8ByteSize_channelName :
    ∀ channel < channelCount, (channelName channel).utf8ByteSize < 0x10000000 := by
  decide +kernel

theorem isTrack_tempoTrack (tempo : Nat) : IsTrack (tempoTrack tempo) := by
  refine ⟨[⟨0, .tempo (microsecondsPerQuarter tempo % 0x1000000)⟩], rfl, ?_⟩
  intro e he
  rw [List.mem_singleton.mp he]
  exact ⟨Nat.mod_lt _ (by decide), show 0 < 0x10000000 by decide, by simp⟩

theorem placed_tempoTrack {tempo : Nat} (h : 60000000 / max tempo 1 < 0x1000000) :
    placed 0 (tempoTrack tempo) = readTempoTrack tempo := by
  rw [tempoTrack, microsecondsPerQuarter, Nat.mod_eq_of_lt h]
  rfl

theorem placed_channelTrack (stream : List Timed) (channel : Nat) :
    placed 0 (channelTrack stream channel) =
      readChannelTrack channel (onChannel stream channel) := by
  have hdeltas := placed_deltas 0 (onChannel stream channel) [⟨0, .endOfTrack⟩]
  rw [channelTrack, List.cons_append, placed, Nat.add_zero, hdeltas]
  rfl

namespace Fits

variable {stream : List Timed} {tempo : Nat}

theorem isTrack_channelTrack (h : Fits stream tempo) {channel : Nat}
    (hchannel : channel ∈ channels stream) : IsTrack (channelTrack stream channel) := by
  refine ⟨_, rfl, ?_⟩
  intro e he
  rcases List.mem_cons.mp he with rfl | he
  · have hlt : channel < channelCount := List.mem_range.mp (List.mem_filter.mp hchannel).1
    exact ⟨utf8ByteSize_channelName channel hlt, show 0 < 0x10000000 by decide, by simp⟩
  · obtain ⟨before, timed, after, hsplit, rfl⟩ := exists_of_mem_deltas he
    have hmem : timed ∈ onChannel stream channel := by
      rw [hsplit]
      exact List.mem_append_right _ List.mem_cons_self
    have hnear := h.near channel before timed after hsplit
    refine ⟨h.legal timed (List.mem_filter.mp hmem).1, ?_, by simp⟩
    change timed.tick - highest 0 before < 0x10000000
    omega

theorem isTrack (h : Fits stream tempo) : ∀ events ∈ tracks stream tempo, IsTrack events := by
  intro events hevents
  rcases List.mem_cons.mp hevents with rfl | hevents
  · exact isTrack_tempoTrack tempo
  · obtain ⟨channel, hchannel, rfl⟩ := List.mem_map.mp hevents
    exact h.isTrack_channelTrack hchannel

end Fits

theorem placed_tracks {stream : List Timed} {tempo : Nat} (h : Fits stream tempo) :
    (tracks stream tempo).map (placed 0) =
      readTempoTrack tempo :: (channels stream).map fun channel =>
        readChannelTrack channel (onChannel stream channel) := by
  rw [tracks, List.map_cons, placed_tempoTrack h.slow, List.map_map]
  congr 1
  exact List.map_congr_left fun channel _ => placed_channelTrack stream channel

theorem length_tracks_le (stream : List Timed) (tempo : Nat) :
    (tracks stream tempo).length ≤ 17 := by
  have : (channels stream).length ≤ (List.range channelCount).length :=
    List.length_filter_le _ _
  rw [List.length_range, channelCount] at this
  rw [tracks, List.length_cons, List.length_map]
  omega

theorem readFile_header {written : List (List TrackEvent)} (hcount : written.length < 0x10000)
    (h : ∀ events ∈ written, IsTrack events)
    (hshort : ∀ events ∈ written, (eventsBytes none events).length < 0x100000000)
    (r : Resolution) (rest : List UInt8) :
    readFile? (header written.length r ++ (written.flatMap trackBytes ++ rest)) =
      some (⟨1, r.ticksPerQuarter, written.map (placed 0)⟩, rest) := by
  have hle := r.le
  have hformat : number (fixed 2 1) = 1 := number_fixed (by decide)
  have hlength : number (fixed 2 written.length) = written.length := number_fixed hcount
  have hdivision : number (fixed 2 r.ticksPerQuarter) = r.ticksPerQuarter :=
    number_fixed (show r.ticksPerQuarter < 0x10000 by omega)
  have hfine : r.ticksPerQuarter < 0x8000 := by omega
  have hbody : (fixed 2 1 ++ fixed 2 written.length ++ fixed 2 r.ticksPerQuarter).length <
      0x100000000 := by
    simp [length_fixed]
  have hchunk := readChunk_chunk "MThd" (by rw [letters_header]; rfl) hbody
    (written.flatMap trackBytes ++ rest)
  have hlast : take? 2 (fixed 2 r.ticksPerQuarter) = some (fixed 2 r.ticksPerQuarter, []) :=
    take_append (length_fixed 2 _) []
  rw [letters_header] at hchunk
  rw [readFile?, header, hchunk, Option.bind_eq_bind, Option.bind_some]
  simp only [List.append_assoc, take_append (length_fixed 2 _), hlast, Option.bind_eq_bind,
    Option.bind_some, hformat, hlength, hdivision, if_pos hfine, readTracks_flatMap h hshort]
  rfl

theorem encode_eq_some {stream : List Timed} (h : ∀ timed ∈ stream, timed.message.IsLegal)
    (tempo : Nat) (r : Resolution) :
    encode? stream tempo r = some (header (tracks stream tempo).length r ++
      (tracks stream tempo).flatMap trackBytes) := by
  have hall : (stream.all fun timed => timed.message.channel < channelCount) = true :=
    List.all_eq_true.mpr fun timed htimed => decide_eq_true (h timed htimed).channel_lt
  rw [encode?, if_pos hall]

/-- A stream that fits is written, and its file is read to the last byte: the ticks of a quarter
note, the tempo, and a track for each channel in use, in their order. A track holds the messages on
its channel at the running maximum of their ticks, which is their own tick in an ordered stream. -/
theorem file_reads_back {stream : List Timed} {tempo : Nat} (h : Fits stream tempo)
    (r : Resolution) :
    ∃ (bytes : List UInt8) (used : List Nat), encode? stream tempo r = some bytes ∧
      used.Pairwise (· < ·) ∧
      (∀ channel, channel ∈ used ↔ ∃ timed ∈ stream, timed.message.channel = channel) ∧
      readFile? bytes = some (⟨1, r.ticksPerQuarter, readTempoTrack tempo ::
        used.map fun channel => readChannelTrack channel
          (stream.filter fun timed => timed.message.channel = channel)⟩, []) ∧
      ((stream.Pairwise fun a b => a.tick ≤ b.tick) → ∀ channel,
        atHighest 0 (stream.filter fun timed => timed.message.channel = channel) =
          stream.filter fun timed => timed.message.channel = channel) := by
  have hcount := length_tracks_le stream tempo
  have hread := readFile_header (by omega) h.isTrack h.short r []
  rw [List.append_nil, placed_tracks h] at hread
  refine ⟨_, channels stream, encode_eq_some h.legal tempo r, channels_increasing stream,
    mem_channels h.legal, hread, ?_⟩
  intro hordered channel
  exact atHighest_of_pairwise (hordered.filter _) fun timed _ => Nat.zero_le timed.tick

/-- Two channels, where a release comes late and a controller later still. -/
def lateStream : List Timed :=
  [⟨0, .program 0 5⟩, ⟨480, .noteOn 0 60 100⟩, ⟨240, .noteOn 9 35 90⟩, ⟨960, .noteOff 9 35⟩,
    ⟨240, .noteOff 0 60⟩, ⟨100, .control 0 7 64⟩]

theorem file_reads_back_late :
    Fits lateStream 120 ∧ ∃ (bytes : List UInt8) (used : List Nat),
      encode? lateStream 120 .standard = some bytes ∧
      used.Pairwise (· < ·) ∧
      (∀ channel, channel ∈ used ↔ ∃ timed ∈ lateStream, timed.message.channel = channel) ∧
      readFile? bytes = some (⟨1, 480, readTempoTrack 120 ::
        used.map fun channel => readChannelTrack channel
          (lateStream.filter fun timed => timed.message.channel = channel)⟩, []) := by
  have hticks : ∀ timed ∈ lateStream, timed.tick ≤ 960 := by decide
  have hfits : Fits lateStream 120 := by
    refine ⟨by decide, ?_, ?_, by decide⟩
    · intro channel before timed after hsplit
      have hmem : timed ∈ lateStream.filter fun timed => timed.message.channel = channel := by
        rw [hsplit]
        exact List.mem_append_right _ List.mem_cons_self
      have := hticks timed (List.mem_filter.mp hmem).1
      omega
    · decide +kernel
  obtain ⟨bytes, used, hencode, hused, hmem, hread, -⟩ := file_reads_back hfits .standard
  exact ⟨hfits, bytes, used, hencode, hused, hmem, hread⟩

end ChordGrid.MidiFile
