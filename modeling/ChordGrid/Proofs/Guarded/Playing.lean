import ChordGrid.MidiFile.Encode
import ChordGrid.Playhead
import ChordGrid.Proofs.Guarded.Basic
import ChordGrid.Proofs.Roll.Export

namespace ChordGrid

open Live MidiFile

namespace Guarded

/-! ### Windows -/

def window (roll : Roll) (start stop : Nat) : Except Halt (List Timed) :=
  match roll.window? start stop with
  | some messages => .ok messages
  | none => .error (.slip (.window start stop))

def readOn (roll : Roll) (quantum last start : Nat) : Except Halt (List Timed) :=
  let stop := start + max quantum 1
  if stop ≤ lastTick ∧ stop ≤ last then do
    let first ← window roll start stop
    let more ← readOn roll quantum last stop
    return first ++ more
  else .ok (roll.onward start)
termination_by last - start

def readThrough (roll : Roll) (quantum : Nat) : Except Halt (List Timed) :=
  match roll.finalTick? with
  | none => .ok []
  | some last => readOn roll quantum last 0

theorem window_eq_ok (roll : Roll) {start stop : Nat} (hle : start ≤ stop) :
    window roll start stop = .ok (roll.window start stop) := by
  rw [window, roll.window?_of_le hle]

theorem readOn_eq (roll : Roll) (quantum last start : Nat) :
    readOn roll quantum last start = .ok (roll.readOn quantum last start) := by
  fun_induction Roll.readOn roll quantum last start with
  | case1 start stop hstop ih =>
      rw [readOn, if_pos hstop, window_eq_ok roll (Nat.le_add_right start _), ih]
      rfl
  | case2 start stop hstop => rw [readOn, if_neg hstop]

theorem readThrough_eq {roll : Roll} (hroll : roll.IsOrdered) (quantum : Nat) :
    readThrough roll quantum = .ok (roll.exported quantum) := by
  rw [Roll.exported_eq_stream, ← Roll.readThrough_eq_stream hroll quantum, readThrough,
    Roll.readThrough]
  cases roll.finalTick? with
  | none => rfl
  | some last => exact readOn_eq roll quantum last 0

/-! ### The playhead -/

def start (playhead : Playhead) (valid : Publication) (tick : Nat) :
    Except Halt (List Timed × Playhead) := do
  let quantum ← divisor playhead.resolution.quantum
  let position := tick - tick % quantum
  return ((valid.edition.roll.setupUpTo position).map (Timed.mk position),
    { playhead with position, playing := true, seen := some valid.serial, sounding := [] })

def advance (playhead : Playhead) (valid : Publication) : Except Halt (Delivery × Playhead) :=
  if playhead.playing then do
    let dispatched ← window valid.edition.roll playhead.position playhead.nextPosition
    let dropped := playhead.orphans valid
    let released := dropped.map fun key =>
      (⟨playhead.position, .noteOff key.channel key.pitch⟩ : Timed)
    let kept := playhead.sounding.filter (· ∉ dropped)
    return (⟨released, dispatched⟩,
      { playhead with
        position := playhead.nextPosition
        seen := some valid.serial
        sounding := (dispatched.map Timed.message).foldl KeyOn.after kept })
  else .ok (.nothing, playhead)

def exported (playhead : Playhead) (valid : Publication) : Except Halt (List Timed) :=
  if playhead.playing then .error (.fault .playing)
  else readThrough valid.edition.roll playhead.resolution.quantum

theorem start_eq (playhead : Playhead) (valid : Publication) (tick : Nat) :
    start playhead valid tick = .ok (playhead.start valid tick) := by
  rw [start, divisor_eq_ok playhead.resolution.quantum_pos]
  rfl

/-- A cursor that is a tick is never ahead of the next one. -/
theorem advance_eq {playhead : Playhead} (hposition : playhead.position ≤ lastTick)
    (valid : Publication) : advance playhead valid = .ok (playhead.advance valid) := by
  have hnext : playhead.position ≤ playhead.nextPosition :=
    Nat.le_min.mpr ⟨hposition, Nat.le_add_right _ _⟩
  rw [advance, Playhead.advance]
  split
  · rw [window_eq_ok _ hnext]
    rfl
  · rfl

theorem exported_eq {valid : Publication} (hroll : valid.edition.roll.IsOrdered)
    (playhead : Playhead) : exported playhead valid = sure (playhead.exported valid) := by
  rw [exported, Playhead.exported]
  split
  · rfl
  · exact readThrough_eq hroll playhead.resolution.quantum

/-! ### Files -/

def trackNames : List String :=
  (List.range channelCount).map channelName

def highestChannel (stream : List Timed) : Nat :=
  (stream.map fun timed => timed.message.channel).max?.getD 0

/-- The channels of a stream in order, whichever they are. -/
def channels (stream : List Timed) : List Nat :=
  (List.range (highestChannel stream + 1)).filter fun channel =>
    stream.any fun timed => timed.message.channel = channel

def channelTrack (stream : List Timed) (channel : Nat) : Except Halt (List TrackEvent) := do
  let name ← entry trackNames channel
  return ⟨0, .trackName name⟩ :: deltas 0 (onChannel stream channel) ++ [⟨0, .endOfTrack⟩]

def tempoTrack (tempo : Nat) : Except Halt (List TrackEvent) := do
  let tempo ← divisor (max tempo 1)
  return [⟨0, .tempo (60000000 / tempo % 0x1000000)⟩, ⟨0, .endOfTrack⟩]

def file (stream : List Timed) (tempo : Nat) (r : Resolution) : Except Halt (List UInt8) := do
  let first ← tempoTrack tempo
  let others ← (channels stream).mapM (channelTrack stream)
  let made := first :: others
  return header made.length r ++ made.flatMap trackBytes

theorem filter_range_of_le {p : Nat → Bool} {m n : Nat} (hle : m ≤ n)
    (hp : ∀ i, p i = true → i < m) : (List.range n).filter p = (List.range m).filter p := by
  induction hle with
  | refl => rfl
  | @step n hle ih =>
      have hlast : ¬p n = true := fun hn => Nat.not_lt_of_le hle (hp n hn)
      rw [List.range_succ, List.filter_append, ih, List.filter_cons_of_neg hlast,
        List.filter_nil, List.append_nil]

theorem filter_range_eq {p : Nat → Bool} {m n : Nat} (hm : ∀ i, p i = true → i < m)
    (hn : ∀ i, p i = true → i < n) : (List.range m).filter p = (List.range n).filter p := by
  obtain hle | hle := Nat.le_total m n
  · exact (filter_range_of_le hle hm).symm
  · exact filter_range_of_le hle hn

variable {stream : List Timed}

theorem channels_eq (hstream : ∀ timed ∈ stream, timed.message.channel < channelCount) :
    channels stream = MidiFile.channels stream := by
  have hused : ∀ channel, (stream.any fun timed => timed.message.channel = channel) = true →
      ∃ timed ∈ stream, timed.message.channel = channel := by
    intro channel hany
    simpa using hany
  apply filter_range_eq
  · intro channel hany
    obtain ⟨timed, htimed, rfl⟩ := hused channel hany
    exact Nat.lt_succ_of_le (List.le_max?_getD_of_mem (List.mem_map_of_mem htimed))
  · intro channel hany
    obtain ⟨timed, htimed, rfl⟩ := hused channel hany
    exact hstream timed htimed

theorem channelTrack_eq {channel : Nat} (hchannel : channel < channelCount) :
    channelTrack stream channel = .ok (MidiFile.channelTrack stream channel) := by
  have hname : trackNames[channel]? = some (channelName channel) := by
    rw [trackNames, List.getElem?_map, List.getElem?_range hchannel, Option.map_some]
  rw [channelTrack, entry_eq_ok hname]
  rfl

theorem tempoTrack_eq (tempo : Nat) : tempoTrack tempo = .ok (MidiFile.tempoTrack tempo) := by
  rw [tempoTrack, divisor_eq_ok (Nat.lt_of_lt_of_le Nat.zero_lt_one (Nat.le_max_right tempo 1))]
  rfl

theorem exists_file (hstream : ∀ timed ∈ stream, timed.message.channel < channelCount)
    (tempo : Nat) (r : Resolution) :
    ∃ bytes, encode? stream tempo r = some bytes ∧ file stream tempo r = .ok bytes := by
  have hall : (stream.all fun timed => timed.message.channel < channelCount) = true := by
    simpa using hstream
  have hothers : (MidiFile.channels stream).mapM (channelTrack stream)
      = .ok ((MidiFile.channels stream).map (MidiFile.channelTrack stream)) := by
    apply mapM_eq_ok_iff.mpr
    apply List.forall₂_map_right_iff.mpr
    apply List.forall₂_same.mpr
    intro channel hchannel
    exact channelTrack_eq (List.mem_range.mp (List.mem_of_mem_filter hchannel))
  refine ⟨_, if_pos hall, ?_⟩
  rw [file, tempoTrack_eq, channels_eq hstream, hothers]
  rfl

end Guarded

end ChordGrid
