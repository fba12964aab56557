import ChordGrid.Playhead
import ChordGrid.Proofs.Roll.Reading

/-!
# Playing to the end

A playhead that starts at some tick and goes on while nobody edits the score comes to the end of the
edition. What it has sent by then is what an export holds: the setup from before the start, at the
tick of the start, and then everything from the start on.

A quantum sends the window between two positions of the cursor, and windows that meet are cut from
one stream, so a run of quanta sends all that comes from its first position on. The number of quanta
that are left falls by one at each of them, as long as the cursor does not run against the last tick
that a position can name.
-/

namespace ChordGrid

open Live

namespace Playhead

/-- What is sent by a start at a tick and the quanta after it until the edition has ended, at most
so many, and the playhead after them. -/
def playFrom (playhead : Playhead) (valid : Publication) (tick bound : Nat) :
    List Timed × Playhead :=
  let (setup, started) := playhead.start valid tick
  let (deliveries, last) := started.run valid bound
  (setup ++ deliveries.flatMap Delivery.sent, last)

/-- The quanta from the cursor up to the one with the final tick. -/
def quantaLeft (playhead : Playhead) (valid : Publication) : Nat :=
  match valid.edition.roll.finalTick? with
  | some last =>
    (last + playhead.resolution.quantum - playhead.position) / playhead.resolution.quantum
  | none => 0

variable {playhead : Playhead} {valid : Publication}

theorem hasEnded_iff_quantaLeft_eq_zero :
    playhead.hasEnded valid = true ↔ playhead.quantaLeft valid = 0 := by
  have hquantum := playhead.resolution.quantum_pos
  unfold hasEnded quantaLeft
  cases valid.edition.roll.finalTick? with
  | none => exact iff_of_true rfl rfl
  | some last =>
      simp only [decide_eq_true_eq, Nat.div_eq_zero_iff]
      omega

theorem onward_eq_nil_of_hasEnded (hroll : valid.edition.roll.IsOrdered)
    (hended : playhead.hasEnded valid = true) :
    valid.edition.roll.onward playhead.position = [] := by
  rw [List.eq_nil_iff_forall_not_mem]
  intro timed htimed
  obtain ⟨hstream, hposition⟩ := Roll.mem_onward.mp htimed
  obtain ⟨last, hlast, hle⟩ := Roll.exists_finalTick_of_mem hroll hstream
  rw [hasEnded, hlast, decide_eq_true_eq] at hended
  omega

/-! ### One quantum -/

section Quantum

variable (hplaying : playhead.playing = true) (hseen : playhead.seen = some valid.serial)
  (hroom : ∀ last, valid.edition.roll.finalTick? = some last →
    last + playhead.resolution.quantum ≤ lastTick)
  (hgoing : ¬ playhead.hasEnded valid = true)

include hplaying hroom hgoing in
theorem position_advance :
    (playhead.advance valid).2.position = playhead.position + playhead.resolution.quantum := by
  have hnext : playhead.nextPosition = playhead.position + playhead.resolution.quantum := by
    unfold hasEnded at hgoing
    cases hlast : valid.edition.roll.finalTick? with
    | none => simp [hlast] at hgoing
    | some last =>
        have := hroom last hlast
        simp only [hlast, decide_eq_true_eq] at hgoing
        unfold nextPosition
        omega
  rw [advance, if_pos hplaying]
  exact hnext

include hplaying hseen in
theorem sent_advance :
    (playhead.advance valid).1.sent
      = valid.edition.roll.window playhead.position (playhead.advance valid).2.position := by
  simp [advance, hplaying, Delivery.sent, orphans, hseen]

include hplaying hroom hgoing in
theorem quantaLeft_advance :
    (playhead.advance valid).2.quantaLeft valid + 1 = playhead.quantaLeft valid := by
  have hquantum := playhead.resolution.quantum_pos
  have hposition := position_advance hplaying hroom hgoing
  have hresolution : (playhead.advance valid).2.resolution = playhead.resolution := by
    rw [advance, if_pos hplaying]
  unfold hasEnded at hgoing
  unfold quantaLeft
  cases hlast : valid.edition.roll.finalTick? with
  | none => simp [hlast] at hgoing
  | some last =>
      simp only [hlast, decide_eq_true_eq] at hgoing
      have hnow : last + playhead.resolution.quantum - playhead.position
          = last - playhead.position + playhead.resolution.quantum := by
        omega
      simp only [hposition, hresolution, Nat.add_sub_add_right, hnow]
      rw [Nat.add_div_right _ hquantum]

end Quantum

/-! ### Quanta until the end -/

/-- **A run to the end** plays the quanta that are left and sends all that comes from the cursor
on. -/
theorem run_to_end (playhead : Playhead) (hroll : valid.edition.roll.IsOrdered) {bound : Nat}
    (hplaying : playhead.playing = true) (hseen : playhead.seen = some valid.serial)
    (hroom : ∀ last, valid.edition.roll.finalTick? = some last →
      last + playhead.resolution.quantum ≤ lastTick)
    (hbound : playhead.quantaLeft valid ≤ bound) :
    (playhead.run valid bound).1.length = playhead.quantaLeft valid
      ∧ (playhead.run valid bound).2.hasEnded valid = true
      ∧ (playhead.run valid bound).1.flatMap Delivery.sent
        = valid.edition.roll.onward playhead.position := by
  induction bound generalizing playhead with
  | zero =>
      have hzero := Nat.le_zero.mp hbound
      have hended := hasEnded_iff_quantaLeft_eq_zero.mpr hzero
      exact ⟨hzero.symm, hended, (onward_eq_nil_of_hasEnded hroll hended).symm⟩
  | succ bound ih =>
      by_cases hended : playhead.hasEnded valid = true
      · have hrun : playhead.run valid (bound + 1) = ([], playhead) := by
          rw [run, hended, Bool.true_or, if_pos rfl]
        rw [hrun, hasEnded_iff_quantaLeft_eq_zero.mp hended, onward_eq_nil_of_hasEnded hroll hended]
        exact ⟨rfl, hended, rfl⟩
      · have hafter : (playhead.advance valid).2.playing = true
            ∧ (playhead.advance valid).2.seen = some valid.serial
            ∧ (playhead.advance valid).2.resolution = playhead.resolution := by
          rw [advance, if_pos hplaying]
          exact ⟨hplaying, rfl, rfl⟩
        have hleft := quantaLeft_advance hplaying hroom hended
        have hposition := position_advance hplaying hroom hended
        obtain ⟨hlength, hlast, hsent⟩ := ih (playhead.advance valid).2 hafter.1 hafter.2.1
          (by rw [hafter.2.2]; exact hroom) (by omega)
        have hrun : playhead.run valid (bound + 1)
            = ((playhead.advance valid).1 :: ((playhead.advance valid).2.run valid bound).1,
              ((playhead.advance valid).2.run valid bound).2) := by
          rw [run, hplaying, if_neg (by simpa using hended)]
        rw [hrun]
        refine ⟨?_, hlast, ?_⟩
        · rw [List.length_cons, hlength, hleft]
        · have hle : playhead.position ≤ (playhead.advance valid).2.position := by omega
          rw [List.flatMap_cons, hsent, sent_advance hplaying hseen,
            Roll.window_append_onward hroll hle]

/-! ### Playback and export -/

/-- The setup before a tick, sent at that tick. -/
def caughtUp (stream : List Timed) (tick : Nat) : List Timed :=
  (stream.filter fun timed => timed.message.isSetup && timed.tick < tick).map fun timed =>
    ⟨tick, timed.message⟩

def setupOf (messages : List Timed) : List Message :=
  (messages.filter fun timed => timed.message.isSetup).map Timed.message

theorem setupOf_append (messages more : List Timed) :
    setupOf (messages ++ more) = setupOf messages ++ setupOf more := by
  rw [setupOf, List.filter_append, List.map_append]
  rfl

theorem setupOf_caughtUp (stream : List Timed) (tick : Nat) :
    setupOf (caughtUp stream tick)
      = ((stream.filter fun timed => timed.message.isSetup).filter fun timed =>
          timed.tick < tick).map Timed.message := by
  rw [setupOf, caughtUp, List.filter_map, List.map_map, List.filter_filter, List.filter_filter]
  congr 1
  refine List.filter_congr ?_
  intro timed _
  simp [Bool.and_comm]

theorem sent_start (playhead : Playhead) (valid : Publication) (tick : Nat) :
    (playhead.start valid tick).1
      = caughtUp valid.edition.roll.stream (tick - tick % playhead.resolution.quantum) := by
  rw [start, Roll.setupUpTo_eq_map_filter, List.map_map]
  rfl

/-- What is caught up with and what comes from the tick on set the channels up as the whole stream
does. -/
theorem setupOf_caughtUp_append {stream : List Timed}
    (hsorted : stream.Pairwise fun a b => a.tick ≤ b.tick) (tick : Nat) :
    setupOf (caughtUp stream tick ++ stream.filter fun timed => tick ≤ timed.tick)
      = setupOf stream := by
  have hfrom : setupOf (stream.filter fun timed => tick ≤ timed.tick)
      = ((stream.filter fun timed => timed.message.isSetup).filter fun timed =>
          tick ≤ timed.tick).map Timed.message := by
    rw [setupOf, List.filter_filter, List.filter_filter]
    congr 1
    refine List.filter_congr ?_
    intro timed _
    rw [Bool.and_comm]
  have hcut := filter_lt_append_filter_le Timed.tick
    (hsorted.filter fun timed => timed.message.isSetup) tick
  calc setupOf (caughtUp stream tick ++ stream.filter fun timed => tick ≤ timed.tick)
      = setupOf (caughtUp stream tick)
          ++ setupOf (stream.filter fun timed => tick ≤ timed.tick) := setupOf_append _ _
    _ = setupOf stream := by
        rw [setupOf_caughtUp, hfrom, ← List.map_append, hcut]
        rfl

/-- **Playback agrees with export.** Let a playhead at rest export an edition, and start it at any
tick while that edition stays valid. It plays some number of quanta until the edition has ended, and
has then sent the setup of the export from before the quantum of that tick, and all of the export
from there on. So it sets the channels up as the whole export does, and from tick zero it sends the
export itself. -/
theorem playback_agrees_with_export (playhead : Playhead) (valid : Publication)
    {messages : List Timed} (hroll : valid.edition.roll = Roll.ofMessages messages)
    (hroom : ∀ timed ∈ messages, timed.tick + playhead.resolution.quantum ≤ lastTick) :
    ∃ stream, { playhead with playing := false }.exported valid = .ok stream
      ∧ ∀ tick position, position = tick - tick % playhead.resolution.quantum →
        ∃ count, ∀ bound, count ≤ bound →
          ((playhead.start valid tick).2.run valid bound).1.length = count
            ∧ (playhead.playFrom valid tick bound).2.hasEnded valid = true
            ∧ (playhead.playFrom valid tick bound).1
              = caughtUp stream position ++ stream.filter (fun timed => position ≤ timed.tick)
            ∧ setupOf (playhead.playFrom valid tick bound).1 = setupOf stream
            ∧ (tick = 0 → (playhead.playFrom valid tick bound).1 = stream) := by
  have hordered : valid.edition.roll.IsOrdered := hroll ▸ Roll.isOrdered_ofMessages messages
  have hlast : ∀ last, valid.edition.roll.finalTick? = some last →
      last + playhead.resolution.quantum ≤ lastTick := by
    intro last hlast
    rw [hroll] at hlast
    obtain ⟨timed, htimed, rfl⟩ := Roll.exists_of_finalTick_ofMessages hlast
    exact hroom timed htimed
  refine ⟨valid.edition.roll.stream, ?_, ?_⟩
  · exact congrArg Except.ok (Roll.exported_eq_stream valid.edition.roll _)
  · rintro tick position rfl
    refine ⟨(playhead.start valid tick).2.quantaLeft valid, ?_⟩
    intro bound hbound
    obtain ⟨hlength, hended, hsent⟩ :=
      run_to_end (playhead.start valid tick).2 hordered rfl rfl hlast hbound
    have hplayed : (playhead.playFrom valid tick bound).1
        = caughtUp valid.edition.roll.stream (tick - tick % playhead.resolution.quantum)
          ++ valid.edition.roll.stream.filter
            (fun timed => tick - tick % playhead.resolution.quantum ≤ timed.tick) := by
      rw [← sent_start, ← Roll.onward_eq_filter]
      exact congrArg _ hsent
    refine ⟨hlength, hended, hplayed, ?_, ?_⟩
    · rw [hplayed]
      exact setupOf_caughtUp_append (Roll.pairwise_stream hordered) _
    · rintro rfl
      rw [hplayed]
      simp [caughtUp]

/-- A note in the first beat, on a program that is selected last. -/
def oneNote : List Timed :=
  [⟨0, .noteOn 0 60 127⟩, ⟨480, .noteOff 0 60⟩, ⟨0, .program 0 5⟩]

theorem playback_agrees_with_export_midway :
    ∃ count, ∀ bound, count ≤ bound →
      (playFrom ⟨.standard, 0, false, none, []⟩ ⟨0, ⟨Roll.ofMessages oneNote, 120, 1920⟩⟩ 100
          bound).1
        = [⟨90, .program 0 5⟩, ⟨480, .noteOff 0 60⟩] := by
  obtain ⟨stream, hexport, hplayed⟩ :=
    playback_agrees_with_export ⟨.standard, 0, false, none, []⟩
      ⟨0, ⟨Roll.ofMessages oneNote, 120, 1920⟩⟩ rfl (by decide)
  have hstream : stream = [⟨0, .program 0 5⟩, ⟨0, .noteOn 0 60 127⟩, ⟨480, .noteOff 0 60⟩] := by
    rw [← Except.ok.inj hexport, Roll.exported_eq_stream]
    simp [Roll.stream, Roll.stamped, Roll.ofMessages, Roll.inTime, Roll.ranked, Roll.group,
      List.mergeSort, oneNote, Message.rank, Slot.timed]
  obtain ⟨count, hcount⟩ := hplayed 100 90 rfl
  refine ⟨count, ?_⟩
  intro bound hbound
  obtain ⟨-, -, hsent, -, -⟩ := hcount bound hbound
  rw [hsent, hstream]
  rfl

end Playhead

end ChordGrid
