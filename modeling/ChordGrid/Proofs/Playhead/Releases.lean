import ChordGrid.Proofs.Build.Strikes
import ChordGrid.Proofs.Playhead.Sounding
import ChordGrid.Proofs.Roll.Order

/-!
# Releases to come

A playhead may leave keys sounding because the roll it plays releases each of them further on. One
quantum keeps this so: a key that it strikes is released at a later tick, and a key that it does not
touch is released where it was to be released before. So once the cursor has passed the roll,
nothing sounds.

The next message of a sounding key need not be its release: a key may be struck again while it
sounds. So what is kept is that a release is still to come, and not that it comes next.
-/

namespace ChordGrid

open Live

namespace Roll

/-- The slots are in order, and whatever is struck is released later. -/
structure IsPlayable (roll : Roll) : Prop where
  ordered : roll.IsOrdered
  releases : ReleasesLater roll.stream

/-- A roll releases each of some keys at a tick or after it. -/
def Ends (roll : Roll) (tick : Nat) (keys : List KeyOn) : Prop :=
  ∀ key ∈ keys, ∃ later, tick ≤ later ∧ ⟨later, .noteOff key.channel key.pitch⟩ ∈ roll.stream

theorem isPlayable_ofMessages {messages : List Timed} (hmessages : ReleasesLater messages) :
    (ofMessages messages).IsPlayable where
  ordered := isOrdered_ofMessages messages
  releases := by
    intro tick channel pitch velocity hattack
    obtain ⟨later, hlater, hrelease⟩ :=
      hmessages tick channel pitch velocity (mem_stream_ofMessages.mp hattack)
    exact ⟨later, hlater, mem_stream_ofMessages.mpr hrelease⟩

variable {roll : Roll} {keys : List KeyOn}

theorem tick_le_of_lastNote? {messages : List Timed}
    (hsorted : messages.Pairwise fun a b => a.tick ≤ b.tick) {channel pitch : Nat}
    {message : Message} (hlast : lastNote? messages channel pitch = some message) :
    ∃ tick, ⟨tick, message⟩ ∈ messages ∧ message.isNoteOf channel pitch = true
      ∧ ∀ timed ∈ messages, timed.message.isNoteOf channel pitch = true → timed.tick ≤ tick := by
  induction messages using List.reverseRecOn with
  | nil => cases hlast
  | append_singleton messages last ih =>
      obtain ⟨hbefore, -, hle⟩ := List.pairwise_append.mp hsorted
      rw [lastNote?_concat] at hlast
      split at hlast
      · next hnote =>
          cases hlast
          refine ⟨last.tick, List.mem_append_right _ (List.mem_singleton_self _), hnote, ?_⟩
          intro timed hmem _
          obtain hmem | hmem := List.mem_append.mp hmem
          · exact hle timed hmem last (List.mem_singleton_self _)
          · exact Nat.le_of_eq (congrArg Timed.tick (List.mem_singleton.mp hmem))
      · next hother =>
          obtain ⟨tick, hmem, hnote, hmost⟩ := ih hbefore hlast
          refine ⟨tick, List.mem_append_left _ hmem, hnote, ?_⟩
          intro timed htimed hisNote
          obtain htimed | htimed := List.mem_append.mp htimed
          · exact hmost timed htimed hisNote
          · rw [List.mem_singleton.mp htimed] at hisNote
            exact absurd hisNote hother

theorem not_isNoteOf_of_lastNote? {messages : List Timed} {channel pitch : Nat}
    (hlast : lastNote? messages channel pitch = none) {timed : Timed} (htimed : timed ∈ messages) :
    timed.message.isNoteOf channel pitch = false := by
  have hnone := List.find?_eq_none.mp hlast timed.message
    (List.mem_map_of_mem (List.mem_reverse.mpr htimed))
  exact Bool.eq_false_iff.mpr hnone

/-- **A window passes the releases on.** What sounds after a window is released from its end on. -/
theorem Ends.window (hroll : roll.IsPlayable) {start stop : Nat} (hkeys : roll.Ends start keys) :
    roll.Ends stop (KeyOn.afterAll keys (roll.window start stop)) := by
  intro key hkey
  have hrelease : (Message.noteOff key.channel key.pitch).isNoteOf key.channel key.pitch = true :=
    Message.isNoteOf_noteOff.mpr ⟨rfl, rfl⟩
  rw [KeyOn.mem_afterAll] at hkey
  cases hlast : lastNote? (roll.window start stop) key.channel key.pitch with
  | none =>
      -- The window does not touch the key, so its release is not in the window either.
      rw [hlast] at hkey
      obtain ⟨later, hlater, hmem⟩ := hkeys key hkey
      refine ⟨later, ?_, hmem⟩
      by_contra hstop
      have hwindow := mem_window.mpr ⟨hmem, hlater, Nat.lt_of_not_le hstop⟩
      rw [not_isNoteOf_of_lastNote? hlast hwindow] at hrelease
      cases hrelease
  | some message =>
      rw [hlast] at hkey
      obtain ⟨tick, hmem, hnote, hmost⟩ :=
        tick_le_of_lastNote? (pairwise_window hroll.ordered start stop) hlast
      obtain ⟨hstream, hstart, -⟩ := mem_window.mp hmem
      cases message with
      | noteOn channel pitch velocity =>
          obtain ⟨rfl, rfl⟩ := Message.isNoteOf_noteOn.mp hnote
          -- The window strikes the key last, and the release of this attack is later still.
          obtain ⟨later, hlater, hoff⟩ := hroll.releases tick _ _ velocity hstream
          refine ⟨later, ?_, hoff⟩
          by_contra hstop
          have hafter : start ≤ later := Nat.le_trans hstart (Nat.le_of_lt hlater)
          have hwindow := mem_window.mpr ⟨hoff, hafter, Nat.lt_of_not_le hstop⟩
          exact Nat.not_le_of_lt hlater (hmost _ hwindow hrelease)
      | noteOff channel pitch => cases hkey
      | control channel controller value => cases hkey
      | program channel number => cases hkey

theorem ends_of_isReleasedBy {tick : Nat}
    (hkeys : ∀ key ∈ keys, key.isReleasedBy roll tick = true) : roll.Ends tick keys := by
  intro key hkey
  have hreleased := hkeys key hkey
  unfold KeyOn.isReleasedBy at hreleased
  split at hreleased
  · next channel pitch hnext =>
      obtain ⟨rfl, rfl⟩ := Message.isNoteOf_noteOff.mp (List.find?_some hnext)
      exact mem_of_nextNote? hnext
  · cases hreleased

theorem Ends.eq_nil (hroll : roll.IsPlayable) {tick : Nat} (hkeys : roll.Ends tick keys)
    (hended : ∀ last, roll.finalTick? = some last → last < tick) : keys = [] := by
  rw [List.eq_nil_iff_forall_not_mem]
  intro key hkey
  obtain ⟨later, hlater, hmem⟩ := hkeys key hkey
  obtain ⟨last, hlast, hle⟩ := exists_finalTick_of_mem hroll.ordered hmem
  exact Nat.not_lt_of_le (Nat.le_trans hlater hle) (hended last hlast)

end Roll

theorem Edition.isPlayable_of_compile {score : Score} {settings : Settings} {edition : Edition}
    (hcompile : Edition.compile score settings = .ok edition) : edition.roll.IsPlayable := by
  obtain ⟨arrangement, -, hbuild⟩ := bind_eq_ok_iff.mp hcompile
  obtain ⟨roll, hroll, hedition⟩ := bind_eq_ok_iff.mp hbuild
  obtain ⟨messages, hmessages, rfl⟩ := map_eq_ok_iff.mp hroll
  cases hedition
  exact Roll.isPlayable_ofMessages (Arrangement.releasesLater_messages hmessages)

namespace Playhead

variable {playhead : Playhead} {valid : Publication}

/-- The keys that are left to the publication when it takes over. -/
theorem ends_kept (hkeys : playhead.seen = some valid.serial →
      valid.edition.roll.Ends playhead.position playhead.sounding)
    (hseen : playhead.seen = none → playhead.sounding = []) :
    valid.edition.roll.Ends playhead.position
      (playhead.sounding.filter (· ∉ playhead.orphans valid)) := by
  unfold orphans
  split
  · next hnone =>
      rw [hseen hnone]
      exact fun _ hkey => absurd hkey List.not_mem_nil
  · next serial hserial =>
      split
      · next hsame =>
          intro key hkey
          exact hkeys (hsame ▸ hserial) key (List.mem_filter.mp hkey).1
      · refine Roll.ends_of_isReleasedBy ?_
        intro key hkey
        obtain ⟨hsounding, hkept⟩ := List.mem_filter.mp hkey
        simpa [hsounding] using hkept

/-- After a quantum, the publication it was played from releases all that is left sounding. -/
theorem ends_advance (hplaying : playhead.playing = true)
    (hroll : valid.edition.roll.IsPlayable)
    (hkeys : playhead.seen = some valid.serial →
      valid.edition.roll.Ends playhead.position playhead.sounding)
    (hseen : playhead.seen = none → playhead.sounding = []) :
    valid.edition.roll.Ends (playhead.advance valid).2.position
      (playhead.advance valid).2.sounding := by
  rw [advance, if_pos hplaying]
  exact (ends_kept hkeys hseen).window hroll

theorem sounding_eq_nil_of_hasEnded (hroll : valid.edition.roll.IsPlayable)
    (hkeys : valid.edition.roll.Ends playhead.position playhead.sounding)
    (hended : playhead.hasEnded valid = true) : playhead.sounding = [] := by
  refine hkeys.eq_nil hroll ?_
  intro last hlast
  rw [hasEnded, hlast, decide_eq_true_eq] at hended
  exact hended

end Playhead

end ChordGrid
