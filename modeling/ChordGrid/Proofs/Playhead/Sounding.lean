import ChordGrid.Playhead
import Mathlib.Data.List.Induction
import Mathlib.Tactic.Tauto

namespace ChordGrid

open Live

namespace Message

def isAttack : Message → Bool
  | noteOn _ _ _ => true
  | _ => false

@[simp]
theorem isNoteOf_noteOn {c p velocity channel pitch : Nat} :
    (noteOn c p velocity).isNoteOf channel pitch = true ↔ c = channel ∧ p = pitch := by
  simp [isNoteOf]

@[simp]
theorem isNoteOf_noteOff {c p channel pitch : Nat} :
    (noteOff c p).isNoteOf channel pitch = true ↔ c = channel ∧ p = pitch := by
  simp [isNoteOf]

end Message

/-- The last of some messages that strikes or releases a key. -/
def lastNote? (messages : List Timed) (channel pitch : Nat) : Option Message :=
  (messages.reverse.map Timed.message).find? (Message.isNoteOf channel pitch)

theorem lastNote?_concat (messages : List Timed) (last : Timed) (channel pitch : Nat) :
    lastNote? (messages ++ [last]) channel pitch
      = if last.message.isNoteOf channel pitch then some last.message
        else lastNote? messages channel pitch := by
  rw [lastNote?, List.reverse_concat, List.map_cons, List.find?_cons]
  cases last.message.isNoteOf channel pitch <;> rfl

theorem lastNote?_append (messages more : List Timed) (channel pitch : Nat) :
    lastNote? (messages ++ more) channel pitch
      = (lastNote? more channel pitch).or (lastNote? messages channel pitch) := by
  rw [lastNote?, List.reverse_append, List.map_append, List.find?_append]
  rfl

theorem mem_of_lastNote? {messages : List Timed} {channel pitch : Nat} {message : Message}
    (hlast : lastNote? messages channel pitch = some message) :
    message.isNoteOf channel pitch = true ∧ ∃ tick, ⟨tick, message⟩ ∈ messages := by
  refine ⟨List.find?_some hlast, ?_⟩
  obtain ⟨timed, htimed, rfl⟩ := List.mem_map.mp (List.mem_of_find?_eq_some hlast)
  exact ⟨timed.tick, List.mem_reverse.mp htimed⟩

namespace KeyOn

/-- The keys that sound after some messages. -/
def afterAll (sounding : List KeyOn) (messages : List Timed) : List KeyOn :=
  (messages.map Timed.message).foldl after sounding

variable {key : KeyOn} {sounding : List KeyOn}

@[simp]
theorem mem_insert {new : KeyOn} {keys : List KeyOn} :
    key ∈ insert new keys ↔ key = new ∨ key ∈ keys := by
  induction keys with
  | nil => simp [insert]
  | cons other rest ih =>
      unfold insert
      split
      · next hsame =>
          rw [hsame, List.mem_cons]
          tauto
      · split
        · exact List.mem_cons
        · rw [List.mem_cons, ih, List.mem_cons]
          tauto

theorem mem_after {message : Message} :
    key ∈ after sounding message
      ↔ if message.isNoteOf key.channel key.pitch then message.isAttack = true
        else key ∈ sounding := by
  obtain ⟨channel, pitch⟩ := key
  cases message with
  | noteOn c p velocity =>
      by_cases hkey : c = channel ∧ p = pitch
      · simp [after, Message.isNoteOf, Message.isAttack, hkey.1, hkey.2]
      · have hne : ¬ (channel = c ∧ pitch = p) := fun h => hkey ⟨h.1.symm, h.2.symm⟩
        simp [after, Message.isNoteOf, hkey, hne]
  | noteOff c p =>
      by_cases hkey : c = channel ∧ p = pitch
      · simp [after, Message.isNoteOf, Message.isAttack, hkey.1, hkey.2]
      · have hne : ¬ (channel = c ∧ pitch = p) := fun h => hkey ⟨h.1.symm, h.2.symm⟩
        simp [after, Message.isNoteOf, hkey, hne]
  | control c controller value => simp [after, Message.isNoteOf]
  | program c number => simp [after, Message.isNoteOf]

theorem afterAll_append (sounding : List KeyOn) (messages more : List Timed) :
    afterAll sounding (messages ++ more) = afterAll (afterAll sounding messages) more := by
  rw [afterAll, List.map_append, List.foldl_append]
  rfl

/-- The last message that strikes or releases a key decides whether it sounds. -/
theorem mem_afterAll {messages : List Timed} :
    key ∈ afterAll sounding messages
      ↔ (lastNote? messages key.channel key.pitch).elim (key ∈ sounding)
          fun message => message.isAttack = true := by
  induction messages using List.reverseRecOn with
  | nil => rfl
  | append_singleton messages last ih =>
      rw [afterAll_append]
      change key ∈ after (afterAll sounding messages) last.message ↔ _
      rw [mem_after, ih, lastNote?_concat]
      cases last.message.isNoteOf key.channel key.pitch <;> rfl

theorem afterAll_releases (sounding keys : List KeyOn) (tick : Nat) :
    afterAll sounding (keys.map fun key => ⟨tick, .noteOff key.channel key.pitch⟩)
      = sounding.filter (· ∉ keys) := by
  induction keys generalizing sounding with
  | nil => exact (List.filter_eq_self.mpr fun _ _ => by simp).symm
  | cons first rest ih =>
      rw [List.map_cons, ← List.singleton_append, afterAll_append, ih]
      change (sounding.filter (· ≠ first)).filter _ = _
      rw [List.filter_filter]
      refine List.filter_congr ?_
      intro key _
      simp [Bool.and_comm]

theorem afterAll_setup {messages : List Timed}
    (hsetup : ∀ timed ∈ messages, timed.message.isSetup = true) :
    afterAll sounding messages = sounding := by
  induction messages using List.reverseRecOn with
  | nil => rfl
  | append_singleton messages last ih =>
      rw [afterAll_append, ih fun timed hmem => hsetup timed (List.mem_append_left _ hmem)]
      have hlast := hsetup last (List.mem_append_right _ (List.mem_singleton_self _))
      change after sounding last.message = sounding
      cases hmessage : last.message with
      | noteOn c p velocity => rw [hmessage] at hlast; cases hlast
      | noteOff c p => rw [hmessage] at hlast; cases hlast
      | _ => rfl

end KeyOn

namespace Playhead

variable (playhead : Playhead) (valid : Publication)

theorem setup_of_mem_start {tick : Nat} {timed : Timed}
    (htimed : timed ∈ (playhead.start valid tick).1) : timed.message.isSetup = true := by
  obtain ⟨message, hmessage, rfl⟩ := List.mem_map.mp htimed
  exact (List.mem_filter.mp hmessage).2

theorem sounding_start (tick : Nat) :
    (playhead.start valid tick).2.sounding
      = KeyOn.afterAll [] (playhead.start valid tick).1 :=
  (KeyOn.afterAll_setup fun _ htimed => setup_of_mem_start playhead valid htimed).symm

theorem sounding_advance :
    (playhead.advance valid).2.sounding
      = KeyOn.afterAll playhead.sounding (playhead.advance valid).1.sent := by
  unfold advance
  split
  · rw [Delivery.sent, KeyOn.afterAll_append, KeyOn.afterAll_releases]
    rfl
  · rfl

end Playhead

end ChordGrid
