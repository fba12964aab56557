import ChordGrid.Roll
import Mathlib.Data.List.Flatten

namespace ChordGrid.Roll

/-- The slots stand in the order of their ticks, and no two of them at one tick. -/
def IsOrdered (roll : Roll) : Prop :=
  roll.slots.Pairwise fun a b => a.tick < b.tick

/-! ### Building -/

@[simp]
theorem stamped_group (messages : List Timed) : stamped (group messages) = messages := by
  induction messages with
  | nil => rfl
  | cons timed rest ih =>
      unfold group
      split
      · next hnone =>
          rw [hnone] at ih
          rw [← ih]
          rfl
      · next slot more hsome =>
          rw [hsome] at ih
          split
          · next hsame =>
              rw [← ih]
              simp [stamped, Slot.timed, hsame]
          · rw [← ih]
            rfl

theorem tick_of_mem_group {messages : List Timed} {slot : Slot} (hslot : slot ∈ group messages) :
    ∃ timed ∈ messages, timed.tick = slot.tick := by
  induction messages generalizing slot with
  | nil => cases hslot
  | cons timed rest ih =>
      unfold group at hslot
      split at hslot
      · rw [List.mem_singleton.mp hslot]
        exact ⟨timed, List.mem_cons_self, rfl⟩
      · next first more hsome =>
          rw [hsome] at ih
          split at hslot
          · obtain rfl | hmore := List.mem_cons.mp hslot
            · exact ⟨timed, List.mem_cons_self, rfl⟩
            · obtain ⟨found, hfound, htick⟩ := ih (List.mem_cons_of_mem first hmore)
              exact ⟨found, List.mem_cons_of_mem timed hfound, htick⟩
          · obtain rfl | hmore := List.mem_cons.mp hslot
            · exact ⟨timed, List.mem_cons_self, rfl⟩
            · obtain ⟨found, hfound, htick⟩ := ih hmore
              exact ⟨found, List.mem_cons_of_mem timed hfound, htick⟩

theorem pairwise_group {messages : List Timed}
    (hsorted : messages.Pairwise fun a b => a.tick ≤ b.tick) :
    (group messages).Pairwise fun a b => a.tick < b.tick := by
  induction messages with
  | nil => exact List.Pairwise.nil
  | cons timed rest ih =>
      obtain ⟨hfirst, hrest⟩ := List.pairwise_cons.mp hsorted
      have hle : ∀ slot ∈ group rest, timed.tick ≤ slot.tick := by
        intro slot hslot
        obtain ⟨found, hfound, htick⟩ := tick_of_mem_group hslot
        rw [← htick]
        exact hfirst found hfound
      have hslots := ih hrest
      unfold group
      split
      · exact List.pairwise_singleton _ _
      · next first more hsome =>
          rw [hsome] at hle hslots
          obtain ⟨hbefore, hmore⟩ := List.pairwise_cons.mp hslots
          split
          · next hsame =>
              refine List.pairwise_cons.mpr ⟨?_, hmore⟩
              intro slot hslot
              rw [← hsame]
              exact hbefore slot hslot
          · next hother =>
              refine List.pairwise_cons.mpr ⟨?_, hslots⟩
              intro slot hslot
              have hlt : timed.tick < first.tick :=
                Nat.lt_of_le_of_ne (hle first List.mem_cons_self) (Ne.symm hother)
              obtain rfl | hmem := List.mem_cons.mp hslot
              · exact hlt
              · exact Nat.lt_trans hlt (hbefore slot hmem)

theorem pairwise_inTime (messages : List Timed) :
    (inTime messages).Pairwise fun a b => a.tick ≤ b.tick := by
  have hsorted : (inTime messages).Pairwise fun a b => decide (a.tick ≤ b.tick) = true := by
    refine List.pairwise_mergeSort ?_ ?_ messages
    · intro a b c hab hbc
      simp only [decide_eq_true_eq] at hab hbc ⊢
      exact Nat.le_trans hab hbc
    · intro a b
      simp only [Bool.or_eq_true, decide_eq_true_eq]
      exact Nat.le_total a.tick b.tick
  exact hsorted.imp of_decide_eq_true

theorem isOrdered_ofMessages (messages : List Timed) : (ofMessages messages).IsOrdered :=
  List.pairwise_map.mpr (pairwise_group (pairwise_inTime messages))

/-! ### Reading -/

variable {roll : Roll} {timed : Timed}

theorem mem_stamped {slots : List Slot} :
    timed ∈ stamped slots
      ↔ ∃ slot ∈ slots, slot.tick = timed.tick ∧ timed.message ∈ slot.messages := by
  simp only [stamped, Slot.timed, List.mem_flatMap, List.mem_map]
  constructor
  · rintro ⟨slot, hslot, message, hmessage, rfl⟩
    exact ⟨slot, hslot, rfl, hmessage⟩
  · rintro ⟨slot, hslot, htick, hmessage⟩
    exact ⟨slot, hslot, timed.message, hmessage, by rw [htick]⟩

theorem mem_stream_ofMessages {messages : List Timed} :
    timed ∈ (ofMessages messages).stream ↔ timed ∈ messages := by
  have hgroup : timed ∈ stamped (group (inTime messages)) ↔ timed ∈ messages := by
    rw [stamped_group, inTime, List.mem_mergeSort]
  rw [← hgroup, stream, ofMessages, mem_stamped, mem_stamped]
  simp only [List.mem_map, ranked]
  constructor
  · rintro ⟨_, ⟨slot, hslot, rfl⟩, htick, hmessage⟩
    exact ⟨slot, hslot, htick, List.mem_mergeSort.mp hmessage⟩
  · rintro ⟨slot, hslot, htick, hmessage⟩
    exact ⟨_, ⟨slot, hslot, rfl⟩, htick, List.mem_mergeSort.mpr hmessage⟩

theorem mem_window {start stop : Nat} :
    timed ∈ roll.window start stop
      ↔ timed ∈ roll.stream ∧ start ≤ timed.tick ∧ timed.tick < stop := by
  simp only [window, stream, mem_stamped, List.mem_filter, Bool.and_eq_true, decide_eq_true_eq]
  constructor
  · rintro ⟨slot, ⟨hslot, hstart, hstop⟩, htick, hmessage⟩
    exact ⟨⟨slot, hslot, htick, hmessage⟩, htick ▸ hstart, htick ▸ hstop⟩
  · rintro ⟨⟨slot, hslot, htick, hmessage⟩, hstart, hstop⟩
    exact ⟨slot, ⟨hslot, htick ▸ hstart, htick ▸ hstop⟩, htick, hmessage⟩

theorem mem_onward {start : Nat} :
    timed ∈ roll.onward start ↔ timed ∈ roll.stream ∧ start ≤ timed.tick := by
  simp only [onward, stream, mem_stamped, List.mem_filter, decide_eq_true_eq]
  constructor
  · rintro ⟨slot, ⟨hslot, hstart⟩, htick, hmessage⟩
    exact ⟨⟨slot, hslot, htick, hmessage⟩, htick ▸ hstart⟩
  · rintro ⟨⟨slot, hslot, htick, hmessage⟩, hstart⟩
    exact ⟨slot, ⟨hslot, htick ▸ hstart⟩, htick, hmessage⟩

theorem window_sublist (roll : Roll) (start stop : Nat) :
    (roll.window start stop).Sublist roll.stream :=
  List.filter_sublist.flatMap _

theorem pairwise_stamped {slots : List Slot}
    (hslots : slots.Pairwise fun a b => a.tick < b.tick) :
    (stamped slots).Pairwise fun a b => a.tick ≤ b.tick := by
  induction slots with
  | nil => exact List.Pairwise.nil
  | cons slot rest ih =>
      obtain ⟨hbefore, hrest⟩ := List.pairwise_cons.mp hslots
      refine List.pairwise_append.mpr ⟨?_, ih hrest, ?_⟩
      · exact List.pairwise_map.mpr (List.pairwise_of_forall fun _ _ => Nat.le_refl slot.tick)
      · intro a ha b hb
        obtain ⟨message, -, rfl⟩ := List.mem_map.mp ha
        obtain ⟨other, hother, htick, -⟩ := mem_stamped.mp hb
        rw [← htick]
        exact Nat.le_of_lt (hbefore other hother)

theorem pairwise_window (hroll : roll.IsOrdered) (start stop : Nat) :
    (roll.window start stop).Pairwise fun a b => a.tick ≤ b.tick :=
  (pairwise_stamped hroll).sublist (window_sublist roll start stop)

theorem exists_finalTick_of_mem (hroll : roll.IsOrdered) (htimed : timed ∈ roll.stream) :
    ∃ last, roll.finalTick? = some last ∧ timed.tick ≤ last := by
  obtain ⟨slot, hslot, htick, -⟩ := mem_stamped.mp htimed
  have hlast := List.getLast?_eq_some_getLast (List.ne_nil_of_mem hslot)
  refine ⟨_, by rw [finalTick?, hlast]; rfl, ?_⟩
  obtain ⟨front, hfront⟩ := List.getLast?_eq_some_iff.mp hlast
  rw [IsOrdered, hfront] at hroll
  rw [hfront] at hslot
  rw [← htick]
  obtain hbefore | hsame := List.mem_append.mp hslot
  · exact Nat.le_of_lt ((List.pairwise_append.mp hroll).2.2 slot hbefore _
      (List.mem_singleton_self _))
  · exact Nat.le_of_eq (congrArg Slot.tick (List.mem_singleton.mp hsame))

theorem mem_of_nextNote? {tick channel pitch : Nat} {message : Message}
    (hnext : roll.nextNote? tick channel pitch = some message) :
    ∃ later, tick ≤ later ∧ ⟨later, message⟩ ∈ roll.stream := by
  have hmem := List.mem_of_find?_eq_some hnext
  obtain ⟨found, hfound, rfl⟩ := List.mem_map.mp hmem
  obtain ⟨hstream, htick⟩ := mem_onward.mp hfound
  exact ⟨found.tick, htick, hstream⟩

end ChordGrid.Roll
