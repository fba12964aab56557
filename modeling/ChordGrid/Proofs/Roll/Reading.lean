import ChordGrid.Proofs.Roll.Order
import Mathlib.Data.List.Perm.Basic

namespace ChordGrid

theorem filter_lt_append_filter_le {α : Type} (key : α → Nat) {things : List α}
    (hsorted : things.Pairwise fun a b => key a ≤ key b) (k : Nat) :
    (things.filter fun thing => key thing < k) ++ things.filter (fun thing => k ≤ key thing)
      = things := by
  induction things with
  | nil => rfl
  | cons first rest ih =>
      obtain ⟨hfirst, hrest⟩ := List.pairwise_cons.mp hsorted
      by_cases hlt : key first < k
      · rw [List.filter_cons_of_pos (by simpa using hlt),
          List.filter_cons_of_neg (by simpa using hlt), List.cons_append, ih hrest]
      · have hge : ∀ thing ∈ first :: rest, k ≤ key thing := by
          intro thing hthing
          cases hthing with
          | head => exact Nat.le_of_not_lt hlt
          | tail _ hmem => exact Nat.le_trans (Nat.le_of_not_lt hlt) (hfirst thing hmem)
        have hnone : (first :: rest).filter (fun thing => key thing < k) = [] := by
          rw [List.filter_eq_nil_iff]
          intro thing hthing
          simpa using hge thing hthing
        have hall : (first :: rest).filter (fun thing => k ≤ key thing) = first :: rest := by
          rw [List.filter_eq_self]
          intro thing hthing
          simpa using hge thing hthing
        rw [hnone, hall, List.nil_append]

namespace Roll

theorem stamped_filter (slots : List Slot) (keep : Nat → Bool) :
    stamped (slots.filter fun slot => keep slot.tick)
      = (stamped slots).filter fun timed => keep timed.tick := by
  induction slots with
  | nil => rfl
  | cons slot rest ih =>
      have hslot : slot.timed.filter (fun timed => keep timed.tick)
          = if keep slot.tick then slot.timed else [] := by
        simp only [Slot.timed, List.filter_map, Function.comp_def]
        cases keep slot.tick
        · simp
        · simp [List.filter_true]
      rw [stamped, stamped, List.flatMap_cons, List.filter_append, hslot, List.filter_cons]
      rw [stamped, stamped] at ih
      by_cases hkeep : keep slot.tick = true
      · rw [if_pos hkeep, if_pos hkeep, List.flatMap_cons, ih]
      · rw [if_neg hkeep, if_neg hkeep, ih, List.nil_append]

theorem stamped_flatten (lists : List (List Slot)) :
    stamped lists.flatten = lists.flatMap stamped := by
  rw [stamped, List.flatten_eq_flatMap, List.flatMap_assoc]
  rfl

variable (roll : Roll)

theorem window_eq_filter (start stop : Nat) :
    roll.window start stop
      = roll.stream.filter fun timed => start ≤ timed.tick && timed.tick < stop :=
  stamped_filter roll.slots fun tick => start ≤ tick && tick < stop

theorem onward_eq_filter (start : Nat) :
    roll.onward start = roll.stream.filter fun timed => start ≤ timed.tick :=
  stamped_filter roll.slots fun tick => start ≤ tick

theorem setupUpTo_eq_map_filter (tick : Nat) :
    roll.setupUpTo tick
      = (roll.stream.filter fun timed => timed.message.isSetup && timed.tick < tick).map
          Timed.message := by
  rw [setupUpTo, stamped_filter roll.slots fun other => other < tick, List.filter_map,
    List.filter_filter]
  rfl

/-- **An export is the whole stream,** whatever its quantum. -/
theorem exported_eq_stream (quantum : Nat) : roll.exported quantum = roll.stream := by
  unfold exported finalTick?
  cases hlast : roll.slots.getLast? with
  | none =>
      rw [stream, List.getLast?_eq_none_iff.mp hlast]
      rfl
  | some last =>
      change (windows (max quantum 1) last.tick roll.slots).flatMap stamped = roll.stream
      rw [← stamped_flatten, flatten_windows]
      rfl

variable {roll}

theorem pairwise_stream (hroll : roll.IsOrdered) :
    roll.stream.Pairwise fun a b => a.tick ≤ b.tick :=
  pairwise_stamped hroll

theorem window_append_onward (hroll : roll.IsOrdered) {start stop : Nat} (hle : start ≤ stop) :
    roll.window start stop ++ roll.onward stop = roll.onward start := by
  have hsorted : (roll.onward start).Pairwise fun a b => a.tick ≤ b.tick := by
    rw [onward_eq_filter]
    exact (pairwise_stream hroll).filter _
  rw [← filter_lt_append_filter_le Timed.tick hsorted stop, onward_eq_filter, onward_eq_filter,
    window_eq_filter, List.filter_filter, List.filter_filter]
  congr 1
  · refine List.filter_congr ?_
    intro timed _
    rw [Bool.and_comm]
  · refine List.filter_congr ?_
    intro timed _
    by_cases hstop : stop ≤ timed.tick
    · simp [hstop, Nat.le_trans hle hstop]
    · simp [hstop]

theorem exists_of_finalTick_ofMessages {messages : List Timed} {last : Nat}
    (hlast : (ofMessages messages).finalTick? = some last) :
    ∃ timed ∈ messages, timed.tick = last := by
  obtain ⟨slot, hslot, rfl⟩ := Option.map_eq_some_iff.mp hlast
  obtain ⟨grouped, hgrouped, rfl⟩ := List.mem_map.mp (List.mem_of_getLast? hslot)
  obtain ⟨timed, htimed, htick⟩ := tick_of_mem_group hgrouped
  exact ⟨timed, List.mem_mergeSort.mp htimed, htick⟩

theorem perm_stream_ofMessages (messages : List Timed) :
    (ofMessages messages).stream.Perm messages := by
  have hranked : ∀ slots : List Slot,
      (stamped (slots.map fun slot => { slot with messages := ranked slot.messages })).Perm
        (stamped slots) := by
    intro slots
    rw [stamped, stamped, List.flatMap_map]
    refine List.Perm.flatMap_left _ ?_
    intro slot _
    exact (List.mergeSort_perm slot.messages _).map _
  refine (hranked (group (inTime messages))).trans ?_
  rw [stamped_group]
  exact List.mergeSort_perm messages _

end Roll

end ChordGrid
