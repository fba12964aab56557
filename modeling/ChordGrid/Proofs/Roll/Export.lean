import ChordGrid.Resolution
import ChordGrid.Proofs.Roll.Sorting

/-!
# Exporting a roll

An export walks a roll in windows of one quantum, for as long as a window ends by the last tick and
its end can be named at all; what is left is read in one piece. Neither the quantum nor where the
walk stops can be seen in the result: it is the one stable sort of the messages by tick and rank.
-/

namespace ChordGrid

/-- What a stable sort of messages by tick and rank makes of them. -/
structure IsStableSort (messages stream : List Timed) : Prop where
  perm : stream.Perm messages
  ordered : stream.Pairwise fun a b =>
    a.tick < b.tick ∨ a.tick = b.tick ∧ a.message.rank ≤ b.message.rank
  stable : ∀ tick rank,
    stream.filter (fun timed => timed.tick = tick ∧ timed.message.rank = rank)
      = messages.filter fun timed => timed.tick = tick ∧ timed.message.rank = rank

theorem Timed.order_le_iff {a b : Timed} :
    a.order ≤ b.order
      ↔ a.tick < b.tick ∨ a.tick = b.tick ∧ a.message.rank ≤ b.message.rank := by
  have ha := a.message.rank_lt
  have hb := b.message.rank_lt
  rw [order, order]
  omega

/-- There is one stable sort of any messages. -/
theorem isStableSort_iff {messages stream : List Timed} :
    IsStableSort messages stream ↔ stream = sortedBy Timed.order messages := by
  constructor
  · intro hsort
    refine (sortedBy_eq_of_classes (hsort.ordered.imp Timed.order_le_iff.mpr) ?_).symm
    intro k
    simp only [classOf, Timed.order_eq_iff]
    exact hsort.stable (k / 3) (k % 3)
  · rintro rfl
    refine ⟨List.mergeSort_perm messages _, ?_, ?_⟩
    · exact (@pairwise_sortedBy _ Timed.order messages).imp Timed.order_le_iff.mp
    · intro tick rank
      by_cases hrank : rank < 3
      · have hclass := @classOf_sortedBy _ Timed.order (3 * tick + rank) messages
        have htick : (3 * tick + rank) / 3 = tick := by omega
        have hmod : (3 * tick + rank) % 3 = rank := by omega
        simpa only [classOf, Timed.order_eq_iff, htick, hmod] using hclass
      · -- No message has such a rank.
        have hnone : ∀ list : List Timed,
            list.filter (fun timed => timed.tick = tick ∧ timed.message.rank = rank) = [] := by
          intro list
          apply List.filter_eq_nil_iff.mpr
          intro timed _
          have hlt := timed.message.rank_lt
          simp only [decide_eq_true_eq]
          omega
        rw [hnone, hnone]

namespace Roll

/-! ### The walk -/

/-- What is read from a tick on, one quantum at a time. -/
def readOn (roll : Roll) (quantum last start : Nat) : List Timed :=
  let stop := start + max quantum 1
  if stop ≤ lastTick ∧ stop ≤ last then roll.window start stop ++ roll.readOn quantum last stop
  else roll.onward start
termination_by last - start

/-- Every quantum of the roll in turn, those that hold nothing included. -/
def readThrough (roll : Roll) (quantum : Nat) : List Timed :=
  match roll.finalTick? with
  | none => []
  | some last => roll.readOn quantum last 0

variable {roll : Roll}

theorem readOn_eq_onward (hroll : roll.IsOrdered) (quantum last start : Nat) :
    roll.readOn quantum last start = roll.onward start := by
  fun_induction readOn roll quantum last start with
  | case1 start stop hstop ih =>
      rw [ih]
      exact window_append_onward hroll (Nat.le_add_right start _)
  | case2 => rfl

theorem onward_zero (roll : Roll) : roll.onward 0 = roll.stream := by
  rw [onward_eq_filter]
  exact List.filter_eq_self.mpr fun timed _ => decide_eq_true (Nat.zero_le timed.tick)

theorem readThrough_eq_stream (hroll : roll.IsOrdered) (quantum : Nat) :
    roll.readThrough quantum = roll.stream := by
  unfold readThrough
  cases hlast : roll.finalTick? with
  | none =>
      have hslots : roll.slots = [] := by simpa [finalTick?] using hlast
      rw [stream, hslots]
      rfl
  | some last =>
      change roll.readOn quantum last 0 = roll.stream
      rw [readOn_eq_onward hroll, onward_zero]

theorem window?_of_le (roll : Roll) {start stop : Nat} (hle : start ≤ stop) :
    roll.window? start stop = some (roll.window start stop) :=
  if_neg fun hrefused => Nat.not_lt_of_le hle hrefused.1

theorem window_append_window (hroll : roll.IsOrdered) {a b c : Nat} (hab : a ≤ b) (hbc : b ≤ c) :
    roll.window a b ++ roll.window b c = roll.window a c := by
  have honward : (roll.window a b ++ roll.window b c) ++ roll.onward c
      = roll.window a c ++ roll.onward c := by
    calc (roll.window a b ++ roll.window b c) ++ roll.onward c
        = roll.window a b ++ (roll.window b c ++ roll.onward c) := List.append_assoc _ _ _
      _ = roll.window a b ++ roll.onward b := by rw [window_append_onward hroll hbc]
      _ = roll.onward a := window_append_onward hroll hab
      _ = roll.window a c ++ roll.onward c :=
          (window_append_onward hroll (Nat.le_trans hab hbc)).symm
  exact List.append_cancel_right honward

/-- **An export is a stable sort, whatever the quantum.** The walk comes to an end and delivers the
one list that holds the messages in the order of tick and rank and keeps the order in which messages
of one tick and rank came. Windows that follow one another make up the window around them, which is
a part of that list. -/
theorem export_is_stable_sort (messages : List Timed) (quantum : Nat) :
    (ofMessages messages).readThrough quantum = (ofMessages messages).exported quantum ∧
      (∀ stream, IsStableSort messages stream ↔ stream = (ofMessages messages).exported quantum) ∧
      ∀ a b c, a ≤ b → b ≤ c →
        ∃ first second, (ofMessages messages).window? a b = some first ∧
          (ofMessages messages).window? b c = some second ∧
          (ofMessages messages).window? a c = some (first ++ second) ∧
          first ++ second
            = ((ofMessages messages).exported quantum).filter fun timed =>
                a ≤ timed.tick && timed.tick < c := by
  have hroll := isOrdered_ofMessages messages
  rw [exported_eq_stream]
  refine ⟨readThrough_eq_stream hroll quantum, ?_, ?_⟩
  · intro stream
    rw [stream_ofMessages]
    exact isStableSort_iff
  · intro a b c hab hbc
    have hac := window_append_window hroll hab hbc
    refine ⟨_, _, window?_of_le _ hab, window?_of_le _ hbc, ?_, ?_⟩
    · rw [hac]
      exact window?_of_le _ (Nat.le_trans hab hbc)
    · rw [hac, window_eq_filter]

/-- A key struck, released and struck again at the last tick there is, among setup messages. -/
def atTheTop : List Timed :=
  [⟨lastTick, .noteOn 0 60 90⟩, ⟨0, .noteOn 0 60 90⟩, ⟨lastTick, .noteOff 0 60⟩,
    ⟨lastTick, .program 0 4⟩, ⟨lastTick, .noteOn 0 60 80⟩, ⟨lastTick, .control 0 7 100⟩]

def atTheTopSorted : List Timed :=
  [⟨0, .noteOn 0 60 90⟩, ⟨lastTick, .program 0 4⟩, ⟨lastTick, .control 0 7 100⟩,
    ⟨lastTick, .noteOff 0 60⟩, ⟨lastTick, .noteOn 0 60 90⟩, ⟨lastTick, .noteOn 0 60 80⟩]

/-- The walk from tick to tick and the one whose second window has no end deliver the same. -/
theorem export_is_stable_sort_at_the_top :
    (ofMessages atTheTop).readThrough 0 = atTheTopSorted ∧
      (ofMessages atTheTop).readThrough lastTick = atTheTopSorted ∧
      IsStableSort atTheTop atTheTopSorted ∧
      (0 ≤ 1 ∧ 1 ≤ lastTick) ∧
      (ofMessages atTheTop).window? 0 lastTick = some [⟨0, .noteOn 0 60 90⟩] := by
  have hstream : (ofMessages atTheTop).stream = atTheTopSorted := by
    rw [stream_ofMessages]
    simp [atTheTop, atTheTopSorted, sortedBy, List.mergeSort, Timed.order, Message.rank, lastTick,
      topOf]
  have hslow := export_is_stable_sort atTheTop 0
  have hfast := export_is_stable_sort atTheTop lastTick
  rw [exported_eq_stream, hstream] at hslow hfast
  have htop : 1 ≤ lastTick := by decide
  obtain ⟨first, second, -, -, hwindow, hpart⟩ := hslow.2.2 0 1 lastTick (by decide) htop
  refine ⟨hslow.1, hfast.1, (hfast.2.1 _).mpr rfl, ⟨by decide, htop⟩, ?_⟩
  rw [hwindow, hpart]
  decide

end Roll

end ChordGrid
