import ChordGrid.Proofs.Roll.Reading
import Mathlib.Data.List.Forall2

/-!
# A roll is sorted

The stream of a roll is its messages in a stable sort: by tick and rank, and those of one tick and
rank in the order they came. A stable sort is known by its classes alone, so whatever keeps the
order within each class, such as leaving messages out, may be done before the sorting or after it.
-/

namespace ChordGrid

/-! ### Stable sorting by a number -/

section Keys

variable {α : Type} (key : α → Nat)

/-- A list in the order of a number of each member; equals keep their order. -/
def sortedBy (things : List α) : List α :=
  things.mergeSort fun a b => key a ≤ key b

def classOf (k : Nat) (things : List α) : List α :=
  things.filter fun thing => key thing = k

variable {key}

theorem mem_classOf {k : Nat} {things : List α} {thing : α} :
    thing ∈ classOf key k things ↔ thing ∈ things ∧ key thing = k := by
  rw [classOf, List.mem_filter, decide_eq_true_eq]

theorem classOf_cons_self (thing : α) (things : List α) :
    classOf key (key thing) (thing :: things) = thing :: classOf key (key thing) things :=
  List.filter_cons_of_pos (decide_eq_true rfl)

theorem classOf_cons_of_ne {k : Nat} {thing : α} (h : key thing ≠ k) (things : List α) :
    classOf key k (thing :: things) = classOf key k things :=
  List.filter_cons_of_neg (by simpa using h)

theorem key_le_trans (a b c : α) (hab : decide (key a ≤ key b) = true)
    (hbc : decide (key b ≤ key c) = true) : decide (key a ≤ key c) = true := by
  simp only [decide_eq_true_eq] at hab hbc ⊢
  exact Nat.le_trans hab hbc

theorem key_le_total (a b : α) : (decide (key a ≤ key b) || decide (key b ≤ key a)) = true := by
  simp only [Bool.or_eq_true, decide_eq_true_eq]
  exact Nat.le_total (key a) (key b)

theorem pairwise_sortedBy (things : List α) :
    (sortedBy key things).Pairwise fun a b => key a ≤ key b :=
  (List.pairwise_mergeSort key_le_trans key_le_total things).imp of_decide_eq_true

/-- Sorting does not move the members of one class past each other. -/
theorem classOf_sortedBy (k : Nat) (things : List α) :
    classOf key k (sortedBy key things) = classOf key k things := by
  have hclass : (classOf key k things).Pairwise fun a b => decide (key a ≤ key b) = true := by
    refine List.Pairwise.imp_of_mem ?_ (List.pairwise_of_forall fun _ _ => trivial)
    intro a b ha hb _
    rw [(mem_classOf.mp ha).2, (mem_classOf.mp hb).2]
    exact decide_eq_true (Nat.le_refl k)
  have hsub : (classOf key k things).Sublist (sortedBy key things) :=
    List.sublist_mergeSort key_le_trans key_le_total hclass List.filter_sublist
  have hinto : (classOf key k things).Sublist (classOf key k (sortedBy key things)) := by
    have hfiltered := hsub.filter fun thing => decide (key thing = k)
    simpa only [classOf, List.filter_filter, Bool.and_self] using hfiltered
  refine (hinto.eq_of_length ?_).symm
  exact ((List.mergeSort_perm things _).filter _).length_eq.symm

theorem mem_iff_of_classes {things others : List α}
    (hclasses : ∀ k, classOf key k things = classOf key k others) (thing : α) :
    thing ∈ things ↔ thing ∈ others := by
  have hmem := @mem_classOf α key (key thing) things thing
  rw [hclasses, mem_classOf] at hmem
  simpa using hmem.symm

/-- Lists in the order of their keys are equal if their classes are. -/
theorem eq_of_classes {things others : List α} (hthings : things.Pairwise fun a b => key a ≤ key b)
    (hothers : others.Pairwise fun a b => key a ≤ key b)
    (hclasses : ∀ k, classOf key k things = classOf key k others) : things = others := by
  have hmem := mem_iff_of_classes hclasses
  induction things generalizing others with
  | nil => exact (List.eq_nil_iff_forall_not_mem.mpr fun thing => by simp [← hmem]).symm
  | cons first rest ih =>
      cases others with
      | nil => exact absurd ((hmem first).mp List.mem_cons_self) List.not_mem_nil
      | cons other more =>
          obtain ⟨hfirst, hrest⟩ := List.pairwise_cons.mp hthings
          obtain ⟨hother, hmore⟩ := List.pairwise_cons.mp hothers
          have hle : key first ≤ key other := by
            obtain rfl | hin := List.mem_cons.mp ((hmem other).mpr List.mem_cons_self)
            · exact Nat.le_refl _
            · exact hfirst other hin
          have hge : key other ≤ key first := by
            obtain rfl | hin := List.mem_cons.mp ((hmem first).mp List.mem_cons_self)
            · exact Nat.le_refl _
            · exact hother first hin
          have hkey : key other = key first := Nat.le_antisymm hge hle
          -- Both lists begin with the first member of this class.
          have hhead := hclasses (key first)
          rw [classOf_cons_self, ← hkey, classOf_cons_self] at hhead
          obtain ⟨rfl, -⟩ := List.cons.inj hhead
          have htails : ∀ k, classOf key k rest = classOf key k more := by
            intro k
            have hclass := hclasses k
            by_cases hk : key first = k
            · rw [← hk, classOf_cons_self, classOf_cons_self] at hclass
              rw [← hk]
              exact (List.cons.inj hclass).2
            · rwa [classOf_cons_of_ne hk, classOf_cons_of_ne hk] at hclass
          rw [ih hrest hmore htails (mem_iff_of_classes htails)]

theorem sortedBy_eq_of_classes {things others : List α}
    (hothers : others.Pairwise fun a b => key a ≤ key b)
    (hclasses : ∀ k, classOf key k others = classOf key k things) :
    sortedBy key things = others := by
  refine eq_of_classes (pairwise_sortedBy things) hothers ?_
  intro k
  rw [classOf_sortedBy, hclasses]

/-- What is left out may be left out before the sorting. -/
theorem filter_sortedBy (keep : α → Bool) (things : List α) :
    (sortedBy key things).filter keep = sortedBy key (things.filter keep) := by
  refine (sortedBy_eq_of_classes ((pairwise_sortedBy things).filter keep) ?_).symm
  intro k
  have hswap : ∀ list : List α,
      classOf key k (list.filter keep) = (classOf key k list).filter keep := by
    intro list
    simp only [classOf, List.filter_filter, Bool.and_comm]
  rw [hswap, hswap, classOf_sortedBy]

theorem forall₂_sortedBy {β : Type} {other : β → Nat} {R : α → β → Prop} {things : List α}
    {others : List β} (h : List.Forall₂ R things others)
    (horder : ∀ a b, R a b → ∀ c d, R c d → (key a ≤ key c ↔ other b ≤ other d)) :
    List.Forall₂ R (sortedBy key things) (sortedBy other others) := by
  obtain ⟨hlength, hpairs⟩ := List.forall₂_iff_zip.mp h
  have hthings : (things.zip others).map Prod.fst = things :=
    List.map_fst_zip (Nat.le_of_eq hlength)
  have hothers : (things.zip others).map Prod.snd = others :=
    List.map_snd_zip (Nat.le_of_eq hlength.symm)
  have hfst := List.map_mergeSort (f := Prod.fst) (l := things.zip others)
    (r := fun a b => key a.1 ≤ key b.1) (s := fun a b => key a ≤ key b) fun _ _ _ _ => rfl
  have hsnd := List.map_mergeSort (f := Prod.snd) (l := things.zip others)
    (r := fun a b => key a.1 ≤ key b.1) (s := fun a b => other a ≤ other b) (by
      intro a ha b hb
      exact decide_eq_decide.mpr (horder _ _ (hpairs ha) _ _ (hpairs hb)))
  rw [hthings] at hfst
  rw [hothers] at hsnd
  rw [sortedBy, sortedBy, ← hfst, ← hsnd, List.forall₂_map_left_iff, List.forall₂_map_right_iff,
    List.forall₂_same]
  intro pair hpair
  exact hpairs (List.mem_mergeSort.mp hpair)

end Keys

/-! ### The order of delivery -/

/-- The place of a message in the order of delivery: by tick and, within a tick, by rank. -/
def Timed.order (timed : Timed) : Nat :=
  3 * timed.tick + timed.message.rank

theorem Message.rank_lt (message : Message) : message.rank < 3 := by
  cases message <;> simp [rank]

theorem Timed.order_eq_iff {timed : Timed} {k : Nat} :
    timed.order = k ↔ timed.tick = k / 3 ∧ timed.message.rank = k % 3 := by
  have hrank := timed.message.rank_lt
  rw [order]
  omega

namespace Roll

theorem ranked_eq_sortedBy (tick : Nat) (messages : List Message) :
    ranked messages = sortedBy (fun message => 3 * tick + message.rank) messages := by
  simp only [ranked, sortedBy, Nat.add_le_add_iff_left]

theorem classOf_timed (k : Nat) (slot : Slot) :
    classOf Timed.order k slot.timed
      = (classOf (fun message => 3 * slot.tick + message.rank) k slot.messages).map
          (Timed.mk slot.tick) :=
  List.filter_map

theorem classOf_stamped_ranked (k : Nat) (slots : List Slot) :
    classOf Timed.order k
        (stamped (slots.map fun slot => { slot with messages := ranked slot.messages }))
      = classOf Timed.order k (stamped slots) := by
  induction slots with
  | nil => rfl
  | cons slot rest ih =>
      have hslot : classOf Timed.order k { slot with messages := ranked slot.messages }.timed
          = classOf Timed.order k slot.timed := by
        rw [classOf_timed, classOf_timed]
        simp only [ranked_eq_sortedBy slot.tick, classOf_sortedBy]
      simp only [classOf, stamped, List.map_cons, List.flatMap_cons, List.filter_append]
        at ih hslot ⊢
      rw [hslot, ih]

theorem classOf_order (k : Nat) (messages : List Timed) :
    classOf Timed.order k messages
      = (classOf Timed.tick (k / 3) messages).filter fun timed => timed.message.rank = k % 3 := by
  rw [classOf, classOf, List.filter_filter]
  refine List.filter_congr ?_
  intro timed _
  rw [← Bool.decide_and, decide_eq_decide, Timed.order_eq_iff, and_comm]

theorem pairwise_order_stamped {slots : List Slot}
    (hslots : slots.Pairwise fun a b => a.tick < b.tick)
    (hranked : ∀ slot ∈ slots, slot.messages.Pairwise fun a b => a.rank ≤ b.rank) :
    (stamped slots).Pairwise fun a b => a.order ≤ b.order := by
  refine List.pairwise_flatMap.mpr ⟨?_, hslots.imp ?_⟩
  · intro slot hslot
    refine List.pairwise_map.mpr ((hranked slot hslot).imp ?_)
    intro a b hle
    exact Nat.add_le_add_left hle _
  · intro slot later hlt a ha b hb
    obtain ⟨message, -, rfl⟩ := List.mem_map.mp ha
    obtain ⟨other, -, rfl⟩ := List.mem_map.mp hb
    have hrank := message.rank_lt
    simp only [Timed.order]
    omega

/-- **The stream of a roll is sorted.** It is a stable sort of the messages by tick and rank. -/
theorem stream_ofMessages (messages : List Timed) :
    (ofMessages messages).stream = sortedBy Timed.order messages := by
  refine (sortedBy_eq_of_classes ?_ ?_).symm
  · refine pairwise_order_stamped (isOrdered_ofMessages messages) ?_
    intro slot hslot
    obtain ⟨grouped, -, rfl⟩ := List.mem_map.mp hslot
    exact @pairwise_sortedBy _ Message.rank grouped.messages
  · intro k
    have hticks : inTime messages = sortedBy Timed.tick messages := rfl
    rw [stream, ofMessages, classOf_stamped_ranked, stamped_group, classOf_order, hticks,
      classOf_sortedBy, ← classOf_order]

end Roll

end ChordGrid
