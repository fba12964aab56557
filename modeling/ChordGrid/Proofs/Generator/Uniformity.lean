import ChordGrid.Proofs.Generator
import Mathlib.Algebra.Order.Floor.Div
import Mathlib.Data.Set.Card
import Mathlib.Order.Interval.Finset.Nat

/-!
# Every number is drawn from equally many words

A word stands for the high half of its product with the bound, and it counts unless the low half is
below the threshold. These products are the multiples of the bound. The threshold is what is left of
all words once whole bounds are taken away, so above it there is room for a whole number of bounds,
and the room is the same under every high half.
-/

namespace ChordGrid.Generator

/-! ### Multiples in a stretch -/

section Multiples

variable {size bound : Nat}

theorem multiple_mem_iff (hbound : 0 < bound) (start count w : Nat) :
    start ≤ w * bound ∧ w * bound < start + bound * count
      ↔ start ⌈/⌉ bound ≤ w ∧ w < start ⌈/⌉ bound + count := by
  have hceil : (start + bound * count) ⌈/⌉ bound = start ⌈/⌉ bound + count := by
    rw [Nat.ceilDiv_eq_add_pred_div, Nat.ceilDiv_eq_add_pred_div,
      show start + bound * count + bound - 1 = start + bound - 1 + bound * count by omega,
      Nat.add_mul_div_left _ _ hbound]
  rw [← hceil, ← not_le, ← not_le (b := w), ceilDiv_le_iff_le_mul hbound,
    ceilDiv_le_iff_le_mul hbound, Nat.mul_comm w]

/-- A stretch as long as some bounds holds as many multiples of the bound, wherever it starts. -/
theorem card_multiples (hbound : 0 < bound) {start count : Nat}
    (hstop : start + bound * count ≤ size * bound) :
    ((Finset.range size).filter fun w =>
      start ≤ w * bound ∧ w * bound < start + bound * count).card = count := by
  have hinterval : (Finset.range size).filter (fun w =>
      start ≤ w * bound ∧ w * bound < start + bound * count)
        = Finset.Ico (start ⌈/⌉ bound) (start ⌈/⌉ bound + count) := by
    ext w
    rw [Finset.mem_filter, Finset.mem_range, multiple_mem_iff hbound, Finset.mem_Ico,
      and_iff_right_iff_imp, ← multiple_mem_iff hbound]
    intro hw
    exact Nat.lt_of_mul_lt_mul_right (Nat.lt_of_lt_of_le hw.2 hstop)
  rw [hinterval, Nat.card_Ico, Nat.add_sub_cancel_left]

/-- Under each number below the bound lie as many multiples with a low half that counts. -/
theorem card_taken (hbound : 0 < bound) {n : Nat} (hn : n < bound) :
    ((Finset.range size).filter fun w =>
      size % bound ≤ w * bound % size ∧ w * bound / size = n).card = size / bound := by
  have hwhole : size % bound + bound * (size / bound) = size := Nat.mod_add_div size bound
  have hstop : n * size + size % bound + bound * (size / bound) ≤ size * bound := by
    calc n * size + size % bound + bound * (size / bound)
        = n * size + size := by rw [Nat.add_assoc, hwhole]
      _ = (n + 1) * size := (Nat.succ_mul n size).symm
      _ ≤ bound * size := Nat.mul_le_mul_right size hn
      _ = size * bound := Nat.mul_comm bound size
  rw [← card_multiples hbound hstop]
  apply congrArg Finset.card
  apply Finset.filter_congr
  intro w hw
  have hsize : 0 < size := Nat.zero_lt_of_lt (Finset.mem_range.mp hw)
  rw [Nat.add_assoc (n * size), hwhole]
  constructor
  · rintro ⟨hlow, rfl⟩
    have hsplit := Nat.mod_add_div (w * bound) size
    have hlt := Nat.mod_lt (w * bound) hsize
    rw [Nat.mul_comm size] at hsplit
    omega
  · rintro ⟨hstart, hlt⟩
    have hhigh : w * bound / size = n :=
      Nat.div_eq_of_lt_le (by omega) (by rwa [Nat.succ_mul])
    have hsplit := Nat.mod_add_div (w * bound) size
    rw [hhigh, Nat.mul_comm size] at hsplit
    exact ⟨by omega, hhigh⟩

/-- What does not count is what is left of all words once whole bounds are taken away. -/
theorem card_refused (hbound : 0 < bound) :
    ((Finset.range size).filter fun w => ¬ size % bound ≤ w * bound % size).card
      = size % bound := by
  have htaken : ((Finset.range size).filter fun w => size % bound ≤ w * bound % size).card
      = bound * (size / bound) := by
    rw [Finset.card_eq_sum_card_fiberwise (f := fun w => w * bound / size)
      (t := Finset.range bound)]
    · simp only [Finset.filter_filter]
      rw [Finset.sum_congr rfl fun n hn => card_taken hbound (Finset.mem_range.mp hn),
        Finset.sum_const, Finset.card_range, smul_eq_mul]
    · intro w hw
      have hlt := Finset.mem_range.mp (Finset.mem_filter.mp hw).1
      apply Finset.mem_coe.mpr
      apply Finset.mem_range.mpr
      exact Nat.div_lt_of_lt_mul (Nat.mul_lt_mul_of_pos_right hlt hbound)
  have hall := Finset.card_filter_add_card_filter_not (s := Finset.range size)
    fun w => size % bound ≤ w * bound % size
  have hwhole := Nat.mod_add_div size bound
  rw [htaken, Finset.card_range] at hall
  omega

end Multiples

/-! ### Words -/

theorem ncard_words (P : Nat → Prop) [DecidablePred P] :
    {word : UInt64 | P word.toNat}.ncard = ((Finset.range UInt64.size).filter P).card := by
  have himage : UInt64.toNat '' {word | P word.toNat}
      = ((Finset.range UInt64.size).filter P : Finset Nat) := by
    ext n
    rw [Finset.coe_filter]
    constructor
    · rintro ⟨word, hword, rfl⟩
      exact ⟨Finset.mem_range.mpr word.toNat_lt_size, hword⟩
    · rintro ⟨hn, hP⟩
      have hback : (UInt64.ofNat n).toNat = n :=
        UInt64.toNat_ofNat_of_lt (Finset.mem_range.mp hn)
      exact ⟨UInt64.ofNat n, by rwa [Set.mem_ofPred_eq, hback], hback⟩
  rw [← Set.ncard_coe_finset, ← himage,
    Set.ncard_image_of_injective _ fun _ _ => UInt64.toNat_inj.mp]

section Draws

variable {bound : UInt64}

theorem toNat_threshold (hbound : 0 < bound) :
    (threshold bound).toNat = UInt64.size % bound.toNat := by
  have hpos : 0 < bound.toNat := UInt64.lt_iff_toNat_lt.mp hbound
  have hlt := bound.toNat_lt_size
  rw [threshold, UInt64.toNat_mod, UInt64.toNat_sub, Nat.mod_eq_sub_mod (Nat.le_of_lt hlt)]
  congr 1
  change (UInt64.size - bound.toNat + 0) % UInt64.size = UInt64.size - bound.toNat
  exact Nat.mod_eq_of_lt (Nat.sub_lt (by decide) hpos)

theorem accepts_iff (hbound : 0 < bound) (word : UInt64) :
    accepts bound word = true
      ↔ UInt64.size % bound.toNat ≤ word.toNat * bound.toNat % UInt64.size := by
  rw [accepts, decide_eq_true_iff, UInt64.le_iff_toNat_le, toNat_threshold hbound,
    UInt64.toNat_mul]

theorem toNat_scaled (bound word : UInt64) :
    (scaled bound word).toNat = word.toNat * bound.toNat / UInt64.size := by
  apply UInt64.toNat_ofNat_of_lt
  apply Nat.div_lt_of_lt_mul
  exact Nat.mul_lt_mul'' word.toNat_lt_size bound.toNat_lt_size

theorem scaled_lt (hbound : 0 < bound) (word : UInt64) : scaled bound word < bound := by
  rw [UInt64.lt_iff_toNat_lt, toNat_scaled]
  apply Nat.div_lt_of_lt_mul
  exact Nat.mul_lt_mul_of_pos_right word.toNat_lt_size (UInt64.lt_iff_toNat_lt.mp hbound)

variable {g : Generator} {drawn : UInt64 × Generator}

/-- What is drawn at the word after so many: the words before it do not count. -/
def IsDrawnAt (bound : UInt64) (g : Generator) (count : Nat) (drawn : UInt64 × Generator) : Prop :=
  (∀ earlier < count, accepts bound (advance^[earlier] g).word = false)
    ∧ accepts bound (advance^[count] g).word = true
    ∧ drawn = (scaled bound (advance^[count] g).word, advance^[count + 1] g)

theorem isDrawnAt_zero_iff :
    IsDrawnAt bound g 0 drawn
      ↔ accepts bound g.word = true ∧ drawn = (scaled bound g.word, g.advance) := by
  simp [IsDrawnAt]

theorem isDrawnAt_succ_iff {count : Nat} :
    IsDrawnAt bound g (count + 1) drawn
      ↔ accepts bound g.word = false ∧ IsDrawnAt bound g.advance count drawn := by
  constructor
  · rintro ⟨hearlier, haccepts, hdrawn⟩
    exact ⟨hearlier 0 (Nat.succ_pos count),
      fun earlier hlt => hearlier (earlier + 1) (Nat.succ_lt_succ hlt), haccepts, hdrawn⟩
  · rintro ⟨hfirst, hearlier, haccepts, hdrawn⟩
    refine ⟨?_, haccepts, hdrawn⟩
    intro earlier hlt
    cases earlier with
    | zero => exact hfirst
    | succ earlier => exact hearlier earlier (Nat.lt_of_succ_lt_succ hlt)

theorem firstAccepted_eq_some_iff {tries : Nat} :
    firstAccepted bound tries g = some drawn
      ↔ ∃ count < tries, IsDrawnAt bound g count drawn := by
  induction tries generalizing g with
  | zero => simp [firstAccepted]
  | succ tries ih =>
      rw [firstAccepted]
      split
      · next haccepts =>
          constructor
          · intro h
            exact ⟨0, Nat.succ_pos tries,
              isDrawnAt_zero_iff.mpr ⟨haccepts, (Option.some.inj h).symm⟩⟩
          · rintro ⟨count, -, hdrawn⟩
            cases count with
            | zero => rw [(isDrawnAt_zero_iff.mp hdrawn).2]
            | succ count =>
                rw [(isDrawnAt_succ_iff.mp hdrawn).1] at haccepts
                cases haccepts
      · next hrejects =>
          rw [ih]
          constructor
          · rintro ⟨count, hlt, hdrawn⟩
            exact ⟨count + 1, Nat.succ_lt_succ hlt,
              isDrawnAt_succ_iff.mpr ⟨Bool.eq_false_of_not_eq_true hrejects, hdrawn⟩⟩
          · rintro ⟨count, hlt, hdrawn⟩
            cases count with
            | zero => exact absurd (isDrawnAt_zero_iff.mp hdrawn).1 hrejects
            | succ count =>
                exact ⟨count, Nat.lt_of_succ_lt_succ hlt, (isDrawnAt_succ_iff.mp hdrawn).2⟩

theorem below_eq_ok_iff (hbound : 0 < bound) :
    below bound g = .ok drawn ↔ ∃ count, IsDrawnAt bound g count drawn := by
  have hsome : below bound g = .ok drawn ↔ firstAccepted bound stateCount g = some drawn := by
    rw [below, if_neg fun h => by rw [h] at hbound; cases hbound]
    cases firstAccepted bound stateCount g with
    | none => simp
    | some other => simp
  rw [hsome, firstAccepted_eq_some_iff]
  constructor
  · rintro ⟨count, -, hdrawn⟩
    exact ⟨count, hdrawn⟩
  · rintro ⟨count, hdrawn⟩
    -- The state whose word counts comes up within one round, and no word counts before it.
    obtain ⟨other, hother, heq⟩ := SameCycle.exists_lt ⟨count, rfl⟩
    refine ⟨count, Nat.lt_of_not_le fun hle => ?_, hdrawn⟩
    have hrejects := hdrawn.1 other (Nat.lt_of_lt_of_le hother hle)
    rw [heq, hdrawn.2.1] at hrejects
    cases hrejects

/-- **A draw favours no number.** Of all words equally many count for each number below the bound,
as many as the bound goes into the number of words, and those that are left over count for none. A
draw gives what its first word that counts stands for, which is a number below the bound. -/
theorem draw_favours_no_number (hbound : 0 < bound) :
    (∀ n < bound, {word | accepts bound word = true ∧ scaled bound word = n}.ncard
        = UInt64.size / bound.toNat)
      ∧ {word | accepts bound word = false}.ncard = UInt64.size % bound.toNat
      ∧ ∀ g drawn, (below bound g = .ok drawn ↔ ∃ count, IsDrawnAt bound g count drawn)
        ∧ (below bound g = .ok drawn → drawn.1 < bound) := by
  have hpos : 0 < bound.toNat := UInt64.lt_iff_toNat_lt.mp hbound
  refine ⟨?_, ?_, ?_⟩
  · intro n hn
    simp only [accepts_iff hbound, ← UInt64.toNat_inj, toNat_scaled]
    rw [ncard_words fun w => UInt64.size % bound.toNat ≤ w * bound.toNat % UInt64.size
      ∧ w * bound.toNat / UInt64.size = n.toNat]
    exact card_taken hpos (UInt64.lt_iff_toNat_lt.mp hn)
  · simp only [← Bool.not_eq_true, accepts_iff hbound]
    rw [ncard_words fun w => ¬ UInt64.size % bound.toNat ≤ w * bound.toNat % UInt64.size]
    exact card_refused hpos
  · intro g drawn
    refine ⟨below_eq_ok_iff hbound, ?_⟩
    intro hdrawn
    obtain ⟨count, -, -, rfl⟩ := (below_eq_ok_iff hbound).mp hdrawn
    exact scaled_lt hbound _

/-- Of the steps of a scale none is favoured, and two words count for none of them. -/
theorem draw_favours_no_step :
    (0 : UInt64) < 7
      ∧ (∀ n < (7 : UInt64), {word | accepts 7 word = true ∧ scaled 7 word = n}.ncard
        = 2635249153387078802)
      ∧ {word | accepts 7 word = false}.ncard = 2 := by
  have hpos : (0 : UInt64) < 7 := by decide
  obtain ⟨htaken, hrefused, -⟩ := draw_favours_no_number hpos
  exact ⟨hpos, htaken, hrefused⟩

end Draws

end ChordGrid.Generator
