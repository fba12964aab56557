import ChordGrid.Proofs.Generator

/-!
# Seeds and the dead state

The state of four zero words follows upon itself, so a generator in it says zero for ever. No other
state leads there, because no two states have one successor. Nor does any seed: the words of a state
are scrambled counters, scrambling can be undone, and the counters of a seed differ.
-/

namespace ChordGrid.Generator

/-! ### Scrambling -/

/-- Bits are known by their sum with themselves shifted down, from the high bits down. -/
theorem eq_of_xor_ushiftRight {width shift : Nat} (hshift : 0 < shift) {a b : BitVec width}
    (h : a ^^^ (a >>> shift) = b ^^^ (b >>> shift)) : a = b := by
  have heach : ∀ distance i, width ≤ i + distance → a.getLsbD i = b.getLsbD i := by
    intro distance
    induction distance using Nat.strongRecOn with
    | ind distance ih =>
        intro i hi
        by_cases hinside : i < width
        · have hhigher := ih (distance - shift) (by omega) (shift + i) (by omega)
          have hbit := congrArg (fun bits => bits.getLsbD i) h
          simpa [BitVec.getLsbD_ushiftRight, hhigher] using hbit
        · rw [BitVec.getLsbD_of_ge a i (by omega), BitVec.getLsbD_of_ge b i (by omega)]
  exact BitVec.eq_of_getLsbD_eq fun i _ => heach width i (Nat.le_add_left width i)

theorem eq_of_xor_shiftRight {shift a b : UInt64} (hshift : 0 < (shift % 64).toNat)
    (h : a ^^^ (a >>> shift) = b ^^^ (b >>> shift)) : a = b := by
  have hbits := congrArg UInt64.toBitVec h
  rw [UInt64.toBitVec_xor, UInt64.toBitVec_xor, UInt64.toBitVec_shiftRight,
    UInt64.toBitVec_shiftRight] at hbits
  exact UInt64.toBitVec_inj.mp (eq_of_xor_ushiftRight hshift hbits)

theorem eq_of_mul_eq_mul {a b factor : UInt64} (inverse : UInt64)
    (hinverse : factor * inverse = 1) (h : a * factor = b * factor) : a = b := by
  calc a = a * factor * inverse := by rw [UInt64.mul_assoc, hinverse, UInt64.mul_one]
    _ = b * factor * inverse := by rw [h]
    _ = b := by rw [UInt64.mul_assoc, hinverse, UInt64.mul_one]

theorem scramble_injective : Function.Injective scramble := by
  intro a b h
  have hsecond := eq_of_xor_shiftRight (by decide) h
  have hfirst := eq_of_xor_shiftRight (by decide)
    (eq_of_mul_eq_mul 0x319642b2d24d8ec3 (by decide) hsecond)
  exact eq_of_xor_shiftRight (by decide)
    (eq_of_mul_eq_mul 0x96de1b173f119089 (by decide) hfirst)

/-! ### The dead state -/

def dead : Generator :=
  ⟨0, 0, 0, 0⟩

theorem advance_dead : dead.advance = dead :=
  rfl

theorem advance_eq_dead_iff {g : Generator} : g.advance = dead ↔ g = dead := by
  constructor
  · intro h
    exact advance_injective (h.trans advance_dead.symm)
  · rintro rfl
    exact advance_dead

theorem iterate_advance_dead (count : Nat) : advance^[count] dead = dead :=
  Function.iterate_fixed advance_dead count

theorem eq_dead_of_iterate_advance {g : Generator} {count : Nat}
    (h : advance^[count] g = dead) : g = dead :=
  advance_injective.iterate count (h.trans (iterate_advance_dead count).symm)

theorem ofSeed_injective : Function.Injective ofSeed := by
  intro seed other h
  have hfirst := scramble_injective (congrArg s0 h)
  exact UInt64.add_left_inj goldenStep |>.mp hfirst

/-- The first two words of a state are scrambled from two counters, so one of them is not zero. -/
theorem ofSeed_ne_dead (seed : UInt64) : ofSeed seed ≠ dead := by
  intro h
  have hwords : scramble (seed + goldenStep) = scramble (seed + 2 * goldenStep) :=
    (congrArg s0 h).trans (congrArg s1 h).symm
  have hcounters : goldenStep = 2 * goldenStep :=
    UInt64.add_right_inj seed |>.mp (scramble_injective hwords)
  exact absurd hcounters (by decide)

theorem word_dead : dead.word = 0 := by
  decide

theorem below_dead : below 7 dead = .error .endless := by
  have hnone : firstAccepted 7 stateCount dead = none := by
    apply Option.eq_none_iff_forall_ne_some.mpr
    intro drawn hdrawn
    obtain ⟨count, -, haccepts⟩ := exists_firstAccepted_iff.mp ⟨drawn, hdrawn⟩
    rw [iterate_advance_dead, word_dead] at haccepts
    exact absurd haccepts (by decide)
  rw [below, if_neg (by decide), hnone]

/-- **No generator falls dead.** Each state has one predecessor at most, and the dead one, which
says zero for ever and never draws a step, has itself. Different seeds give different states, none
of them is the dead one, and no number of words leads there. -/
theorem seeded_never_dead :
    Function.Injective advance
      ∧ (∀ g : Generator, g.advance = dead ↔ g = dead)
      ∧ ((∀ count, (advance^[count] dead).word = 0) ∧ below 7 dead = .error .endless)
      ∧ Function.Injective ofSeed
      ∧ (∀ seed, ofSeed seed ≠ dead)
      ∧ ∀ seed count, advance^[count] (ofSeed seed) ≠ dead := by
  refine ⟨advance_injective, fun g => advance_eq_dead_iff, ⟨?_, below_dead⟩, ofSeed_injective,
    ofSeed_ne_dead, ?_⟩
  · intro count
    rw [iterate_advance_dead, word_dead]
  · intro seed count h
    exact ofSeed_ne_dead seed (eq_dead_of_iterate_advance h)

end ChordGrid.Generator
