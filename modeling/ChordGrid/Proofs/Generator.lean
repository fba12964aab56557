import ChordGrid.Generator
import Mathlib.Data.Fintype.Prod
import Mathlib.Dynamics.PeriodicPts.Lemmas

/-!
# The states of the generator come round

No two states of the generator have one successor, so its states lie on cycles and a generator never
leaves its cycle. If it has drawn once it draws again, however often it has drawn, because it comes
back to the word that was accepted then.
-/

namespace ChordGrid.Generator

/-! ### Successors -/

theorem rotateLeft_injective {a b : UInt64} (h : rotateLeft a 45 = rotateLeft b 45) : a = b := by
  have hrotate : ∀ word : UInt64, (rotateLeft word 45).toBitVec = word.toBitVec.rotateLeft 45 := by
    intro word
    rw [BitVec.rotateLeft_def, rotateLeft, UInt64.toBitVec_or, UInt64.toBitVec_shiftLeft,
      UInt64.toBitVec_shiftRight]
    rfl
  have hbits := congrArg UInt64.toBitVec h
  rw [hrotate, hrotate] at hbits
  apply UInt64.toBitVec_inj.mp
  apply BitVec.eq_of_getLsbD_eq
  intro i hi
  by_cases hlow : i + 45 < 64
  · have hbit := congrArg (fun bits => bits.getLsbD (i + 45)) hbits
    have hhigh : ¬ i + 45 < 45 := by omega
    simpa [BitVec.getLsbD_rotateLeft, BitVec.getLsbD_eq_getElem hi, hhigh, hlow] using hbit
  · have hbit := congrArg (fun bits => bits.getLsbD (i - 19)) hbits
    have hwrapped : i - 19 < 45 := by omega
    have hback : 19 + (i - 19) = i := by omega
    simpa [BitVec.getLsbD_rotateLeft, BitVec.getLsbD_eq_getElem hi, hwrapped, hback] using hbit

/-- A word is known by its sum with its own shift, from the low bits up. -/
theorem eq_of_xor_shiftLeft {a b : UInt64} (h : a ^^^ (a <<< 17) = b ^^^ (b <<< 17)) : a = b := by
  have hbits := congrArg UInt64.toBitVec h
  rw [UInt64.toBitVec_xor, UInt64.toBitVec_xor, UInt64.toBitVec_shiftLeft,
    UInt64.toBitVec_shiftLeft] at hbits
  have heach : ∀ i, a.toBitVec.getLsbD i = b.toBitVec.getLsbD i := by
    intro i
    induction i using Nat.strongRecOn with
    | ind i ih =>
        have hbit := congrArg (fun bits => bits.getLsbD i) hbits
        by_cases hlow : i < 17
        · simpa [BitVec.getLsbD_shiftLeft, hlow] using hbit
        · have hlower := ih (i - 17) (by omega)
          simpa [BitVec.getLsbD_shiftLeft, hlower] using hbit
  apply UInt64.toBitVec_inj.mp
  exact BitVec.eq_of_getLsbD_eq fun i _ => heach i

theorem xor_xor_xor_cancel (a b c : UInt64) : (a ^^^ b) ^^^ (b ^^^ c) = a ^^^ c := by
  rw [UInt64.xor_assoc, ← UInt64.xor_assoc b, UInt64.xor_self, UInt64.zero_xor]

/-- No two states have one successor. -/
theorem advance_injective : Function.Injective advance := by
  intro g g' h
  obtain ⟨a0, a1, a2, a3⟩ := g
  obtain ⟨b0, b1, b2, b3⟩ := g'
  simp only [advance, mk.injEq] at h
  obtain ⟨h0, h1, h2, h3⟩ := h
  have hthird := rotateLeft_injective h3
  rw [hthird, UInt64.xor_left_inj] at h0
  -- The second and third words of the successor add up to the second word and its shift.
  have hsecond : a1 = b1 := by
    apply eq_of_xor_shiftLeft
    calc
      a1 ^^^ (a1 <<< 17)
        = (a1 ^^^ (a2 ^^^ a0)) ^^^ ((a2 ^^^ a0) ^^^ (a1 <<< 17)) :=
          (xor_xor_xor_cancel _ _ _).symm
      _ = (b1 ^^^ (b2 ^^^ b0)) ^^^ ((b2 ^^^ b0) ^^^ (b1 <<< 17)) := by rw [h1, h2]
      _ = b1 ^^^ (b1 <<< 17) := xor_xor_xor_cancel _ _ _
  rw [hsecond, UInt64.xor_right_inj, h0, UInt64.xor_left_inj] at h1
  rw [hsecond, UInt64.xor_left_inj] at hthird
  rw [h0, hsecond, h1, hthird]

def words (g : Generator) : Fin UInt64.size × Fin UInt64.size × Fin UInt64.size × Fin UInt64.size :=
  (g.s0.toFin, g.s1.toFin, g.s2.toFin, g.s3.toFin)

theorem words_injective : Function.Injective words := by
  intro g g' h
  obtain ⟨a0, a1, a2, a3⟩ := g
  obtain ⟨b0, b1, b2, b3⟩ := g'
  simpa [words, UInt64.toFin_inj] using h

noncomputable instance : Fintype Generator :=
  Fintype.ofInjective words words_injective

theorem card_le_stateCount : Fintype.card Generator ≤ stateCount := by
  calc
    Fintype.card Generator
      ≤ Fintype.card (Fin UInt64.size × Fin UInt64.size × Fin UInt64.size × Fin UInt64.size) :=
        Fintype.card_le_of_injective words words_injective
    _ = UInt64.size * (UInt64.size * (UInt64.size * UInt64.size)) := by
      rw [Fintype.card_prod, Fintype.card_prod, Fintype.card_prod, Fintype.card_fin]
    _ ≤ stateCount := by decide

/-- Every state comes round, after no more steps than there are states. -/
theorem minimalPeriod_advance (g : Generator) :
    0 < Function.minimalPeriod advance g ∧ Function.minimalPeriod advance g ≤ stateCount :=
  ⟨Function.minimalPeriod_pos_of_mem_periodicPts (advance_injective.mem_periodicPts g),
    Nat.le_trans Function.minimalPeriod_le_card card_le_stateCount⟩

/-! ### Cycles -/

/-- The second generator is the first one after some steps. -/
def SameCycle (g g' : Generator) : Prop :=
  ∃ count, advance^[count] g = g'

namespace SameCycle

variable {g g' g'' : Generator}

theorem refl (g : Generator) : g.SameCycle g :=
  ⟨0, rfl⟩

theorem advance (g : Generator) : g.SameCycle g.advance :=
  ⟨1, rfl⟩

theorem trans (h : g.SameCycle g') (hnext : g'.SameCycle g'') : g.SameCycle g'' := by
  obtain ⟨count, rfl⟩ := h
  obtain ⟨more, rfl⟩ := hnext
  exact ⟨more + count, Function.iterate_add_apply _ more count g⟩

theorem exists_lt (h : g.SameCycle g') :
    ∃ count < stateCount, Generator.advance^[count] g = g' := by
  obtain ⟨count, rfl⟩ := h
  obtain ⟨hpos, hle⟩ := minimalPeriod_advance g
  exact ⟨count % Function.minimalPeriod Generator.advance g,
    Nat.lt_of_lt_of_le (Nat.mod_lt count hpos) hle, Function.iterate_mod_minimalPeriod_eq⟩

theorem symm (h : g.SameCycle g') : g'.SameCycle g := by
  obtain ⟨count, rfl⟩ := h
  -- As many whole rounds as there are steps lead back to the start.
  have hround : Generator.advance^[count * Function.minimalPeriod Generator.advance g] g = g :=
    (Function.isPeriodicPt_minimalPeriod Generator.advance g).const_mul count
  have hle : count ≤ count * Function.minimalPeriod Generator.advance g :=
    Nat.le_mul_of_pos_right count (minimalPeriod_advance g).1
  refine ⟨count * Function.minimalPeriod Generator.advance g - count, ?_⟩
  rw [← Function.iterate_add_apply, Nat.sub_add_cancel hle, hround]

end SameCycle

/-! ### Draws -/

theorem exists_firstAccepted_iff {bound : UInt64} {tries : Nat} {g : Generator} :
    (∃ drawn, firstAccepted bound tries g = some drawn)
      ↔ ∃ count < tries, accepts bound (advance^[count] g).word = true := by
  induction tries generalizing g with
  | zero => simp [firstAccepted]
  | succ tries ih =>
      rw [firstAccepted]
      split
      · next haccepts => exact iff_of_true ⟨_, rfl⟩ ⟨0, Nat.succ_pos tries, haccepts⟩
      · next hrejects =>
          rw [ih]
          constructor
          · intro h
            obtain ⟨count, hcount, haccepts⟩ := h
            exact ⟨count + 1, Nat.succ_lt_succ hcount, haccepts⟩
          · intro h
            obtain ⟨count, hcount, haccepts⟩ := h
            cases count with
            | zero => exact absurd haccepts hrejects
            | succ count => exact ⟨count, Nat.lt_of_succ_lt_succ hcount, haccepts⟩

theorem sameCycle_of_firstAccepted {bound : UInt64} {tries : Nat} {g : Generator}
    {drawn : UInt64 × Generator} (h : firstAccepted bound tries g = some drawn) :
    g.SameCycle drawn.2 := by
  induction tries generalizing g with
  | zero => cases h
  | succ tries ih =>
      rw [firstAccepted] at h
      split at h
      · cases h
        exact .advance g
      · exact (SameCycle.advance g).trans (ih h)

variable {g g' : Generator}

theorem SameCycle.exists_step (h : g.SameCycle g') {drawn : Step × Generator}
    (hdrawn : g.step? = some drawn) : ∃ other, g'.step? = some other := by
  obtain ⟨accepted, haccepted, -⟩ := Option.map_eq_some_iff.mp hdrawn
  obtain ⟨count, -, haccepts⟩ := exists_firstAccepted_iff.mp ⟨accepted, haccepted⟩
  -- The state whose word was accepted lies on the cycle, so the other generator comes to it.
  obtain ⟨steps, hsteps, heq⟩ := (h.symm.trans ⟨count, rfl⟩).exists_lt
  rw [← heq] at haccepts
  obtain ⟨other, hother⟩ := exists_firstAccepted_iff.mpr ⟨steps, hsteps, haccepts⟩
  rw [step?, hother]
  exact ⟨_, rfl⟩

theorem sameCycle_of_step {drawn : Step × Generator} (h : g.step? = some drawn) :
    g.SameCycle drawn.2 := by
  obtain ⟨accepted, haccepted, rfl⟩ := Option.map_eq_some_iff.mp h
  exact sameCycle_of_firstAccepted haccepted

/-- So many steps drawn one after the other, and the generator after them. -/
def steps? : Nat → Generator → Option (List Step × Generator)
  | 0, g => some ([], g)
  | count + 1, g => do
    let (step, g) ← g.step?
    let (steps, g) ← steps? count g
    return (step :: steps, g)

theorem steps?_succ (count : Nat) (g : Generator) :
    g.steps? (count + 1) = g.step?.bind fun drawn =>
      (drawn.2.steps? count).map fun more => (drawn.1 :: more.1, more.2) := by
  rw [steps?]
  cases g.step? with
  | none => rfl
  | some drawn =>
      change (drawn.2.steps? count >>= fun more => pure (drawn.1 :: more.1, more.2))
        = (drawn.2.steps? count).map _
      cases drawn.2.steps? count <;> rfl

theorem of_steps? {count : Nat} {drawn : List Step × Generator} (h : g.steps? count = some drawn) :
    drawn.1.length = count ∧ g.SameCycle drawn.2 := by
  induction count generalizing g drawn with
  | zero =>
      cases h
      exact ⟨rfl, .refl g⟩
  | succ count ih =>
      rw [steps?_succ] at h
      obtain ⟨first, hfirst, h⟩ := Option.bind_eq_some_iff.mp h
      obtain ⟨more, hmore, rfl⟩ := Option.map_eq_some_iff.mp h
      obtain ⟨hlength, hcycle⟩ := ih hmore
      exact ⟨congrArg Nat.succ hlength, (sameCycle_of_step hfirst).trans hcycle⟩

theorem SameCycle.exists_steps (h : g.SameCycle g') {count : Nat} {drawn : List Step × Generator}
    (hdrawn : g.steps? count = some drawn) : ∃ other, g'.steps? count = some other := by
  induction count generalizing g g' drawn with
  | zero => exact ⟨([], g'), rfl⟩
  | succ count ih =>
      rw [steps?_succ] at hdrawn
      obtain ⟨first, hfirst, hdrawn⟩ := Option.bind_eq_some_iff.mp hdrawn
      obtain ⟨more, hmore, -⟩ := Option.map_eq_some_iff.mp hdrawn
      obtain ⟨second, hsecond⟩ := h.exists_step hfirst
      have hafter : first.2.SameCycle second.2 :=
        (sameCycle_of_step hfirst).symm.trans (h.trans (sameCycle_of_step hsecond))
      obtain ⟨others, hothers⟩ := ih hafter hmore
      rw [steps?_succ, hsecond, Option.bind_some, hothers]
      exact ⟨_, rfl⟩

end ChordGrid.Generator
