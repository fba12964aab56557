import ChordGrid.Proofs.Grid.Notation

/-!
# Holds lengthen steps

A step lasts for its own cell and the holds right after it, among the cells that count. So what
sounds in a cell is the nearest step at or before it, if there are only holds between the two. In a
grid that was read from a text this is the case for every cell but the rests, because its grammar
allows no hold without a step to lengthen.
-/

namespace ChordGrid

namespace Cell

variable {cells : List Cell} {start other index limit : Nat} {step : Step}

/-- What is struck in one cell is held up to another. -/
def HeldFrom (cells : List Cell) (start index : Nat) : Prop :=
  start ≤ index ∧ ∀ between ≤ index, start < between → cells[between]? = some hold

instance (cells : List Cell) (start index : Nat) : Decidable (HeldFrom cells start index) :=
  inferInstanceAs (Decidable (_ ∧ _))

theorem lt_length_takeWhile_iff {count : Nat} :
    count < (cells.takeWhile (· = hold)).length
      ↔ ∀ index ≤ count, cells[index]? = some hold := by
  induction cells generalizing count with
  | nil => simpa using ⟨0, Nat.zero_le count⟩
  | cons cell cells ih =>
      by_cases hcell : cell = hold
      · rw [List.takeWhile_cons_of_pos (by simpa using hcell), List.length_cons]
        cases count with
        | zero => simp [hcell]
        | succ count =>
            rw [Nat.succ_lt_succ_iff, ih]
            constructor
            · intro h index hindex
              cases index with
              | zero => exact congrArg some hcell
              | succ index => exact h index (Nat.le_of_succ_le_succ hindex)
            · intro h index hindex
              exact h (index + 1) (Nat.succ_le_succ hindex)
      · rw [List.takeWhile_cons_of_neg (by simpa using hcell)]
        refine iff_of_false (Nat.not_lt_zero count) ?_
        intro h
        exact hcell (Option.some.inj (h 0 (Nat.zero_le count)))

theorem le_add_holdsAfter_iff (hstart : start ≤ index) :
    index ≤ start + holdsAfter cells start limit ↔ HeldFrom (cells.take limit) start index := by
  obtain ⟨distance, rfl⟩ := Nat.exists_eq_add_of_le hstart
  rw [Nat.add_le_add_iff_left, HeldFrom, and_iff_right hstart, holdsAfter]
  cases distance with
  | zero => exact iff_of_true (Nat.zero_le _) fun between hbefore hafter => by omega
  | succ distance =>
      rw [Nat.succ_le_iff, lt_length_takeWhile_iff]
      simp only [List.getElem?_drop]
      constructor
      · intro h between hbefore hafter
        have hcell := h (between - (start + 1)) (by omega)
        rwa [Nat.add_sub_cancel' hafter] at hcell
      · intro h between hbefore
        exact h (start + 1 + between) (by omega) (by omega)

theorem HeldFrom.not_step (h : HeldFrom cells start index) {between : Nat}
    (hafter : start < between) (hbefore : between ≤ index) :
    cells[between]? ≠ some (.step step) := by
  rw [h.2 between hbefore hafter]
  exact fun heq => nomatch heq

theorem HeldFrom.ne_rest (h : HeldFrom cells start index)
    (hstep : cells[start]? = some (.step step)) : cells[index]? ≠ some rest := by
  obtain rfl | hlt := Nat.eq_or_lt_of_le h.1
  · rw [hstep]
    exact fun heq => nomatch heq
  · rw [h.2 index (Nat.le_refl index) hlt]
    exact fun heq => nomatch heq

/-- The nearest step at or before a cell. -/
structure IsNearest (cells : List Cell) (index start : Nat) (step : Step) : Prop where
  le : start ≤ index
  struck : cells[start]? = some (.step step)
  nearest : ∀ between, start < between → between ≤ index →
    ∀ other, cells[between]? ≠ some (.step other)

theorem HeldFrom.isNearest (h : HeldFrom cells start index)
    (hstep : cells[start]? = some (.step step)) : IsNearest cells index start step :=
  ⟨h.1, hstep, fun _ hafter hbefore _ => h.not_step hafter hbefore⟩

theorem IsNearest.unique {again : Step} (h : IsNearest cells index start step)
    (hother : IsNearest cells index other again) : start = other ∧ step = again := by
  obtain hlt | rfl | hlt := Nat.lt_trichotomy start other
  · exact absurd hother.struck (h.nearest other hlt hother.le again)
  · exact ⟨rfl, Cell.step.inj (Option.some.inj (h.struck.symm.trans hother.struck))⟩
  · exact absurd h.struck (hother.nearest start hlt h.le step)

/-- Every cell but a rest is a step or is held from one. -/
def IsSounded (cells : List Cell) : Prop :=
  ∀ index cell, cells[index]? = some cell → cell ≠ rest →
    ∃ start step, cells[start]? = some (.step step) ∧ HeldFrom cells start index

theorem IsSounded.take (h : IsSounded cells) (limit : Nat) : IsSounded (cells.take limit) := by
  intro index cell hcell hsounds
  rw [List.getElem?_take] at hcell
  split at hcell
  · next hindex =>
      obtain ⟨start, step, hstep, hle, hholds⟩ := h index cell hcell hsounds
      refine ⟨start, step, ?_, hle, ?_⟩
      · rw [List.getElem?_take_of_lt (by omega), hstep]
      · intro between hbefore hafter
        rw [List.getElem?_take_of_lt (by omega), hholds between hbefore hafter]
  · cases hcell

end Cell

theorem Grid.isSounded_of_pitched {text : String} {cells : List Cell}
    (hread : pitched text = .ok cells) : Cell.IsSounded cells := by
  intro index cell hcell hsounds
  obtain ⟨hlt, rfl⟩ := List.getElem?_eq_some_iff.mp hcell
  cases hkind : cells[index] with
  | rest => exact absurd hkind hsounds
  | step step =>
      refine ⟨index, step, ?_, Nat.le_refl index, fun between hbefore hafter => by omega⟩
      rw [hcell, hkind]
  | hold =>
      have hsplit : cells = cells.take index ++ .hold :: cells.drop (index + 1) := by
        rw [← hkind, List.getElem_cons_drop, List.take_append_drop]
      obtain ⟨earlier, step, count, hfront⟩ := exists_step_of_pitched hread hsplit
      have hindex : earlier.length + (count + 1) = index := by
        have hlength := congrArg List.length hfront
        rw [List.length_take_of_le (Nat.le_of_lt hlt)] at hlength
        simp only [List.length_append, List.length_cons, List.length_replicate] at hlength
        omega
      have hfronts : ∀ place < index,
          cells[place]? = (earlier ++ .step step :: List.replicate count .hold)[place]? := by
        intro place hplace
        rw [← hfront, List.getElem?_take_of_lt hplace]
      refine ⟨earlier.length, step, ?_, by omega, ?_⟩
      · rw [hfronts _ (by omega), List.getElem?_append_right (Nat.le_refl _), Nat.sub_self]
        rfl
      · intro between hbefore hafter
        obtain rfl | hbefore := Nat.eq_or_lt_of_le hbefore
        · rw [hcell, hkind]
        · rw [hfronts _ hbefore, List.getElem?_append_right (Nat.le_of_lt hafter)]
          obtain ⟨distance, hdistance⟩ := Nat.exists_eq_add_of_lt hafter
          have hplace : between - earlier.length = distance + 1 := by omega
          rw [hplace, List.getElem?_cons_succ, List.getElem?_replicate, if_pos (by omega)]

end ChordGrid
