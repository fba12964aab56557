import ChordGrid.Proofs.Build.Strikes

namespace ChordGrid

variable {α β : Type}

/-- The computation succeeds unless a draw is endless. -/
inductive FailsByDraw : Except Fault α → Prop
  | draw : FailsByDraw (.error .endlessDraw)
  | ok (a : α) : FailsByDraw (.ok a)

namespace FailsByDraw

theorem map {x : Except Fault α} (h : FailsByDraw x) (f : α → β) : FailsByDraw (x.map f) := by
  cases h with
  | draw => exact .draw
  | ok a => exact .ok (f a)

theorem mapM {f : α → Except Fault β} {things : List α}
    (h : ∀ thing ∈ things, FailsByDraw (f thing)) : FailsByDraw (things.mapM f) := by
  induction things with
  | nil => exact .ok []
  | cons thing rest ih =>
      obtain ⟨hfirst, hrest⟩ := List.forall_mem_cons.mp h
      rw [List.mapM_cons]
      generalize f thing = outcome at hfirst
      cases hfirst with
      | draw => exact .draw
      | ok result => exact (ih hrest).map (result :: ·)

end FailsByDraw

namespace Phrase

variable {phrase : Phrase} {position : Nat} {tonality : Tonality} {pattern : Pattern}

end Phrase

namespace Part

variable {channel : Nat} {tonality : Tonality} {phrases : List Phrase}

end Part

end ChordGrid
